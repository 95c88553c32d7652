import Niphas.Nix.Base32

/-!
# Decoding any string

`from_nix_base32` on strings that no encoder has written.  Three things can happen: a character is
no digit, the digits do not fit into the output buffer, or the digits are decoded and the leading
one may have bits to spare.

The buffer has as many bytes as fit into the digits, rounded down.  With a length of 1, 3 or 6
modulo 8 the first digit of the text, which is the last one to be decoded, begins behind the end of
the buffer, and its write is out of bounds, whatever it is.  With the other lengths it begins inside
and may reach beyond; what is beyond is dropped without a check.  So two texts may be decoded to the
same bytes, and the one that is not written by the encoder is the one with a bit set there.

Each of these is an equivalence over all strings, those with characters of several bytes included:
the buffer is sized by the bytes of the text, and the loop runs over its characters.

* `fromNixBase32_eq_panic` — the decoder writes behind its buffer exactly when all characters are
  digits and the last of them has no byte to go to.
* `toNixBase32_of_fromNixBase32_iff` — what is decoded is encoded to the same string exactly when
  the spare bits are zero.
-/

namespace Niphas

open Bytes

/-! ## The loop -/

lemma fromNixBase32Loop_append (outLen : ℕ) (xs ys : List Char) (i : ℕ) (out : List UInt8) :
    fromNixBase32Loop outLen (xs ++ ys) i out =
      fromNixBase32Loop outLen xs i out >>= fromNixBase32Loop outLen ys (i + xs.length) := by
  induction xs generalizing i out with
  | nil => rfl
  | cons c xs ih =>
      rw [List.cons_append, fromNixBase32Loop, fromNixBase32Loop, bind_assoc]
      refine bind_congr fun out' => ?_
      rw [ih, List.length_cons, Nat.add_assoc, Nat.add_comm 1]

/-- A character is a digit or ends the loop. -/
lemma fromNixBase32Loop_not_digit (outLen i : ℕ) (out : List UInt8) {c : Char} (rest : List Char)
    (hc : c ∉ nixBase32Chars) :
    fromNixBase32Loop outLen (c :: rest) i out = fail (invalidBase32Char c) := by
  rw [fromNixBase32Loop, fromNixBase32Step, List.idxOf?_eq_none_iff.mpr hc]
  rfl

/-- A digit behind the buffer ends the process. -/
lemma fromNixBase32Loop_overrun {outLen i : ℕ} {out : List UInt8} {c : Char} (rest : List Char)
    (hc : c ∈ nixBase32Chars) (hout : out.length ≤ i * 5 / 8) :
    fromNixBase32Loop outLen (c :: rest) i out = .error .panic := by
  obtain ⟨d, hd⟩ := Option.isSome_iff_exists.mp (List.isSome_idxOf?.mpr hc)
  rw [fromNixBase32Loop, fromNixBase32Step, hd]
  simp only [orAt, if_neg (Nat.not_lt.mpr hout)]
  rfl

lemma exists_digitChar {c : Char} (hc : c ∈ nixBase32Chars) : ∃ d < 32, c = digitChar d := by
  obtain ⟨n, hn, rfl⟩ := List.getElem_of_mem hc
  refine ⟨n, hn, ?_⟩
  rw [digitChar, List.getD_eq_getElem _ _ hn]

/-- Digits that fit into the buffer are decoded. -/
lemma fromNixBase32Loop_fits {cs : List Char} (hcs : ∀ c ∈ cs, c ∈ nixBase32Chars) {outLen : ℕ}
    (hfit : 5 * cs.length < 8 * outLen + 5) :
    ∃ out, fromNixBase32Loop outLen cs 0 (List.replicate outLen 0) = .ok out ∧
      out.length = outLen := by
  obtain ⟨digit, hlt, heq⟩ := exists_digits fun c hc => exists_digitChar (hcs c hc)
  obtain ⟨out, hloop, hlen, -⟩ := fromNixBase32Loop_digits hlt cs.length 0
    (List.replicate outLen 0) List.length_replicate (by omega) fun j _ => by
      rw [bit_replicate, decide_eq_false (by omega), Bool.false_and]
  rw [← List.range_eq_range', ← heq] at hloop
  exact ⟨out, hloop, hlen⟩

/-! ## Panics -/

/-- A string on which the decoder writes behind its output buffer: all its characters are digits,
and the leading digit begins in a byte of which it does not fill a whole one. -/
def Overruns (s : String) : Prop :=
  (∀ c ∈ s.toList, c ∈ nixBase32Chars) ∧
    ((utf8 s).length % 8 = 1 ∨ (utf8 s).length % 8 = 3 ∨ (utf8 s).length % 8 = 6)

instance (s : String) : Decidable (Overruns s) := inferInstanceAs (Decidable (_ ∧ _))

lemma utf8Size_of_mem {c : Char} (hc : c ∈ nixBase32Chars) : c.utf8Size = 1 := by
  obtain ⟨d, hd, rfl⟩ := exists_digitChar hc
  exact utf8Size_digitChar hd

/-- A string of digits has as many bytes as characters. -/
lemma length_utf8_of_digits {s : String} (h : ∀ c ∈ s.toList, c ∈ nixBase32Chars) :
    (utf8 s).length = s.toList.length := by
  rw [← length_utf8_ofList fun c hc => utf8Size_of_mem (h c hc), String.ofList_toList]

/-- A string that has a character outside the alphabet is refused. -/
lemma fromNixBase32_not_digits {s : String} (h : ¬ ∀ c ∈ s.toList, c ∈ nixBase32Chars) :
    ∃ c, fromNixBase32 s = fail (invalidBase32Char c) := by
  obtain ⟨c, hfind⟩ :
      ∃ c, s.toList.reverse.find? (fun c => decide (c ∉ nixBase32Chars)) = some c := by
    rw [← Option.isSome_iff_exists, List.find?_isSome]
    by_contra hnone
    refine h fun c hc => ?_
    by_contra hnot
    exact hnone ⟨c, List.mem_reverse.mpr hc, decide_eq_true hnot⟩
  obtain ⟨hc, pre, post, hsplit, hpre⟩ := List.find?_eq_some_iff_append.mp hfind
  have hdigits : ∀ x ∈ pre, x ∈ nixBase32Chars := by
    intro x hx
    have hnot := hpre x hx
    rw [Bool.not_eq_true', decide_eq_false_iff_not, not_not] at hnot
    exact hnot
  have hchars : pre.length + 1 ≤ s.toList.length := by
    have hlen := congrArg List.length hsplit
    rw [List.length_reverse, List.length_append, List.length_cons] at hlen
    omega
  have hbytes := length_toList_le s
  have hne : ¬ (utf8 s).length = 0 := by omega
  obtain ⟨out, hloop, -⟩ := @fromNixBase32Loop_fits _ hdigits ((utf8 s).length * 5 / 8) (by omega)
  refine ⟨c, ?_⟩
  simp only [fromNixBase32, if_neg hne]
  rw [hsplit, fromNixBase32Loop_append, hloop]
  exact fromNixBase32Loop_not_digit _ _ _ _ (of_decide_eq_true hc)

/-- All digits have a byte to go to. -/
lemma fits_of_mod {n : ℕ} (h : ¬ (n % 8 = 1 ∨ n % 8 = 3 ∨ n % 8 = 6)) :
    5 * n < 8 * (n * 5 / 8) + 5 := by
  have hmod : n % 8 = 0 ∨ n % 8 = 2 ∨ n % 8 = 4 ∨ n % 8 = 5 ∨ n % 8 = 7 := by omega
  rcases hmod with hmod | hmod | hmod | hmod | hmod <;> omega

/-- **When the decoder panics.** -/
lemma fromNixBase32_eq_panic (s : String) : fromNixBase32 s = .error .panic ↔ Overruns s := by
  by_cases hdigits : ∀ c ∈ s.toList, c ∈ nixBase32Chars
  swap
  · obtain ⟨c, hfail⟩ := fromNixBase32_not_digits hdigits
    rw [hfail]
    exact ⟨fun h => (by cases h), fun h => absurd h.1 hdigits⟩
  have hlen := length_utf8_of_digits hdigits
  have hrev : ∀ c ∈ s.toList.reverse, c ∈ nixBase32Chars := fun c hc =>
    hdigits c (List.mem_reverse.mp hc)
  by_cases hover : (utf8 s).length % 8 = 1 ∨ (utf8 s).length % 8 = 3 ∨ (utf8 s).length % 8 = 6
  · refine ⟨fun _ => ⟨hdigits, hover⟩, fun _ => ?_⟩
    have hne : ¬ (utf8 s).length = 0 := by omega
    obtain ⟨c, cs, hsplit⟩ := List.exists_cons_of_length_pos (by omega : 0 < s.toList.length)
    rw [hsplit] at hlen hdigits
    obtain ⟨hc, hcs⟩ := List.forall_mem_cons.mp hdigits
    rw [List.length_cons] at hlen
    obtain ⟨out, hloop, hout⟩ := @fromNixBase32Loop_fits _
      (fun d hd => hcs d (List.mem_reverse.mp hd)) ((utf8 s).length * 5 / 8)
      (by rw [List.length_reverse]; omega)
    simp only [fromNixBase32, if_neg hne]
    rw [hsplit, List.reverse_cons, fromNixBase32Loop_append, hloop]
    refine fromNixBase32Loop_overrun [] hc ?_
    rw [hout, List.length_reverse]
    omega
  · refine ⟨fun h => ?_, fun h => absurd h.2 hover⟩
    simp only [fromNixBase32] at h
    split at h
    · cases h
    · obtain ⟨out, hloop, -⟩ := @fromNixBase32Loop_fits _ hrev ((utf8 s).length * 5 / 8) (by
        rw [List.length_reverse, ← hlen]
        exact fits_of_mod hover)
      rw [hloop] at h
      cases h

/-! ## Spare bits -/

/-- The digits of a string have room for this many bits more than its bytes. -/
def spareBits (s : String) : ℕ := 5 * (utf8 s).length % 8

/-- The first digit, which holds the highest bits. -/
def leadingDigit (s : String) : ℕ := (s.toList.head?.bind nixBase32Chars.idxOf?).getD 0

/-- The spare bits are zero. -/
def Canonical (s : String) : Prop := leadingDigit s < 2 ^ (5 - spareBits s)

instance (s : String) : Decidable (Canonical s) := inferInstanceAs (Decidable (_ < _))

/-- What a decoded string is made of: its digits fill the bytes, from the last one on. -/
lemma of_fromNixBase32 {s : String} {b : List UInt8} (h : fromNixBase32 s = .ok b) :
    ∃ digit : ℕ → ℕ, (∀ n, digit n < 32) ∧
      s = String.ofList ((List.range (utf8 s).length).map fun n => digitChar (digit n)).reverse ∧
      8 * b.length + spareBits s = 5 * (utf8 s).length ∧ spareBits s < 5 ∧
      ∀ j < 8 * b.length, bit b j = (digit (j / 5)).testBit (j % 5) := by
  have hover : ¬ ((utf8 s).length % 8 = 1 ∨ (utf8 s).length % 8 = 3 ∨ (utf8 s).length % 8 = 6) := by
    intro hover
    have hdigits : ∀ c ∈ s.toList, c ∈ nixBase32Chars := by
      by_contra hnot
      obtain ⟨c, hfail⟩ := fromNixBase32_not_digits hnot
      rw [hfail] at h
      cases h
    rw [(fromNixBase32_eq_panic s).mpr ⟨hdigits, hover⟩] at h
    cases h
  have hfits := fits_of_mod hover
  by_cases hzero : (utf8 s).length = 0
  · simp only [fromNixBase32, if_pos hzero, Except.ok.injEq] at h
    have hs : s = "" := utf8_injective (List.length_eq_zero_iff.mp hzero)
    subst hs h
    exact ⟨fun _ => 0, fun _ => Nat.zero_lt_succ 31, rfl, rfl, by decide, fun j hj => by cases hj⟩
  simp only [fromNixBase32, if_neg hzero] at h
  obtain ⟨digit, hlt, hcs⟩ := exists_digits (digit_of_fromNixBase32Loop_ok h)
  set len := s.toList.reverse.length
  have hs : s = String.ofList ((List.range len).map fun n => digitChar (digit n)).reverse := by
    rw [← hcs, List.reverse_reverse, String.ofList_toList]
  have hlen : (utf8 s).length = len := by
    rw [hs, length_utf8_digitChars digit hlt]
  rw [hlen] at h hfits
  obtain ⟨out, hloop, hlen', hbits⟩ := fromNixBase32Loop_all hlt (len * 5 / 8) len hfits (by omega)
  rw [hcs, hloop, Except.ok.injEq] at h
  subst h
  refine ⟨digit, hlt, by rw [hlen]; exact hs, ?_, ?_, by rwa [hlen']⟩
  · rw [spareBits, hlen, hlen']
    omega
  · rw [spareBits, hlen, Nat.mul_comm]
    omega

lemma digitChar_injOn {d d' : ℕ} (hd : d < 32) (hd' : d' < 32) (h : digitChar d = digitChar d') :
    d = d' := by
  have hidx := idxOf_digitChar hd
  rw [h, idxOf_digitChar hd', Option.some.injEq] at hidx
  exact hidx.symm

/-- The digit a string begins with. -/
lemma leadingDigit_ofList {digit : ℕ → ℕ} (hlt : ∀ n, digit n < 32) (len : ℕ) :
    leadingDigit (String.ofList
      ((List.range (len + 1)).map fun n => digitChar (digit n)).reverse) = digit len := by
  rw [leadingDigit, String.toList_ofList, List.range_succ, List.map_append, List.reverse_append]
  change ((some (digitChar (digit len))).bind nixBase32Chars.idxOf?).getD 0 = digit len
  rw [Option.bind_some, idxOf_digitChar (hlt len)]
  rfl

/-- Digits are written differently. -/
lemma map_digitChar_inj {digit digit' : ℕ → ℕ} {len : ℕ} (hlt : ∀ n, digit n < 32)
    (hlt' : ∀ n, digit' n < 32) :
    ((List.range len).map fun n => digitChar (digit n)) =
        (List.range len).map (fun n => digitChar (digit' n)) ↔ ∀ n < len, digit n = digit' n := by
  constructor
  · intro heq n hn
    have hget := congrArg (·[n]?) heq
    simp only [List.getElem?_map, List.getElem?_range hn, Option.map_some,
      Option.some.injEq] at hget
    exact digitChar_injOn (hlt n) (hlt' n) hget
  · exact fun heq => List.map_congr_left fun n hn => by rw [heq n (List.mem_range.mp hn)]

/-- A digit has five bits. -/
lemma testBit_digit {d : ℕ} (hd : d < 32) {k : ℕ} (hk : 5 ≤ k) : d.testBit k = false := by
  have hpow : 2 ^ 5 ≤ 2 ^ k := Nat.pow_le_pow_right (by decide) hk
  exact Nat.testBit_lt_two_pow (lt_of_lt_of_le hd hpow)

/-- The encoder's digits of bytes that have been filled from digits: the bits that are there. -/
lemma testBit_nixBase32Digit_filled {digit : ℕ → ℕ} {b : List UInt8}
    (hbits : ∀ j < 8 * b.length, bit b j = (digit (j / 5)).testBit (j % 5)) (n : ℕ) {k : ℕ}
    (hk : k < 5) : (nixBase32Digit b n).toNat.testBit k =
      (decide (5 * n + k < 8 * b.length) && (digit n).testBit k) := by
  rw [testBit_nixBase32Digit b n hk]
  by_cases hj : 5 * n + k < 8 * b.length
  · have hdiv : (5 * n + k) / 5 = n := by omega
    have hmod : (5 * n + k) % 5 = k := by omega
    rw [hbits _ hj, hdiv, hmod, decide_eq_true hj, Bool.true_and]
  · rw [bit_of_le (Nat.not_lt.mp hj), decide_eq_false hj, Bool.false_and]

/-- **Encoding undoes decoding exactly where the spare bits are zero.** -/
lemma toNixBase32_of_fromNixBase32_iff {s : String} {b : List UInt8} (h : fromNixBase32 s = .ok b) :
    toNixBase32 b = s ↔ Canonical s := by
  obtain ⟨digit, hlt, hs, hlen, hspare, hbits⟩ := of_fromNixBase32 h
  set len := (utf8 s).length
  have hcount : (b.length * 8 + 4) / 5 = len := by omega
  -- the encoder's digits are the decoder's, without the spare bits
  have hdigit := fun n k => @testBit_nixBase32Digit_filled digit b hbits n k
  have hiff : toNixBase32 b = s ↔ ∀ n < len, (nixBase32Digit b n).toNat = digit n := by
    rw [toNixBase32_eq, hcount, hs, String.ofList_inj, List.reverse_inj]
    exact map_digitChar_inj (nixBase32Digit_lt b) hlt
  rw [hiff]
  rcases Nat.eq_zero_or_pos len with hzero | hpos
  · have hnil : s = "" := utf8_injective (List.length_eq_zero_iff.mp hzero)
    subst hnil
    exact ⟨fun _ => by decide, fun _ n hn => absurd hn (by rw [hzero]; exact Nat.not_lt_zero n)⟩
  obtain ⟨top, htop⟩ : ∃ top, len = top + 1 := ⟨len - 1, by omega⟩
  have hlead : leadingDigit s = digit top := by
    rw [hs, htop, leadingDigit_ofList hlt]
  have hbound : 5 * top + (5 - spareBits s) = 8 * b.length := by omega
  rw [Canonical, hlead]
  constructor
  · intro heq
    refine Nat.lt_pow_two_of_testBit _ fun k hk => ?_
    rcases Nat.lt_or_ge k 5 with hk5 | hk5
    · rw [← heq top (by omega), hdigit top k hk5, decide_eq_false (by omega), Bool.false_and]
    · exact testBit_digit (hlt top) hk5
  · intro hcan n hn
    refine Nat.eq_of_testBit_eq fun k => ?_
    rcases Nat.lt_or_ge k 5 with hk5 | hk5
    · rw [hdigit n k hk5]
      by_cases hj : 5 * n + k < 8 * b.length
      · rw [decide_eq_true hj, Bool.true_and]
      · have hn' : n = top := by omega
        subst hn'
        have hpow : 2 ^ (5 - spareBits s) ≤ 2 ^ k := Nat.pow_le_pow_right (by decide) (by omega)
        rw [decide_eq_false hj, Bool.false_and, Nat.testBit_lt_two_pow (lt_of_lt_of_le hcan hpow)]
    · rw [testBit_digit (nixBase32Digit_lt b n) hk5, testBit_digit (hlt n) hk5]

lemma leadingDigit_lt (s : String) : leadingDigit s < 32 := by
  rw [leadingDigit]
  cases hidx : s.toList.head?.bind nixBase32Chars.idxOf? with
  | none => decide
  | some d =>
      obtain ⟨c, -, hc⟩ := Option.bind_eq_some_iff.mp hidx
      exact (List.findIdx?_eq_some_iff_getElem.mp hc).1

/-- Where the digits fill the bytes exactly, as they do in the hash part of a store path, there are
no spare bits. -/
lemma toNixBase32_of_fromNixBase32 {s : String} {b : List UInt8} (h : fromNixBase32 s = .ok b)
    (hfull : spareBits s = 0) : toNixBase32 b = s := by
  refine (toNixBase32_of_fromNixBase32_iff h).mpr ?_
  rw [Canonical, hfull]
  exact leadingDigit_lt s

/-! ## Hashes -/

namespace NixHash

lemma colon_not_mem_toString (a : HashAlgo) : ':' ∉ a.toString.toList := by
  cases a <;> decide

/-- What is read as a hash. -/
lemma parse_eq_ok {s : String} {h : NixHash} (hparse : parse s = .ok h) :
    ∃ hashStr, s = h.algo.toString ++ (":" ++ hashStr) ∧ fromNixBase32 hashStr = .ok h.digest := by
  rw [parse] at hparse
  split at hparse
  · cases hparse
  next algoStr hashStr hsplit =>
  obtain ⟨rfl, -⟩ := (Str.splitOnce_eq_some rfl).mp hsplit
  cases halgo : HashAlgo.parse algoStr with
  | error e =>
      rw [halgo] at hparse
      cases hparse
  | ok algo =>
      obtain rfl := HashAlgo.parse_eq_ok.mp halgo
      rw [halgo, Result.ok_bind] at hparse
      cases hdec : fromNixBase32 hashStr with
      | error e =>
          rw [hdec] at hparse
          cases hparse
      | ok digest =>
          rw [hdec, Result.ok_bind] at hparse
          split at hparse
          · cases hparse
            exact ⟨hashStr, rfl, hdec⟩
          · cases hparse

end NixHash

/-- **When decoding is canonical.**  A string that is decoded is the encoding of what it is decoded
to exactly when its spare bits are zero; so two such strings are decoded differently, and a hash is
printed as it was read exactly when the spare bits of its digest are zero. -/
theorem decoding_canonical (s : String) :
    (∀ b, fromNixBase32 s = .ok b → (toNixBase32 b = s ↔ Canonical s)) ∧
    (∀ s' b, fromNixBase32 s = .ok b → fromNixBase32 s' = .ok b → Canonical s → Canonical s' →
      s = s') ∧
    ∀ h, NixHash.parse s = .ok h →
      (h.toString = s ↔ ∀ algo hashStr, Str.splitOnce ":" s = some (algo, hashStr) →
        Canonical hashStr) := by
  refine ⟨fun b h => toNixBase32_of_fromNixBase32_iff h, fun s' b h h' hs hs' => ?_,
    fun h hparse => ?_⟩
  · rw [← (toNixBase32_of_fromNixBase32_iff h).mpr hs]
    exact (toNixBase32_of_fromNixBase32_iff h').mpr hs'
  · obtain ⟨hashStr, rfl, hdec⟩ := NixHash.parse_eq_ok hparse
    have hcolon := NixHash.colon_not_mem_toString h.algo
    have hsplit := @Str.splitOnce_append _ _ ":" _ rfl hcolon hashStr
    have hprint : h.toString = h.algo.toString ++ (":" ++ hashStr) ↔ Canonical hashStr := by
      rw [NixHash.toString, String.append_assoc, String.append_right_inj, String.append_right_inj]
      exact toNixBase32_of_fromNixBase32_iff hdec
    rw [hprint, hsplit]
    constructor
    · rintro hcan _ _ ⟨⟩
      exact hcan
    · exact fun hcan => hcan _ _ rfl

/-- The hash of all zeros, with a spare bit set. -/
def spareZeros : String := "sha256:2" ++ String.ofList (List.replicate 51 '0')

/-- One byte, decoded from a string that is its encoding. -/
theorem decoding_canonical_byte : toNixBase32 [255] = "7z" :=
  ((decoding_canonical "7z").1 [255] rfl).mpr (by decide)

/-- **A digest that two strings are decoded to**, of which only one is printed. -/
theorem decoding_spare_bit :
    fromNixBase32 "80" = .ok [0] ∧ fromNixBase32 "00" = .ok [0] ∧ toNixBase32 [0] ≠ "80" ∧
      NixHash.parse spareZeros = .ok ⟨.sha256, List.replicate 32 0⟩ ∧
      NixHash.toString ⟨.sha256, List.replicate 32 0⟩ ≠ spareZeros := by
  refine ⟨rfl, rfl, by decide +kernel, by decide +kernel, by decide +kernel⟩

end Niphas
