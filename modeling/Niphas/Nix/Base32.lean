import Mathlib.Algebra.Order.Floor.Div
import Mathlib.GroupTheory.GroupAction.Ring
import Niphas.Nix.Hash

/-!
# Nix-base32 loses nothing

The encoder and the decoder of `hash.rs` on the level of bits: digit `n` of an encoding holds bits
`5 n` to `5 n + 4` of the input (`testBit_nixBase32Digit`), and one turn of the decoder's loop puts
a digit's bits back in their place (`fromNixBase32Step_digit`).  The decoder's loop therefore
rebuilds the input bit by bit.

Bits are the right level because neither bytes nor digits are: a digit may lie in one byte or across
two, and a byte is put together from two digits or three.  On bits there is no such case.  The
invariant of the decoder's loop is a statement about bits too: those of the digits that have been
read are in the buffer, and all the others are zero.

The length of the input is arbitrary.  The last digit may reach beyond the end of the input, and the
encoder has zeros there; that the decoder puts nothing behind its buffer then is part of the round
trip.

* `fromNixBase32_toNixBase32` — decoding undoes encoding.
* `toNixBase32Indexed_eq`, `fromNixBase32Indexed_eq` — no access of the encoder is out of bounds,
  and the decoder's table is never read beyond its end.
* `base32_roundTrip` — both together, and what it means for hashes.
-/

namespace Niphas

open Bytes

lemma testBit_nixBase32Digit (input : List UInt8) (n : ℕ) {k : ℕ} (hk : k < 5) :
    (nixBase32Digit input n).toNat.testBit k = bit input (5 * n + k) := by
  have hmask : ∀ c : UInt8, (c &&& 0x1f).toNat.testBit k = c.toNat.testBit k := by
    intro c
    rw [UInt8.toNat_and, Nat.testBit_and]
    have h31 : (0x1f : UInt8).toNat = 2 ^ 5 - 1 := rfl
    rw [h31, Nat.testBit_two_pow_sub_one, decide_eq_true hk, Bool.and_true]
  have hr : n * 5 % 8 < 8 := Nat.mod_lt _ (by decide)
  -- the digit lies in one byte, or runs over into the next one
  by_cases hin : n * 5 % 8 + k < 8
  · have hdiv : (5 * n + k) / 8 = n * 5 / 8 := by omega
    have hmod : (5 * n + k) % 8 = n * 5 % 8 + k := by omega
    have hlow : ((input.getD (n * 5 / 8) 0 >>> UInt8.ofNat (n * 5 % 8)) &&& 0x1f).toNat.testBit k
        = bit input (5 * n + k) := by
      rw [hmask, testBit_shiftRight _ hr, bit, hdiv, hmod]
    simp only [nixBase32Digit]
    split
    · rw [hmask, UInt8.toNat_or, Nat.testBit_or, hlow, testBit_shiftLeft _ (by omega) (by omega)]
      have hno : ¬ 8 - n * 5 % 8 ≤ k := by omega
      rw [decide_eq_false hno, Bool.false_and, Bool.or_false]
    · exact hlow
  · have hdiv : (5 * n + k) / 8 = n * 5 / 8 + 1 := by omega
    have hmod : (5 * n + k) % 8 = k - (8 - n * 5 % 8) := by omega
    have hlow : ((input.getD (n * 5 / 8) 0 >>> UInt8.ofNat (n * 5 % 8)) &&& 0x1f).toNat.testBit k
        = false := by
      rw [hmask, testBit_shiftRight _ hr, testBit_of_eight_le _ (by omega)]
    simp only [nixBase32Digit]
    split
    · rw [hmask, UInt8.toNat_or, Nat.testBit_or, hlow, testBit_shiftLeft _ (by omega) (by omega),
        bit, hdiv, hmod]
      have hyes : 8 - n * 5 % 8 ≤ k := by omega
      rw [decide_eq_true hyes, Bool.true_and, Bool.false_or]
    · rw [hlow, bit_of_le (by omega)]

lemma nixBase32Digit_lt (input : List UInt8) (n : ℕ) : (nixBase32Digit input n).toNat < 32 := by
  have hmask : ∀ c : UInt8, (c &&& 0x1f).toNat < 32 := by
    intro c
    rw [UInt8.toNat_and]
    exact lt_of_le_of_lt Nat.and_le_right (by decide)
  simp only [nixBase32Digit]
  split <;> exact hmask _

/-! ## The decoder -/

/-- The character of digit `d`. -/
def digitChar (d : ℕ) : Char := nixBase32Chars.getD d '0'

lemma idxOf_digitChar {d : ℕ} (hd : d < 32) : nixBase32Chars.idxOf? (digitChar d) = some d := by
  have h : ∀ d : Fin 32, nixBase32Chars.idxOf? (digitChar d) = some d.1 := by decide
  exact h ⟨d, hd⟩

lemma utf8Size_digitChar {d : ℕ} (hd : d < 32) : (digitChar d).utf8Size = 1 := by
  have h : ∀ d : Fin 32, (digitChar d).utf8Size = 1 := by decide
  exact h ⟨d, hd⟩

lemma orAt_eq {out : List UInt8} {i : ℕ} (hi : i < out.length) (v : UInt8) :
    orAt out i v = .ok (out.set i (out.getD i 0 ||| v)) := if_pos hi

/-- What one turn of the decoder's loop does -/
lemma fromNixBase32Step_digit (out : List UInt8) {d : ℕ} (i : ℕ) (hd : d < 32)
    (hi : 5 * i < 8 * out.length) :
    ∃ out', fromNixBase32Step out.length out (digitChar d) i = .ok out' ∧
      out'.length = out.length ∧ ∀ j < 8 * out.length,
        bit out' j = (bit out j || (decide (5 * i ≤ j) && d.testBit (j - 5 * i))) := by
  have hd8 : (UInt8.ofNat d).toNat = d := by
    rw [UInt8.toNat_ofNat']
    omega
  have hr : i * 5 % 8 < 8 := Nat.mod_lt _ (by decide)
  have hidx : i * 5 / 8 < out.length := by omega
  have htop : ∀ j, 5 ≤ j → d.testBit j = false := by
    intro j hj
    have h32 : 2 ^ 5 ≤ 2 ^ j := Nat.pow_le_pow_right (by decide) hj
    exact Nat.testBit_lt_two_pow (by omega)
  set out₁ := out.set (i * 5 / 8)
    (out.getD (i * 5 / 8) 0 ||| UInt8.ofNat d <<< UInt8.ofNat (i * 5 % 8)) with hout₁
  have hlen₁ : out₁.length = out.length := List.length_set
  have hbit₁ : ∀ j, bit out₁ j = (bit out j || (decide (j / 8 = i * 5 / 8) &&
      (decide (i * 5 % 8 ≤ j % 8) && d.testBit (j % 8 - i * 5 % 8)))) := by
    intro j
    rw [hout₁, bit_set_or hidx, testBit_shiftLeft _ hr (Nat.mod_lt _ (by decide)), hd8]
  have hsame : ∀ j, j / 8 ≤ i * 5 / 8 → (decide (j / 8 = i * 5 / 8) &&
      (decide (i * 5 % 8 ≤ j % 8) && d.testBit (j % 8 - i * 5 % 8)))
        = (decide (5 * i ≤ j) && d.testBit (j - 5 * i)) := by
    intro j hj
    by_cases heq : j / 8 = i * 5 / 8
    · have hsub : j % 8 - i * 5 % 8 = j - 5 * i := by omega
      have hle : i * 5 % 8 ≤ j % 8 ↔ 5 * i ≤ j := by omega
      rw [decide_eq_true heq, Bool.true_and, hsub, decide_eq_decide.mpr hle]
    · rw [decide_eq_false heq, decide_eq_false (by omega : ¬ 5 * i ≤ j)]
      rfl
  by_cases hover : 3 < i * 5 % 8 ∧ i * 5 / 8 + 1 < out.length
  · have hidx' : i * 5 / 8 + 1 < out₁.length := by rw [hlen₁]; exact hover.2
    refine ⟨out₁.set (i * 5 / 8 + 1) (out₁.getD (i * 5 / 8 + 1) 0 |||
      UInt8.ofNat d >>> UInt8.ofNat (8 - i * 5 % 8)), ?_, ?_, fun j hj => ?_⟩
    · simp only [fromNixBase32Step, idxOf_digitChar hd, orAt_eq hidx, ← hout₁]
      change (if _ then _ else _) = _
      rw [if_pos hover, orAt_eq hidx']
    · rw [List.length_set, hlen₁]
    · rw [bit_set_or hidx', hbit₁, testBit_shiftRight _ (by omega), hd8, Bool.or_assoc]
      congr 1
      rcases Nat.lt_trichotomy (j / 8) (i * 5 / 8 + 1) with hj' | hj' | hj'
      · rw [decide_eq_false (Nat.ne_of_lt hj'), Bool.false_and, Bool.or_false]
        exact hsame j (by omega)
      · have hsub : 8 - i * 5 % 8 + j % 8 = j - 5 * i := by omega
        rw [decide_eq_true hj', decide_eq_false (by omega : ¬ j / 8 = i * 5 / 8),
          decide_eq_true (by omega : 5 * i ≤ j), hsub]
        rfl
      · rw [decide_eq_false (by omega : ¬ j / 8 = i * 5 / 8),
          decide_eq_false (by omega : ¬ j / 8 = i * 5 / 8 + 1), htop (j - 5 * i) (by omega),
          Bool.and_false]
        rfl
  · refine ⟨out₁, ?_, hlen₁, fun j hj => ?_⟩
    · simp only [fromNixBase32Step, idxOf_digitChar hd, orAt_eq hidx, ← hout₁]
      change (if _ then _ else _) = _
      rw [if_neg hover]
    · rw [hbit₁]
      congr 1
      by_cases hj' : j / 8 ≤ i * 5 / 8
      · exact hsame j hj'
      · rw [decide_eq_false (by omega : ¬ j / 8 = i * 5 / 8), htop (j - 5 * i) (by omega),
          Bool.and_false]
        rfl

/-- The decoder's loop on `k` digits from position `i` on: the digits below `i` are in the buffer
already, and in the end the digits below `i + k` are. -/
lemma fromNixBase32Loop_digits {digit : ℕ → ℕ} (hdigit : ∀ n, digit n < 32) {outLen : ℕ} :
    ∀ (k i : ℕ) (out : List UInt8), out.length = outLen → 5 * (i + k) < 8 * outLen + 5 →
    (∀ j < 8 * outLen, bit out j = (decide (j < 5 * i) && (digit (j / 5)).testBit (j % 5))) →
    ∃ out', fromNixBase32Loop outLen ((List.range' i k).map fun n => digitChar (digit n)) i out
        = .ok out' ∧ out'.length = outLen ∧ ∀ j < 8 * outLen,
          bit out' j = (decide (j < 5 * (i + k)) && (digit (j / 5)).testBit (j % 5)) := by
  intro k
  induction k with
  | zero => exact fun i out hlen _ hbits => ⟨out, rfl, hlen, hbits⟩
  | succ k ih =>
      intro i out hlen hk hbits
      obtain ⟨out₁, hstep, hlen₁, hbits₁⟩ :=
        fromNixBase32Step_digit out i (hdigit i) (by omega)
      rw [hlen] at hstep hlen₁ hbits₁
      have hbits₂ : ∀ j < 8 * outLen,
          bit out₁ j = (decide (j < 5 * (i + 1)) && (digit (j / 5)).testBit (j % 5)) := by
        intro j hj
        rw [hbits₁ j hj, hbits j hj]
        rcases Nat.lt_or_ge j (5 * i) with hlo | hlo
        · rw [decide_eq_true hlo, decide_eq_true (by omega : j < 5 * (i + 1)),
            decide_eq_false (by omega : ¬ 5 * i ≤ j), Bool.false_and, Bool.or_false]
        · rw [decide_eq_false (by omega : ¬ j < 5 * i), decide_eq_true hlo, Bool.false_and,
            Bool.false_or, Bool.true_and]
          by_cases hhi : j < 5 * (i + 1)
          · have hdiv : j / 5 = i := by omega
            have hmod : j - 5 * i = j % 5 := by omega
            rw [decide_eq_true hhi, Bool.true_and, hdiv, hmod]
          · have h32 : 2 ^ 5 ≤ 2 ^ (j - 5 * i) := Nat.pow_le_pow_right (by decide) (by omega)
            have hd := hdigit i
            rw [decide_eq_false hhi, Nat.testBit_lt_two_pow (by omega), Bool.false_and]
      obtain ⟨out', hloop, hlen', hbits'⟩ := ih (i + 1) out₁ hlen₁ (by omega) hbits₂
      refine ⟨out', ?_, hlen', fun j hj => ?_⟩
      · rw [List.range'_succ, List.map_cons, fromNixBase32Loop, hstep]
        exact hloop
      · rw [hbits' j hj, Nat.add_right_comm i 1 k, Nat.add_assoc i k 1]

/-- `fromNixBase32Loop_digits` for the whole loop, as `from_nix_base32` starts it. -/
lemma fromNixBase32Loop_all {digit : ℕ → ℕ} (hdigit : ∀ n, digit n < 32) (outLen len : ℕ)
    (hlen : 5 * len < 8 * outLen + 5) (hcover : 8 * outLen ≤ 5 * len) :
    ∃ out, fromNixBase32Loop outLen ((List.range len).map fun n => digitChar (digit n)) 0
        (List.replicate outLen 0) = .ok out ∧ out.length = outLen ∧
      ∀ j < 8 * outLen, bit out j = (digit (j / 5)).testBit (j % 5) := by
  obtain ⟨out, hloop, hlen, hbits⟩ := fromNixBase32Loop_digits hdigit len 0
    (List.replicate outLen 0) List.length_replicate (by omega) (fun j _ => by
      rw [bit_replicate, decide_eq_false (by omega), Bool.false_and])
  refine ⟨out, by rw [List.range_eq_range', hloop], hlen, fun j hj => ?_⟩
  rw [hbits j hj, decide_eq_true (by omega), Bool.true_and]

/-! ## The encoder -/

/-- The digits of an encoding, last one first. -/
lemma toNixBase32_eq (input : List UInt8) :
    toNixBase32 input = String.ofList ((List.range ((input.length * 8 + 4) / 5)).map fun n =>
      digitChar (nixBase32Digit input n).toNat).reverse := by
  rw [toNixBase32, List.map_reverse]
  rfl

lemma mem_nixBase32Chars_of_mem {input : List UInt8} {c : Char}
    (h : c ∈ (toNixBase32 input).toList) : c ∈ nixBase32Chars := by
  rw [toNixBase32_eq, String.toList_ofList, List.mem_reverse, List.mem_map] at h
  obtain ⟨n, -, rfl⟩ := h
  rw [digitChar, List.getD_eq_getElem?_getD]
  cases hget : nixBase32Chars[(nixBase32Digit input n).toNat]? with
  | none => decide
  | some c => exact List.mem_of_getElem? hget

lemma length_utf8_digitChars (digit : ℕ → ℕ) (hdigit : ∀ n, digit n < 32) (len : ℕ) :
    (utf8 (String.ofList ((List.range len).map fun n => digitChar (digit n)).reverse)).length
      = len := by
  rw [length_utf8_ofList]
  · simp
  · intro c hc
    simp only [List.mem_reverse, List.mem_map] at hc
    obtain ⟨n, -, rfl⟩ := hc
    exact utf8Size_digitChar (hdigit n)

lemma length_utf8_toNixBase32 (input : List UInt8) :
    (utf8 (toNixBase32 input)).length = (input.length * 8 + 4) / 5 := by
  rw [toNixBase32_eq]
  exact length_utf8_digitChars _ (nixBase32Digit_lt input) _

/-! ## The two together -/

/-- **Decoding undoes encoding**, for byte strings of every length. -/
lemma fromNixBase32_toNixBase32 (input : List UInt8) :
    fromNixBase32 (toNixBase32 input) = .ok input := by
  have hlen := length_utf8_toNixBase32 input
  have hout : (input.length * 8 + 4) / 5 * 5 / 8 = input.length := by omega
  obtain ⟨out, hloop, hlen', hbits⟩ := fromNixBase32Loop_all (nixBase32Digit_lt input)
    input.length ((input.length * 8 + 4) / 5) (by omega) (by omega)
  have heq : out = input := by
    refine ext_bit hlen' fun j hj => ?_
    have hsum : 5 * (j / 5) + j % 5 = j := by omega
    rw [hbits j (by omega), testBit_nixBase32Digit input _ (Nat.mod_lt _ (by decide)), hsum]
  simp only [fromNixBase32, hlen, hout]
  split
  · have hnil : input = [] := List.length_eq_zero_iff.mp (by omega)
    rw [hnil]
  · rw [toNixBase32_eq, String.toList_ofList, List.reverse_reverse, hloop, heq]

lemma toNixBase32_injective : Function.Injective toNixBase32 := by
  intro a b h
  have hok := (fromNixBase32_toNixBase32 a).symm.trans
    ((congrArg fromNixBase32 h).trans (fromNixBase32_toNixBase32 b))
  exact Except.ok.inj hok

lemma NixHash.splitOnce_toString (h : NixHash) :
    Str.splitOnce ":" h.toString = some (h.algo.toString, toNixBase32 h.digest) := by
  have hcolon : ':' ∉ h.algo.toString.toList := by
    cases h.algo <;> decide
  rw [toString, String.append_assoc]
  exact Str.splitOnce_append rfl hcolon _

/-- The string of a hash identifies it. -/
lemma NixHash.toString_injective : Function.Injective NixHash.toString := by
  intro h h' heq
  have hsplit := h.splitOnce_toString
  rw [heq, h'.splitOnce_toString, Option.some.injEq, Prod.mk.injEq] at hsplit
  obtain ⟨halgo, hdigest⟩ := hsplit
  have halgo' := (HashAlgo.parse_toString h.algo).symm.trans
    ((congrArg HashAlgo.parse halgo.symm).trans (HashAlgo.parse_toString h'.algo))
  obtain ⟨algo, digest⟩ := h
  obtain ⟨algo', digest'⟩ := h'
  cases toNixBase32_injective hdigest
  cases Except.ok.inj halgo'
  rfl

/-- A hash of the right length is read back. -/
lemma NixHash.parse_toString {h : NixHash} (hlen : h.digest.length = h.algo.digestLen) :
    NixHash.parse h.toString = .ok h := by
  rw [parse, h.splitOnce_toString]
  simp only [HashAlgo.parse_toString, fromNixBase32_toNixBase32]
  exact if_pos hlen

/-- Every character the decoder's loop gets past is a digit. -/
lemma digit_of_fromNixBase32Loop_ok {outLen : ℕ} :
    ∀ {cs : List Char} {i : ℕ} {out b : List UInt8},
      fromNixBase32Loop outLen cs i out = .ok b → ∀ c ∈ cs, ∃ d < 32, c = digitChar d := by
  intro cs
  induction cs with
  | nil => exact fun _ c hc => absurd hc List.not_mem_nil
  | cons ch cs ih =>
      intro i out b h
      rw [fromNixBase32Loop] at h
      cases hstep : fromNixBase32Step outLen out ch i with
      | error e =>
          rw [hstep] at h
          cases h
      | ok out₁ =>
          rw [hstep] at h
          have hch : ∃ d < 32, ch = digitChar d := by
            cases hidx : nixBase32Chars.idxOf? ch with
            | none =>
                simp only [fromNixBase32Step, hidx] at hstep
                cases hstep
            | some d =>
                obtain ⟨hd, hget, -⟩ := List.findIdx?_eq_some_iff_getElem.mp hidx
                refine ⟨d, hd, ?_⟩
                rw [digitChar, List.getD_eq_getElem _ _ hd]
                exact (beq_iff_eq.mp hget).symm
          exact List.forall_mem_cons.mpr ⟨hch, ih h⟩

/-- Digits as a function of their position. -/
lemma exists_digits {cs : List Char} (h : ∀ c ∈ cs, ∃ d < 32, c = digitChar d) :
    ∃ digit : ℕ → ℕ, (∀ n, digit n < 32) ∧
      cs = (List.range cs.length).map fun n => digitChar (digit n) := by
  have hpos : ∀ n, ∃ d < 32, ∀ hn : n < cs.length, cs[n] = digitChar d := by
    intro n
    by_cases hn : n < cs.length
    · obtain ⟨d, hd, hc⟩ := h _ (List.getElem_mem hn)
      exact ⟨d, hd, fun _ => hc⟩
    · exact ⟨0, by decide, fun hn' => absurd hn' hn⟩
  choose digit hlt hget using hpos
  refine ⟨digit, hlt, List.ext_getElem (by simp) fun n hn _ => ?_⟩
  rw [hget n hn, List.getElem_map, List.getElem_range]

/-! ## Index by index -/

lemma indexAt_eq {α : Type} {a : List α} {i : ℕ} (hi : i < a.length) (v : α) :
    indexAt a i = .ok (a.getD i v) := by
  rw [indexAt, List.getElem?_eq_getElem hi, List.getD_eq_getElem _ _ hi]

/-- Every digit of an encoding lies in the input, and has a character. -/
lemma toNixBase32Step_eq {input : List UInt8} {n : ℕ} (hn : n < (input.length * 8 + 4) / 5) :
    toNixBase32Step input n = .ok (digitChar (nixBase32Digit input n).toNat) := by
  have hlow : n * 5 / 8 < input.length := by omega
  have hchar : (nixBase32Digit input n).toNat < nixBase32Chars.length := nixBase32Digit_lt input n
  rw [digitChar, ← indexAt_eq hchar]
  simp only [toNixBase32Step, nixBase32Digit, indexAt_eq hlow 0]
  by_cases hover : 3 < n * 5 % 8 ∧ n * 5 / 8 + 1 < input.length
  · have hhigh := indexAt_eq hover.2 0
    simp only [bind, Except.bind, pure, Except.pure, if_pos hover, hhigh]
  · simp only [bind, Except.bind, pure, Except.pure, if_neg hover]

/-- The encoder accesses nothing out of bounds. -/
lemma toNixBase32Indexed_eq (input : List UInt8) :
    toNixBase32Indexed input = .ok (toNixBase32 input) := by
  have hmap : ∀ ns : List ℕ, (∀ n ∈ ns, n < (input.length * 8 + 4) / 5) →
      ns.mapM (toNixBase32Step input) =
        .ok (ns.map fun n => digitChar (nixBase32Digit input n).toNat) := by
    intro ns
    induction ns with
    | nil => exact fun _ => rfl
    | cons n ns ih =>
        intro hns
        obtain ⟨hn, hrest⟩ := List.forall_mem_cons.mp hns
        rw [List.mapM_cons, toNixBase32Step_eq hn, ih hrest]
        rfl
  rw [toNixBase32Indexed]
  split
  next hnil =>
    subst hnil
    rfl
  next =>
    have hout := hmap (List.range ((input.length * 8 + 4) / 5)).reverse fun n hn =>
      List.mem_range.mp (List.mem_reverse.mp hn)
    simp only [hout]
    exact congrArg Except.ok (toNixBase32_eq input ▸ congrArg String.ofList List.map_reverse)

/-- The decoder's table says which digit a character is. -/
lemma decodeDigit_eq (ch : Char) : decodeDigit ch =
    match nixBase32Chars.idxOf? ch with
    | some d => .ok (UInt8.ofNat d)
    | none => fail (invalidBase32Char ch) := by
  by_cases hascii : ch.toNat < 128
  · have htable : ∀ n : Fin 128, indexAt nixBase32Decode n.1 =
        .ok ((nixBase32Chars.idxOf? (Char.ofNat n.1)).elim 255 UInt8.ofNat) := by decide +kernel
    have hdigit : ∀ d : Fin 32, UInt8.ofNat d.1 ≠ 255 := by decide
    have hlookup := htable ⟨ch.toNat, hascii⟩
    rw [Char.ofNat_toNat] at hlookup
    rw [decodeDigit, if_neg (Nat.not_le.mpr hascii), hlookup]
    cases hidx : nixBase32Chars.idxOf? ch with
    | none => rfl
    | some d =>
        obtain ⟨hd, -, -⟩ := List.findIdx?_eq_some_iff_getElem.mp hidx
        exact if_neg (hdigit ⟨d, hd⟩)
  · have hall : ∀ c ∈ nixBase32Chars, c.toNat < 128 := by decide
    have hnone : nixBase32Chars.idxOf? ch = none :=
      List.idxOf?_eq_none_iff.mpr fun hmem => hascii (hall ch hmem)
    rw [decodeDigit, if_pos (Nat.not_lt.mp hascii), hnone]

lemma fromNixBase32IndexedLoop_eq (outLen : ℕ) : ∀ (cs : List Char) (i : ℕ) (out : List UInt8),
    fromNixBase32IndexedLoop outLen cs i out = fromNixBase32Loop outLen cs i out := by
  intro cs
  induction cs with
  | nil => exact fun _ _ => rfl
  | cons ch cs ih =>
      intro i out
      rw [fromNixBase32IndexedLoop, fromNixBase32Loop, fromNixBase32Step, decodeDigit_eq]
      cases hidx : nixBase32Chars.idxOf? ch with
      | none => rfl
      | some d =>
          simp only [ih, Result.ok_bind, bind_assoc]
          refine bind_congr fun out' => ?_
          split
          · rfl
          · rfl

/-- Neither does the decoder, but for its output buffer, as it is in `from_nix_base32`. -/
lemma fromNixBase32Indexed_eq (s : String) : fromNixBase32Indexed s = fromNixBase32 s := by
  simp only [fromNixBase32Indexed, fromNixBase32, fromNixBase32IndexedLoop_eq]

/-- **Round trip.**  Every byte string is encoded and decoded again without an access out of bounds,
in as many characters of the alphabet as it takes digits; so every hash is read back from its
string. -/
theorem base32_roundTrip :
    (∀ b : List UInt8, ∃ s, toNixBase32Indexed b = .ok s ∧
      (utf8 s).length = (8 * b.length) ⌈/⌉ 5 ∧ (∀ c ∈ s.toList, c ∈ nixBase32Chars) ∧
        fromNixBase32Indexed s = .ok b) ∧
      ∀ h : NixHash, h.digest.length = h.algo.digestLen → NixHash.parse h.toString = .ok h := by
  refine ⟨fun b => ⟨toNixBase32 b, toNixBase32Indexed_eq b, ?_, ?_, ?_⟩,
    fun h hlen => NixHash.parse_toString hlen⟩
  · rw [length_utf8_toNixBase32, Nat.ceilDiv_eq_add_pred_div]
    omega
  · exact fun c hc => mem_nixBase32Chars_of_mem hc
  · rw [fromNixBase32Indexed_eq, fromNixBase32_toNixBase32]

/-- A hash whose bytes are all different. -/
theorem base32_roundTrip_counting :
    NixHash.parse (NixHash.toString ⟨.sha256, (List.range 32).map UInt8.ofNat⟩) =
      .ok ⟨.sha256, (List.range 32).map UInt8.ofNat⟩ :=
  base32_roundTrip.2 _ rfl

end Niphas
