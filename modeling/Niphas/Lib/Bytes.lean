import Mathlib.Data.List.Basic
import Mathlib.Data.Nat.Bitwise
import Mathlib.Tactic.Ring

/-!
# Byte strings: little-endian integers and UTF-8

The two codecs every length-prefixed wire format is built from.  Each is given as an encoder, a
decoder and the two laws that make them inverse to each other, so that a format above can be
reasoned about without looking at a single byte.

UTF-8 itself is Lean's.  What is added are the laws in the form that parsers need: a text can be cut
in front of a character, and behind a character of one byte, and nowhere does the byte of such a
character occur inside another one.  Where bytes are no text, `Bytes.utf8ErrorText` has the message
of Rust's `Utf8Error`, which names the first byte at which no character begins and the number of
bytes that were wrong.

At the end there are byte strings as strings of bits, for codecs whose digits do not end where bytes
do.

* `Bytes.toLe` / `Bytes.ofLe` — a natural number in `k` little-endian bytes.
* `Bytes.utf8` / `Bytes.fromUtf8` — a string as its UTF-8 bytes; the decoder is partial, and
  `Bytes.utf8ErrorText` says why.
* `Bytes.bit` — the bits of a byte string.
-/

namespace Bytes

/-! ## Little-endian integers -/

/-- `n` in `k` little-endian bytes; what does not fit is cut off. -/
def toLe : (k n : ℕ) → List UInt8
  | 0, _ => []
  | k + 1, n => UInt8.ofNat n :: toLe k (n / 256)

/-- The number a little-endian byte string denotes. -/
def ofLe : List UInt8 → ℕ
  | [] => 0
  | b :: bs => b.toNat + 256 * ofLe bs

@[simp] lemma length_toLe : ∀ k n : ℕ, (toLe k n).length = k
  | 0, _ => rfl
  | k + 1, n => by rw [toLe, List.length_cons, length_toLe k]

lemma ofLe_lt : ∀ bs : List UInt8, ofLe bs < 256 ^ bs.length
  | [] => by simp [ofLe]
  | b :: bs => by
      have ih := ofLe_lt bs
      have hb : b.toNat < 256 := b.toNat_lt
      rw [ofLe, List.length_cons, pow_succ]
      omega

/-- Decoding undoes encoding on the numbers that fit. -/
lemma ofLe_toLe : ∀ (k n : ℕ), n < 256 ^ k → ofLe (toLe k n) = n
  | 0, n, h => by
      have hn : n = 0 := by simpa using h
      simp [toLe, ofLe, hn]
  | k + 1, n, h => by
      have hdiv : n / 256 < 256 ^ k := by
        rw [pow_succ] at h
        exact Nat.div_lt_of_lt_mul (by rwa [mul_comm])
      rw [toLe, ofLe, ofLe_toLe k _ hdiv, UInt8.toNat_ofNat']
      omega

/-- Encoding undoes decoding: a byte string is the encoding of the number it denotes. -/
lemma toLe_ofLe : ∀ bs : List UInt8, toLe bs.length (ofLe bs) = bs
  | [] => rfl
  | b :: bs => by
      have hb : b.toNat < 256 := b.toNat_lt
      have hhead : UInt8.ofNat (b.toNat + 256 * ofLe bs) = b := by
        apply UInt8.toNat_inj.mp
        rw [UInt8.toNat_ofNat']
        omega
      have htail : (b.toNat + 256 * ofLe bs) / 256 = ofLe bs := by omega
      rw [List.length_cons, ofLe, toLe, hhead, htail, toLe_ofLe bs]

/-! ## UTF-8 -/

/-- The UTF-8 bytes of a string. -/
def utf8 (s : String) : List UInt8 := s.toByteArray.data.toList

/-- The string a byte string encodes, if it is valid UTF-8. -/
def fromUtf8 (bs : List UInt8) : Option String := String.fromUTF8? ⟨bs.toArray⟩

lemma utf8_injective : Function.Injective utf8 := fun _ _ h =>
  String.toByteArray_inj.mp (ByteArray.ext (Array.toList_inj.mp h))

@[simp] lemma utf8_inj {s t : String} : utf8 s = utf8 t ↔ s = t := utf8_injective.eq_iff

/-- **Decoding is exact**: the bytes decode to `s` just when they are the bytes of `s`. -/
lemma fromUtf8_eq_some {bs : List UInt8} {s : String} : fromUtf8 bs = some s ↔ utf8 s = bs := by
  unfold fromUtf8 String.fromUTF8?
  constructor
  · intro h
    split at h
    · cases h
      rfl
    · cases h
  · rintro rfl
    have hs : (⟨(utf8 s).toArray⟩ : ByteArray) = s.toByteArray := by simp [utf8]
    simp only [hs, s.isValidUTF8, dite_true]
    rfl

lemma utf8_append (s t : String) : utf8 (s ++ t) = utf8 s ++ utf8 t := by
  simp [utf8, String.toByteArray_append]

/-- Bytes that begin with those of a string are those of that string and another one. -/
lemma exists_of_utf8_prefix {a s : String} (h : utf8 a <+: utf8 s) : ∃ b, s = a ++ b := by
  obtain ⟨rest, hrest⟩ := h
  have hprefix : a.toList <+: s.toList := by
    refine List.isPrefix_of_utf8Encode_append_eq_utf8Encode ⟨rest.toArray⟩ ?_
    rw [String.utf8Encode_toList, String.utf8Encode_toList]
    refine ByteArray.ext (Array.toList_inj.mp ?_)
    simpa [utf8] using hrest
  obtain ⟨cs, hcs⟩ := hprefix
  refine ⟨String.ofList cs, String.toList_inj.mp ?_⟩
  rw [String.toList_append, String.toList_ofList, hcs]

/-- A byte that begins a character splits a text. -/
lemma exists_of_utf8_eq_append {s : String} {as bs : List UInt8} {b : UInt8}
    (hb : b.IsUTF8FirstByte) (h : utf8 s = as ++ b :: bs) :
    ∃ s₁ s₂, s = s₁ ++ s₂ ∧ utf8 s₁ = as ∧ utf8 s₂ = b :: bs := by
  have hsize : s.utf8ByteSize = (as ++ b :: bs).length := by
    rw [← h, utf8, Array.length_toList]
    rfl
  have hlt : (⟨as.length⟩ : String.Pos.Raw) < s.rawEndPos := by
    rw [String.Pos.Raw.lt_iff, String.byteIdx_rawEndPos, hsize, List.length_append]
    exact Nat.lt_add_of_pos_right (Nat.succ_pos _)
  have hbyte : s.getUTF8Byte ⟨as.length⟩ hlt = b := by
    have hget : (utf8 s)[as.length]? = some b := by
      rw [h, List.getElem?_append_right (Nat.le_refl _), Nat.sub_self]
      rfl
    rw [String.getUTF8Byte_eq_getElem]
    obtain ⟨hidx, heq⟩ := List.getElem?_eq_some_iff.mp hget
    rw [← heq]
    rfl
  have hvalid : (⟨as.length⟩ : String.Pos.Raw).IsValid s :=
    String.Pos.Raw.isValid_iff_isUTF8FirstByte.mpr (.inr ⟨hlt, hbyte ▸ hb⟩)
  obtain ⟨s₁, s₂, rfl, hpos⟩ := String.Pos.Raw.isValid_iff_exists_append.mp hvalid
  have hlen : as.length = (utf8 s₁).length := by
    have := congrArg String.Pos.Raw.byteIdx hpos
    rw [utf8, Array.length_toList]
    exact this
  rw [utf8_append] at h
  obtain ⟨h₁, h₂⟩ := List.append_inj h hlen.symm
  exact ⟨s₁, s₂, rfl, h₁, h₂⟩

/-- A character of one byte splits a text where that byte is. -/
lemma exists_of_utf8_eq_append_cons {s : String} {as bs : List UInt8} {c : Char} {b : UInt8}
    (hc : utf8 (String.singleton c) = [b]) (hb : b.IsUTF8FirstByte) (h : utf8 s = as ++ b :: bs) :
    ∃ s₁ s₂, s = s₁ ++ (String.singleton c ++ s₂) ∧ utf8 s₁ = as ∧ utf8 s₂ = bs := by
  obtain ⟨s₁, s₂, rfl, h₁, h₂⟩ := exists_of_utf8_eq_append hb h
  have hpre : utf8 (String.singleton c) <+: utf8 s₂ := by
    rw [hc, h₂]
    exact ⟨bs, rfl⟩
  obtain ⟨s₃, rfl⟩ := exists_of_utf8_prefix hpre
  rw [utf8_append, hc, List.singleton_append] at h₂
  exact ⟨s₁, s₃, rfl, h₁, (List.cons.inj h₂).2⟩

/-- No other character has that byte in it. -/
lemma eq_of_mem_utf8_singleton {c d : Char} {b : UInt8} (hc : utf8 (String.singleton c) = [b])
    (hb : b.IsUTF8FirstByte) (h : b ∈ utf8 (String.singleton d)) : d = c := by
  obtain ⟨as, bs, hsplit⟩ := List.append_of_mem h
  obtain ⟨s₁, s₂, hd, -, -⟩ := exists_of_utf8_eq_append_cons hc hb hsplit
  have hchars : [d] = s₁.toList ++ (c :: s₂.toList) := by
    have := congrArg String.toList hd
    simpa using this
  cases hs : s₁.toList with
  | nil =>
      rw [hs] at hchars
      exact (List.cons.inj hchars).1
  | cons e es =>
      rw [hs] at hchars
      exact absurd (congrArg List.length hchars) (by simp)

lemma mem_utf8_of_mem {c : Char} {b : UInt8} {s : String}
    (hc : utf8 (String.singleton c) = [b]) (h : c ∈ s.toList) : b ∈ utf8 s := by
  obtain ⟨as, bs, hsplit⟩ := List.append_of_mem h
  have hs : s = String.ofList as ++ (String.singleton c ++ String.ofList bs) := by
    apply String.toList_inj.mp
    simp [hsplit]
  rw [hs, utf8_append, utf8_append, hc]
  exact List.mem_append_right _ (List.mem_append_left _ (List.mem_singleton_self b))

lemma length_utf8_singleton (c : Char) : (utf8 (String.singleton c)).length = c.utf8Size := by
  have h : String.singleton c = String.ofList [c] := rfl
  rw [h, utf8, String.toByteArray_ofList, List.utf8Encode_singleton]
  simp

/-- A string of one-byte characters has as many bytes as characters. -/
lemma length_utf8_ofList {l : List Char} (h : ∀ c ∈ l, c.utf8Size = 1) :
    (utf8 (String.ofList l)).length = l.length := by
  induction l with
  | nil => rfl
  | cons c l ih =>
      rw [String.ofList_cons, utf8_append, List.length_append, length_utf8_singleton,
        h c List.mem_cons_self, ih fun d hd => h d (List.mem_cons_of_mem c hd), List.length_cons,
        Nat.add_comm]

/-- A character takes at least a byte. -/
lemma length_toList_le (s : String) : s.toList.length ≤ (utf8 s).length := by
  have hlist : ∀ cs : List Char, cs.length ≤ (utf8 (String.ofList cs)).length := by
    intro cs
    induction cs with
    | nil => exact Nat.zero_le _
    | cons c cs ih =>
        have hpos := c.utf8Size_pos
        rw [String.ofList_cons, utf8_append, List.length_append, length_utf8_singleton,
          List.length_cons]
        omega
  have hs := hlist s.toList
  rwa [String.ofList_toList] at hs

/-! ### What is not UTF-8 -/

/-- The ranges of the bytes behind the first one of a character, if this byte begins one. -/
def followers (b : UInt8) : Option (List (UInt8 × UInt8)) :=
  if b < 0x80 then some []
  else if b < 0xC2 then none
  else if b < 0xE0 then some [(0x80, 0xBF)]
  else if b = 0xE0 then some [(0xA0, 0xBF), (0x80, 0xBF)]
  else if b = 0xED then some [(0x80, 0x9F), (0x80, 0xBF)]
  else if b < 0xF0 then some [(0x80, 0xBF), (0x80, 0xBF)]
  else if b = 0xF0 then some [(0x90, 0xBF), (0x80, 0xBF), (0x80, 0xBF)]
  else if b < 0xF4 then some [(0x80, 0xBF), (0x80, 0xBF), (0x80, 0xBF)]
  else if b = 0xF4 then some [(0x80, 0x8F), (0x80, 0xBF), (0x80, 0xBF)]
  else none

/-- Where the first sequence begins that is no character, and how many bytes it has, or `none` where
it is cut off.  A character that began at `start` has had `seen` bytes, and is to go on with bytes
of the ranges. -/
def utf8Fault : (start seen : ℕ) → List (UInt8 × UInt8) → List UInt8 → ℕ × Option ℕ
  | start, _, _, [] => (start, none)
  | start, seen, [], b :: bs =>
      match followers b with
      | none => (start + seen, some 1)
      | some ranges => utf8Fault (start + seen) 1 ranges bs
  | start, seen, (lo, hi) :: ranges, b :: bs =>
      if lo ≤ b ∧ b ≤ hi then utf8Fault start (seen + 1) ranges bs else (start, some seen)

/-- The text of the error for bytes that are not UTF-8. -/
def utf8ErrorText (bs : List UInt8) : String :=
  match utf8Fault 0 0 [] bs with
  | (index, some length) =>
      "invalid utf-8 sequence of " ++ Nat.repr length ++ " bytes from index " ++ Nat.repr index
  | (index, none) => "incomplete utf-8 byte sequence from index " ++ Nat.repr index

example : utf8ErrorText [0, 159, 146, 150] = "invalid utf-8 sequence of 1 bytes from index 1" := by
  decide +kernel

example : utf8ErrorText [97, 226, 130] = "incomplete utf-8 byte sequence from index 1" := by
  decide +kernel

/-! ## Bits -/

/-- Bit `j` of a byte string: bit `j % 8` of byte `j / 8`, and `false` beyond its end. -/
def bit (bs : List UInt8) (j : ℕ) : Bool := (bs.getD (j / 8) 0).toNat.testBit (j % 8)

lemma testBit_of_eight_le (b : UInt8) {j : ℕ} (hj : 8 ≤ j) : b.toNat.testBit j = false :=
  Nat.testBit_lt_two_pow (b.toNat_lt.trans_le (Nat.pow_le_pow_right (by decide) hj))

lemma uint8_ext {a b : UInt8} (h : ∀ j < 8, a.toNat.testBit j = b.toNat.testBit j) : a = b := by
  apply UInt8.toNat_inj.mp
  apply Nat.eq_of_testBit_eq
  intro j
  by_cases hj : j < 8
  · exact h j hj
  · rw [testBit_of_eight_le a (by omega), testBit_of_eight_le b (by omega)]

/-- Byte strings of one length with the same bits are equal. -/
lemma ext_bit {as bs : List UInt8} (hlen : as.length = bs.length)
    (h : ∀ j < 8 * as.length, bit as j = bit bs j) : as = bs := by
  refine List.ext_getElem hlen fun i hi hi' => uint8_ext fun j hj => ?_
  have hbit := h (8 * i + j) (by omega)
  have hdiv : (8 * i + j) / 8 = i := by omega
  have hmod : (8 * i + j) % 8 = j := by omega
  simpa only [bit, hdiv, hmod, List.getD_eq_getElem as 0 hi, List.getD_eq_getElem bs 0 hi']
    using hbit

lemma bit_replicate (n j : ℕ) : bit (List.replicate n 0) j = false := by
  have hget : (List.replicate n (0 : UInt8)).getD (j / 8) 0 = 0 := by
    by_cases h : j / 8 < n <;> simp [h]
  rw [bit, hget]
  exact Nat.zero_testBit _

lemma bit_of_le {bs : List UInt8} {j : ℕ} (h : 8 * bs.length ≤ j) : bit bs j = false := by
  rw [bit, List.getD_eq_default _ _ (by omega)]
  simp

lemma testBit_shiftLeft (v : UInt8) {k j : ℕ} (hk : k < 8) (hj : j < 8) :
    (v <<< UInt8.ofNat k).toNat.testBit j = (decide (k ≤ j) && v.toNat.testBit (j - k)) := by
  rw [UInt8.toNat_shiftLeft, UInt8.toNat_ofNat', Nat.testBit_mod_two_pow, Nat.testBit_shiftLeft]
  have hk' : k % 2 ^ 8 % 8 = k := by omega
  rw [hk', decide_eq_true hj, Bool.true_and]

lemma testBit_shiftRight (v : UInt8) {k : ℕ} (hk : k < 8) (j : ℕ) :
    (v >>> UInt8.ofNat k).toNat.testBit j = v.toNat.testBit (k + j) := by
  rw [UInt8.toNat_shiftRight, UInt8.toNat_ofNat', Nat.testBit_shiftRight]
  have hk' : k % 2 ^ 8 % 8 = k := by omega
  rw [hk']

/-- The effect of `bs[i] |= v` on the bits. -/
lemma bit_set_or {bs : List UInt8} {i : ℕ} (hi : i < bs.length) (v : UInt8) (j : ℕ) :
    bit (bs.set i (bs.getD i 0 ||| v)) j
      = (bit bs j || (decide (j / 8 = i) && v.toNat.testBit (j % 8))) := by
  by_cases hj : j / 8 = i
  · subst hj
    simp [bit, hi]
  · simp [bit, Ne.symm hj, hj]

end Bytes
