import Niphas.Lib.Render

/-!
# Octal escapes

The escapes of text formats whose fields are separated by white space: four characters of a field
are written as a backslash and the octal digits of their byte.  The escape works on bytes; on the
characters of a text it is `Octal.escapeText`.

The four are the space, the tab, the line feed, and the backslash itself.  A writer that knows
nothing of encodings escapes byte by byte, and a reader that takes the result for a text sees
characters; the two views agree because the bytes that are escaped are characters by themselves.  A
reader need not undo the escapes.  What it can tell without doing so is then the question, and the
lengths answer it: an escaped text is never shorter, and longer if there was a backslash.

* `utf8_escapeText` — the two agree.
* `isText_of_isText_escape` — what is escaped to a text is one.
* `not_mem_escapeChars`, `escapeChars_eq_self` — what an escaped text no longer has, and the texts
  that are written as they are.
-/

namespace Octal

open Bytes Str

/-- The characters that are escaped, their bytes, and what is written for them. -/
def codes : List (Char × UInt8 × String) :=
  [(' ', 32, "\\040"), ('\t', 9, "\\011"), ('\n', 10, "\\012"), ('\\', 92, "\\134")]

/-- What is written for a byte. -/
def escapeByte (b : UInt8) : List UInt8 :=
  match codes.find? fun code => code.2.1 = b with
  | some code => utf8 code.2.2
  | none => [b]

/-- The escape of a byte string. -/
def escape (bs : List UInt8) : List UInt8 := bs.flatMap escapeByte

/-- What is written for a character. -/
def escapeChar (c : Char) : List Char :=
  match codes.find? fun code => code.1 = c with
  | some code => code.2.2.toList
  | none => [c]

/-- The escape of characters. -/
def escapeChars (cs : List Char) : List Char := cs.flatMap escapeChar

/-- The escape of a text. -/
def escapeText (s : String) : String := String.ofList (escapeChars s.toList)

/-! ## Bytes and characters -/

lemma utf8_code : ∀ code ∈ codes, utf8 (String.singleton code.1) = [code.2.1] := by decide

lemma isUTF8FirstByte_code : ∀ code ∈ codes, code.2.1.IsUTF8FirstByte := by decide

lemma escapeByte_code : ∀ code ∈ codes, escapeByte code.2.1 = utf8 code.2.2 := by decide

/-- What nothing is written for stays. -/
lemma flatMap_eq_self {α : Type} {f : α → List α} {l : List α} (h : ∀ a ∈ l, f a = [a]) :
    l.flatMap f = l := by
  rw [List.flatMap_congr h]
  exact List.flatMap_singleton' l

/-- A character and its bytes are escaped in the same way. -/
lemma utf8_escapeChar (c : Char) :
    utf8 (String.ofList (escapeChar c)) = escape (utf8 (String.singleton c)) := by
  rw [escapeChar]
  cases hfind : codes.find? fun code => code.1 = c with
  | some code =>
      have hmem := List.mem_of_find?_eq_some hfind
      have hc : code.1 = c := of_decide_eq_true (List.find?_some hfind :)
      subst hc
      rw [utf8_code code hmem, escape, List.flatMap_singleton, escapeByte_code code hmem]
      exact congrArg utf8 String.ofList_toList
  | none =>
      refine (flatMap_eq_self fun b hb => ?_).symm
      rw [escapeByte]
      cases hb' : codes.find? fun code => code.2.1 = b with
      | none => rfl
      | some code =>
          have hmem := List.mem_of_find?_eq_some hb'
          have heq : code.2.1 = b := of_decide_eq_true (List.find?_some hb' :)
          subst heq
          have hc := eq_of_mem_utf8_singleton (utf8_code code hmem)
            (isUTF8FirstByte_code code hmem) hb
          exact absurd (decide_eq_true hc.symm) (List.find?_eq_none.mp hfind code hmem)

/-- A text and its bytes are escaped in the same way. -/
lemma utf8_escapeText (s : String) : utf8 (escapeText s) = escape (utf8 s) := by
  have hchars : ∀ cs : List Char,
      utf8 (String.ofList (escapeChars cs)) = escape (utf8 (String.ofList cs)) := by
    intro cs
    induction cs with
    | nil => rfl
    | cons c cs ih =>
        have hc : String.ofList (c :: cs) = String.singleton c ++ String.ofList cs :=
          String.ofList_cons
        have hescape : escapeChars (c :: cs) = escapeChar c ++ escapeChars cs :=
          List.flatMap_cons
        rw [hescape, String.ofList_append, utf8_append, utf8_escapeChar, ih, hc, utf8_append]
        exact List.flatMap_append.symm
  have hs := hchars s.toList
  rwa [String.ofList_toList] at hs

/-- Some text has these bytes. -/
def IsText (bs : List UInt8) : Prop := ∃ s, utf8 s = bs

/-- What is written for an escaped byte is a backslash and digits. -/
lemma utf8_code_written : ∀ code ∈ codes,
    utf8 code.2.2 = 92 :: utf8 (String.ofList (code.2.2.toList.drop 1)) := by decide

/-- **What is escaped to a text is one.** -/
lemma isText_of_isText_escape {bs : List UInt8} (h : IsText (escape bs)) : IsText bs := by
  -- what has been undone already stands in front
  have hprefix : ∀ (bs as : List UInt8), IsText (as ++ escape bs) → IsText (as ++ bs) := by
    intro bs
    induction bs with
    | nil => exact fun as h => h
    | cons b bs ih =>
        rintro as ⟨s, hs⟩
        have hescape : escape (b :: bs) = escapeByte b ++ escape bs := List.flatMap_cons
        rw [hescape, escapeByte] at hs
        cases hfind : codes.find? fun code => code.2.1 = b with
        | none =>
            rw [hfind] at hs
            have hrest := ih (as ++ [b]) ⟨s, by rw [hs, List.append_assoc]⟩
            rwa [List.append_assoc] at hrest
        | some code =>
            rw [hfind] at hs
            have hmem := List.mem_of_find?_eq_some hfind
            have heq : code.2.1 = b := of_decide_eq_true (List.find?_some hfind :)
            subst heq
            simp only [utf8_code_written code hmem, List.cons_append] at hs
            obtain ⟨s₁, s₂, -, hs₁, hs₂⟩ :=
              exists_of_utf8_eq_append_cons (c := '\\') (by decide) (by decide) hs
            obtain ⟨s₃, rfl⟩ := exists_of_utf8_prefix (hs₂ ▸ List.prefix_append _ _)
            rw [utf8_append] at hs₂
            obtain ⟨t, ht⟩ := ih [] ⟨s₃, List.append_cancel_left hs₂⟩
            refine ⟨s₁ ++ (String.singleton code.1 ++ t), ?_⟩
            rw [utf8_append, utf8_append, hs₁, utf8_code code hmem, ht]
            rfl
  exact hprefix bs [] h

/-! ## Escaped texts -/

/-- What is written is a character that needs no escape, or part of one. -/
lemma mem_escapeChar {c d : Char} (h : d ∈ escapeChar c) :
    d = c ∧ c ∉ codes.map Prod.fst ∨ ∃ code ∈ codes, d ∈ code.2.2.toList := by
  rw [escapeChar] at h
  cases hfind : codes.find? fun code => code.1 = c with
  | some code =>
      rw [hfind] at h
      exact .inr ⟨code, List.mem_of_find?_eq_some hfind, h⟩
  | none =>
      rw [hfind] at h
      refine .inl ⟨List.mem_singleton.mp h, fun hmem => ?_⟩
      obtain ⟨code, hcode, hc⟩ := List.mem_map.mp hmem
      exact List.find?_eq_none.mp hfind code hcode (decide_eq_true hc)

lemma mem_escapeChars {cs : List Char} {d : Char} (h : d ∈ escapeChars cs) :
    d ∈ cs ∧ d ∉ codes.map Prod.fst ∨ ∃ code ∈ codes, d ∈ code.2.2.toList := by
  obtain ⟨c, hc, hd⟩ := List.mem_flatMap.mp h
  rcases mem_escapeChar hd with ⟨rfl, hnot⟩ | hcode
  · exact .inl ⟨hc, hnot⟩
  · exact .inr hcode

/-- Nothing escaped is left but the backslash of an escape. -/
lemma not_mem_escapeChars {cs : List Char} {d : Char} (hd : d ∈ codes.map Prod.fst)
    (hslash : d ≠ '\\') : d ∉ escapeChars cs := by
  intro h
  rcases mem_escapeChars h with ⟨-, hnot⟩ | ⟨code, hcode, hmem⟩
  · exact hnot hd
  · have hwritten : ∀ code ∈ codes, ∀ d ∈ code.2.2.toList, d ∈ codes.map Prod.fst → d = '\\' := by
      decide
    exact hslash (hwritten code hcode d hmem hd)

/-- An escape brings no white space. -/
lemma isWhitespace_escapeChars {cs : List Char} (h : ∀ c ∈ cs, isWhitespace c = false) :
    ∀ d ∈ escapeChars cs, isWhitespace d = false := by
  intro d hd
  rcases mem_escapeChars hd with ⟨hmem, -⟩ | ⟨code, hcode, hmem⟩
  · exact h d hmem
  · have hwritten : ∀ code ∈ codes, ∀ d ∈ code.2.2.toList, isWhitespace d = false := by decide
    exact hwritten code hcode d hmem

/-- A text without white space and backslashes is written as it is. -/
lemma escapeChars_eq_self {cs : List Char} (hspace : ∀ c ∈ cs, isWhitespace c = false)
    (hslash : '\\' ∉ cs) : escapeChars cs = cs := by
  refine flatMap_eq_self fun c hc => ?_
  have hnot : c ∉ codes.map Prod.fst := by
    intro hmem
    have hcode : ∀ c ∈ codes.map Prod.fst, isWhitespace c = true ∨ c = '\\' := by decide
    rcases hcode c hmem with hwhite | rfl
    · rw [hspace c hc] at hwhite
      cases hwhite
    · exact hslash hc
  rw [escapeChar, List.find?_eq_none.mpr]
  intro code hcode hc
  exact hnot (List.mem_map.mpr ⟨code, hcode, of_decide_eq_true hc⟩)

/-- No text gets shorter. -/
lemma length_le_escapeChars (cs : List Char) : cs.length ≤ (escapeChars cs).length := by
  have hchar : ∀ c : Char, 0 < (escapeChar c).length := by
    intro c
    rw [escapeChar]
    cases hfind : codes.find? fun code => code.1 = c with
    | none => exact Nat.one_pos
    | some code =>
        have hwritten : ∀ code ∈ codes, 0 < code.2.2.toList.length := by decide
        exact hwritten code (List.mem_of_find?_eq_some hfind)
  induction cs with
  | nil => exact Nat.zero_le _
  | cons c cs ih =>
      have hc := hchar c
      have hescape : escapeChars (c :: cs) = escapeChar c ++ escapeChars cs := List.flatMap_cons
      rw [hescape, List.length_append, List.length_cons]
      omega

/-- One with a backslash gets longer. -/
lemma length_lt_escapeChars {cs : List Char} (hslash : '\\' ∈ cs) :
    cs.length < (escapeChars cs).length := by
  obtain ⟨as, bs, rfl⟩ := List.append_of_mem hslash
  have has := length_le_escapeChars as
  have hbs := length_le_escapeChars bs
  have hescape : escapeChars (as ++ '\\' :: bs)
      = escapeChars as ++ (escapeChar '\\' ++ escapeChars bs) := by
    simp only [escapeChars, List.flatMap_append, List.flatMap_cons]
  have hfour : (escapeChar '\\').length = 4 := by decide
  rw [hescape]
  simp only [List.length_append, List.length_cons, hfour]
  omega

end Octal
