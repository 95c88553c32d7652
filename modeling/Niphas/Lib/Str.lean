import Niphas.Lib.Bytes

/-!
# Operations on strings

The part of Rust's `str` that text formats are parsed with, on Lean strings.  Positions are byte
positions in the UTF-8 encoding, as in Rust; what panics there when a position falls inside a
character is an `Option` here.

Each operation has the name it has in Rust and is defined as the documentation of the standard
library has it.  Where a function works on characters, it is defined on lists of characters first,
and the lemmas are about these; the function on strings packs and unpacks.  White space is the
Unicode property.  The order of strings is that of their bytes.

* `sliceTo`, `sliceFrom`, `IsCharBoundary` — slices, and when they panic.
* `splitOnce`, `split`, `splitWhitespace`, `lines` — pieces, with the lemmas that put them together
  again.
* `parseU64`, `parseI32` — numbers.
-/

/-- What holds of all characters of a list is decided on the list, never on all characters there
are. -/
instance (priority := high) List.decidableForallMem {α : Type} (P : α → Prop) [DecidablePred P]
    (l : List α) : Decidable (∀ a ∈ l, P a) := List.decidableBAll P l

namespace Str

open Bytes

/-! ## Slices and prefixes -/

/-- `&s[..n]`, or nothing if `n` is inside a character. -/
def sliceTo (s : String) (n : ℕ) : Option String := fromUtf8 ((utf8 s).take n)

/-- `&s[n..]`, or nothing if `n` is inside a character. -/
def sliceFrom (s : String) (n : ℕ) : Option String := fromUtf8 ((utf8 s).drop n)

/-- `str::strip_prefix`. -/
def stripPrefix (pre s : String) : Option String :=
  if pre.toList <+: s.toList then some (String.ofList (s.toList.drop pre.toList.length)) else none

lemma sliceTo_append (s t : String) : sliceTo (s ++ t) (utf8 s).length = some s := by
  rw [sliceTo, fromUtf8_eq_some, utf8_append, List.take_left]

lemma sliceFrom_append (s t : String) : sliceFrom (s ++ t) (utf8 s).length = some t := by
  rw [sliceFrom, fromUtf8_eq_some, utf8_append, List.drop_left]

/-- `str::is_char_boundary`: the first `n` bytes are whole characters. -/
def IsCharBoundary (s : String) (n : ℕ) : Prop := ∃ a b, s = a ++ b ∧ (utf8 a).length = n

lemma sliceTo_eq_some {s a : String} {n : ℕ} (hn : n ≤ (utf8 s).length) :
    sliceTo s n = some a ↔ ∃ b, s = a ++ b ∧ (utf8 a).length = n := by
  constructor
  · intro h
    have htake := fromUtf8_eq_some.mp h
    obtain ⟨b, rfl⟩ := exists_of_utf8_prefix (htake ▸ List.take_prefix n (utf8 s))
    refine ⟨b, rfl, ?_⟩
    rw [htake, List.length_take, Nat.min_eq_left hn]
  · rintro ⟨b, rfl, rfl⟩
    exact sliceTo_append a b

/-- A slice panics inside a character. -/
lemma sliceTo_eq_none {s : String} {n : ℕ} (hn : n ≤ (utf8 s).length) :
    sliceTo s n = none ↔ ¬ IsCharBoundary s n := by
  rw [Option.eq_none_iff_forall_ne_some]
  constructor
  · rintro hnone ⟨a, b, hs, hlen⟩
    exact hnone a ((sliceTo_eq_some hn).mpr ⟨b, hs, hlen⟩)
  · intro hnot a ha
    obtain ⟨b, hs, hlen⟩ := (sliceTo_eq_some hn).mp ha
    exact hnot ⟨a, b, hs, hlen⟩

lemma stripPrefix_append (s t : String) : stripPrefix s (s ++ t) = some t := by
  rw [stripPrefix, String.toList_append, if_pos (List.prefix_append _ _), List.drop_left,
    String.ofList_toList]

lemma stripPrefix_eq_some {pre s t : String} : stripPrefix pre s = some t ↔ s = pre ++ t := by
  constructor
  · intro h
    rw [stripPrefix] at h
    split at h
    next hpre =>
      cases h
      obtain ⟨cs, hcs⟩ := hpre
      apply String.toList_inj.mp
      rw [String.toList_append, String.toList_ofList, ← hcs, List.drop_left]
    · cases h
  · rintro rfl
    exact stripPrefix_append pre t

/-- `str::strip_suffix` of a character. -/
def stripSuffix (c : Char) (s : String) : Option String :=
  if s.toList.getLast? = some c then some (String.ofList s.toList.dropLast) else none

lemma stripSuffix_of_getLast? {c : Char} {s : String} (h : s.toList.getLast? = some c) :
    stripSuffix c s = some (String.ofList s.toList.dropLast) := if_pos h

lemma stripSuffix_eq_none {c : Char} {s : String} (h : s.toList.getLast? ≠ some c) :
    stripSuffix c s = none := if_neg h

/-! ## White space -/

/-- `char::is_whitespace`: the property `White_Space` of Unicode. -/
def isWhitespace (c : Char) : Bool :=
  let n := c.toNat
  (9 ≤ n ∧ n ≤ 13) ∨ n = 0x20 ∨ n = 0x85 ∨ n = 0xa0 ∨ n = 0x1680 ∨ (0x2000 ≤ n ∧ n ≤ 0x200a) ∨
    n = 0x2028 ∨ n = 0x2029 ∨ n = 0x202f ∨ n = 0x205f ∨ n = 0x3000

/-- `str::trim` on characters. -/
def trimChars (cs : List Char) : List Char :=
  ((cs.dropWhile isWhitespace).reverse.dropWhile isWhitespace).reverse

/-- `str::trim`. -/
def trim (s : String) : String := String.ofList (trimChars s.toList)

/-! ## Splitting -/

/-- `split_once` on characters: what stands before and after the first `sep`. -/
def splitOnceChars (sep : List Char) : List Char → Option (List Char × List Char)
  | [] => if sep = [] then some ([], []) else none
  | c :: cs =>
      if sep <+: c :: cs then some ([], (c :: cs).drop sep.length)
      else (splitOnceChars sep cs).map fun r => (c :: r.1, r.2)

/-- `str::split_once`. -/
def splitOnce (sep s : String) : Option (String × String) :=
  (splitOnceChars sep.toList s.toList).map fun r => (String.ofList r.1, String.ofList r.2)

lemma splitOnceChars_append {c : Char} {as : List Char} (h : c ∉ as) (sep bs : List Char) :
    splitOnceChars (c :: sep) (as ++ (c :: sep ++ bs)) = some (as, bs) := by
  induction as with
  | nil =>
      rw [List.nil_append, List.cons_append, splitOnceChars, ← List.cons_append,
        if_pos (List.prefix_append _ _), List.drop_left]
  | cons a as ih =>
      obtain ⟨hne, has⟩ := List.ne_and_not_mem_of_not_mem_cons h
      have hno : ¬ c :: sep <+: a :: (as ++ (c :: sep ++ bs)) := fun hpre =>
        hne (List.cons_prefix_cons.mp hpre).1
      rw [List.cons_append, splitOnceChars, if_neg hno, ih has]
      rfl

lemma splitOnce_append {c : Char} {cs : List Char} {sep s : String} (hsep : sep.toList = c :: cs)
    (hs : c ∉ s.toList) (t : String) : splitOnce sep (s ++ (sep ++ t)) = some (s, t) := by
  rw [splitOnce, String.toList_append, String.toList_append, hsep, splitOnceChars_append hs,
    Option.map_some, String.ofList_toList, String.ofList_toList]

/-- The first occurrence of a character splits. -/
lemma splitOnceChars_singleton_eq_some {c : Char} {cs as bs : List Char} :
    splitOnceChars [c] cs = some (as, bs) ↔ cs = as ++ c :: bs ∧ c ∉ as := by
  constructor
  · intro h
    induction cs generalizing as with
    | nil => cases h
    | cons d cs ih =>
        rw [splitOnceChars] at h
        split at h
        · next hpre =>
          cases h
          obtain ⟨rfl, -⟩ := List.cons_prefix_cons.mp hpre
          exact ⟨rfl, List.not_mem_nil⟩
        · next hno =>
          have hne : c ≠ d := by
            rintro rfl
            exact hno ⟨cs, rfl⟩
          obtain ⟨⟨as', bs'⟩, hr, heq⟩ := Option.map_eq_some_iff.mp h
          cases heq
          obtain ⟨rfl, hmem⟩ := ih hr
          exact ⟨rfl, List.not_mem_cons_of_ne_of_not_mem hne hmem⟩
  · rintro ⟨rfl, h⟩
    exact splitOnceChars_append h [] bs

lemma splitOnce_eq_some {c : Char} {sep s a b : String} (hsep : sep.toList = [c]) :
    splitOnce sep s = some (a, b) ↔ s = a ++ (sep ++ b) ∧ c ∉ a.toList := by
  constructor
  · intro h
    obtain ⟨⟨as, bs⟩, hsplit, heq⟩ := Option.map_eq_some_iff.mp h
    cases heq
    rw [hsep] at hsplit
    obtain ⟨hs, hc⟩ := splitOnceChars_singleton_eq_some.mp hsplit
    refine ⟨String.toList_inj.mp ?_, by rwa [String.toList_ofList]⟩
    rw [String.toList_append, String.toList_append, hsep, String.toList_ofList,
      String.toList_ofList, hs]
    rfl
  · rintro ⟨rfl, hc⟩
    exact splitOnce_append hsep hc b

/-- Two texts around a character that is not in the first of them: the other is cut at the same
place, or at a later one. -/
lemma append_cons_eq_append_cons {c : Char} {as : List Char} (h : c ∉ as) {bs ds es : List Char} :
    as ++ c :: bs = ds ++ c :: es ↔
      ds = as ∧ es = bs ∨ ∃ fs, ds = as ++ c :: fs ∧ bs = fs ++ c :: es := by
  induction as generalizing ds with
  | nil =>
      cases ds with
      | nil => simp [eq_comm]
      | cons d ds => simp [eq_comm, and_comm]
  | cons a as ih =>
      obtain ⟨hne, has⟩ := List.ne_and_not_mem_of_not_mem_cons h
      cases ds with
      | nil => simp [Ne.symm hne]
      | cons d ds =>
          simp only [List.cons_append, List.cons.injEq, ih has]
          constructor
          · rintro ⟨rfl, ⟨rfl, rfl⟩ | ⟨fs, rfl, rfl⟩⟩
            · exact Or.inl ⟨⟨rfl, rfl⟩, rfl⟩
            · exact Or.inr ⟨fs, ⟨rfl, rfl⟩, rfl⟩
          · rintro (⟨⟨rfl, rfl⟩, rfl⟩ | ⟨fs, ⟨rfl, rfl⟩, rfl⟩)
            · exact ⟨rfl, Or.inl ⟨rfl, rfl⟩⟩
            · exact ⟨rfl, Or.inr ⟨fs, rfl, rfl⟩⟩

/-- `str::split` at a character: always at least one piece. -/
def splitChars (sep : Char → Bool) : List Char → List (List Char)
  | [] => [[]]
  | c :: cs =>
      if sep c then [] :: splitChars sep cs
      else
        match splitChars sep cs with
        | [] => [[c]]
        | piece :: rest => (c :: piece) :: rest

lemma splitChars_ne_nil (sep : Char → Bool) (cs : List Char) : splitChars sep cs ≠ [] := by
  cases cs with
  | nil => exact List.cons_ne_nil _ _
  | cons c cs =>
      rw [splitChars]
      split
      · exact List.cons_ne_nil _ _
      · split <;> exact List.cons_ne_nil _ _

/-- A separator splits what stands before it from what stands behind it. -/
lemma splitChars_append {sep : Char → Bool} {c : Char} (hc : sep c = true) (as bs : List Char) :
    splitChars sep (as ++ c :: bs) = splitChars sep as ++ splitChars sep bs := by
  induction as with
  | nil => simp only [List.nil_append, splitChars, if_pos hc, List.singleton_append]
  | cons a as ih =>
      rw [List.cons_append, splitChars, splitChars, ih]
      by_cases ha : sep a = true
      · rw [if_pos ha, if_pos ha, List.cons_append]
      · rw [if_neg ha, if_neg ha]
        cases h : splitChars sep as with
        | nil => exact absurd h (splitChars_ne_nil sep as)
        | cons piece rest => rfl

/-- Without a separator there is one piece. -/
lemma splitChars_of_forall {sep : Char → Bool} {cs : List Char} (h : ∀ c ∈ cs, sep c = false) :
    splitChars sep cs = [cs] := by
  induction cs with
  | nil => rfl
  | cons c cs ih =>
      have hc : ¬ sep c = true := by
        rw [h c List.mem_cons_self]
        exact Bool.false_ne_true
      rw [splitChars, if_neg hc, ih fun d hd => h d (List.mem_cons_of_mem c hd)]

/-- No piece has a separator. -/
lemma sep_of_mem_splitChars {sep : Char → Bool} {cs piece : List Char}
    (h : piece ∈ splitChars sep cs) : ∀ c ∈ piece, sep c = false := by
  induction cs generalizing piece with
  | nil =>
      cases List.mem_singleton.mp h
      exact fun c hc => absurd hc List.not_mem_nil
  | cons d cs ih =>
      rw [splitChars] at h
      split at h
      · rcases List.mem_cons.mp h with rfl | h
        · exact fun c hc => absurd hc List.not_mem_nil
        · exact ih h
      · next hd =>
        split at h
        · next hnil => exact absurd hnil (splitChars_ne_nil sep cs)
        · next first rest hsplit =>
          rcases List.mem_cons.mp h with rfl | h
          · intro c hc
            rcases List.mem_cons.mp hc with rfl | hc
            · exact Bool.eq_false_of_not_eq_true hd
            · exact ih (hsplit ▸ List.mem_cons_self) c hc
          · exact ih (hsplit ▸ List.mem_cons_of_mem first h)

/-- The pieces with the separator between them are the string. -/
lemma splitChars_eq_cons (sep : Char) (cs : List Char) :
    ∃ piece rest, splitChars (· = sep) cs = piece :: rest ∧
      cs = piece ++ rest.flatMap (sep :: ·) := by
  induction cs with
  | nil => exact ⟨[], [], rfl, rfl⟩
  | cons c cs ih =>
      obtain ⟨piece, rest, hsplit, hcs⟩ := ih
      rw [splitChars]
      by_cases hc : c = sep
      · subst hc
        refine ⟨[], piece :: rest, ?_, ?_⟩
        · rw [if_pos (decide_eq_true rfl), hsplit]
        · rw [hcs, List.nil_append, List.flatMap_cons, ← hcs]
          exact congrArg (c :: ·) hcs
      · refine ⟨c :: piece, rest, ?_, congrArg (c :: ·) hcs⟩
        rw [if_neg (by simpa using hc), hsplit]

/-- `str::split` at a character. -/
def split (sep : Char) (s : String) : List String :=
  (splitChars (· = sep) s.toList).map String.ofList

/-- `str::split_whitespace`: the non-empty pieces between white space. -/
def splitWhitespace (s : String) : List String :=
  ((splitChars isWhitespace s.toList).filter (· ≠ [])).map String.ofList

/-- A line without the carriage return that ended it. -/
def stripCr (cs : List Char) : List Char :=
  if cs.getLast? = some '\r' then cs.dropLast else cs

/-- `str::lines`: the pieces between line feeds, each without a carriage return before its line
feed; an empty last piece is no line. -/
def lines (s : String) : List String :=
  let pieces := splitChars (· = '\n') s.toList
  let last := pieces.getLast?.getD []
  (pieces.dropLast.map stripCr ++ if last = [] then [] else [last]).map String.ofList

/-! ## Numbers -/

/-- The digits of `u64::from_str`, from the most significant one; `n` is the value so far. -/
def parseDigits : List Char → ℕ → Except String ℕ
  | [], n => .ok n
  | c :: cs, n =>
      if c.isDigit then
        let n := n * 10 + (c.toNat - '0'.toNat)
        if n < 2 ^ 64 then parseDigits cs n
        else .error "number too large to fit in target type"
      else .error "invalid digit found in string"

/-- `u64::from_str`: decimal digits, with an optional `+` in front. -/
def parseU64 (s : String) : Except String ℕ :=
  match s.toList with
  | [] => .error "cannot parse integer from empty string"
  | ['+'] => .error "invalid digit found in string"
  | '+' :: cs => parseDigits cs 0
  | cs => parseDigits cs 0

/-- The value of a string of decimal digits, whatever its size. -/
def digitsValue : List Char → ℕ → Option ℕ
  | [], n => some n
  | c :: cs, n =>
      if c.isDigit then digitsValue cs (n * 10 + (c.toNat - '0'.toNat)) else none

/-- `i32::from_str`, without its error: decimal digits, with an optional sign in front. -/
def parseI32 (s : String) : Option Int :=
  let bounded (neg : Bool) (cs : List Char) : Option Int :=
    if cs = [] then none
    else
      match digitsValue cs 0 with
      | none => none
      | some n =>
          if neg then if n ≤ 2 ^ 31 then some (-(n : Int)) else none
          else if n < 2 ^ 31 then some n else none
  match s.toList with
  | '-' :: cs => bounded true cs
  | '+' :: cs => bounded false cs
  | cs => bounded false cs

/-! ## Order -/

/-- The order of Rust strings: their UTF-8 bytes, lexicographically. -/
def le (a b : String) : Bool := utf8 a ≤ utf8 b

/-- `sort` on strings. -/
def sort (l : List String) : List String := l.mergeSort le

lemma pairwise_sort (l : List String) : (sort l).Pairwise fun a b => le a b = true := by
  refine List.pairwise_mergeSort (fun a b c hab hbc => ?_) (fun a b => ?_) l
  · exact decide_eq_true (List.le_trans (of_decide_eq_true hab) (of_decide_eq_true hbc))
  · rw [Bool.or_eq_true]
    exact (List.le_total (utf8 a) (utf8 b)).imp decide_eq_true decide_eq_true

/-- Sorting forgets the order, and nothing else. -/
lemma sort_eq_sort_iff {l l' : List String} : sort l = sort l' ↔ l.Perm l' := by
  have hperm : ∀ l, (sort l).Perm l := fun l => List.mergeSort_perm l le
  constructor
  · intro h
    exact (hperm l).symm.trans (h ▸ hperm l')
  · intro h
    refine List.Perm.eq_of_pairwise (fun a b _ _ hab hba => ?_) (pairwise_sort l)
      (pairwise_sort l') ((hperm l).trans (h.trans (hperm l').symm))
    exact utf8_injective (List.le_antisymm (of_decide_eq_true hab) (of_decide_eq_true hba))

end Str
