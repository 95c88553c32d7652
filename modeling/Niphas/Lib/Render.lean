import Niphas.Lib.Str
import Mathlib.Data.List.TakeWhile

/-!
# Texts that are read back

What the readers of `Str` make of a text that was put together for them: lines with a line feed
behind each, words with blanks between them, a number in decimal digits, a text without white space
around it.

A round trip through a text format breaks down into these.  Each comes with the condition under
which it holds, and the conditions are about the parts only: a line has no line feed in it and no
carriage return at its end, a word is not empty and has no white space, a number fits.  White space
is that of Unicode, as for the readers, so a text without blanks may still have some.

For numbers there is also the other direction, what else is read as one: leading zeros and a plus
sign, as the standard library allows them.

* `lines_unlines` — lines are read back if none has a line feed in it or a carriage return behind.
* `splitWhitespace_intercalate` — words are read back if none is empty or has white space in it.
* `parseU64_repr` — a number is read back if it fits into 64 bits, and `parseU64_eq_ok` says what
  else is read as one.
-/

namespace Str

/-! ## White space around a text -/

/-- No white space at either end. -/
def Trimmed (cs : List Char) : Prop :=
  (∀ c, cs.head? = some c → isWhitespace c = false) ∧
    ∀ c, cs.getLast? = some c → isWhitespace c = false

lemma dropWhile_eq_self {cs : List Char} (h : ∀ c, cs.head? = some c → isWhitespace c = false) :
    cs.dropWhile isWhitespace = cs := by
  cases cs with
  | nil => rfl
  | cons c cs => exact List.dropWhile_cons_of_neg (by rw [h c rfl]; exact Bool.false_ne_true)

lemma trimChars_eq_self {cs : List Char} (h : Trimmed cs) : trimChars cs = cs := by
  have hlast : ∀ c, cs.reverse.head? = some c → isWhitespace c = false := by
    intro c hc
    rw [List.head?_reverse] at hc
    exact h.2 c hc
  rw [trimChars, dropWhile_eq_self h.1, dropWhile_eq_self hlast, List.reverse_reverse]

lemma trim_eq_self {s : String} (h : Trimmed s.toList) : trim s = s := by
  rw [trim, trimChars_eq_self h, String.ofList_toList]

lemma head?_dropWhile {cs : List Char} {c : Char} (h : (cs.dropWhile isWhitespace).head? = some c) :
    isWhitespace c = false := by
  have hnot := List.head?_dropWhile_not isWhitespace cs
  rw [h] at hnot
  exact hnot

/-- Trimming leaves out what it drops, and no more. -/
lemma trimChars_sublist (cs : List Char) : (trimChars cs).Sublist cs := by
  have hsub : ∀ ds : List Char, (ds.dropWhile isWhitespace).Sublist ds := fun ds =>
    (List.dropWhile_suffix isWhitespace).sublist
  have hback := List.reverse_sublist.mpr (hsub (cs.dropWhile isWhitespace).reverse)
  rw [List.reverse_reverse] at hback
  exact hback.trans (hsub cs)

/-- What is trimmed has no white space around it. -/
lemma trimmed_trimChars (cs : List Char) : Trimmed (trimChars cs) := by
  constructor
  · intro c hc
    have hpre : trimChars cs <+: cs.dropWhile isWhitespace := by
      rw [trimChars, ← List.reverse_suffix, List.reverse_reverse]
      exact List.dropWhile_suffix _
    obtain ⟨rest, hrest⟩ := hpre
    refine @head?_dropWhile cs c ?_
    rw [← hrest, List.head?_append, hc]
    rfl
  · intro c hc
    rw [trimChars, List.getLast?_reverse] at hc
    exact head?_dropWhile hc

/-- White space behind a text without any is dropped. -/
lemma trimChars_append {cs space : List Char} (hcs : ∀ c ∈ cs, isWhitespace c = false)
    (hspace : ∀ c ∈ space, isWhitespace c = true) : trimChars (cs ++ space) = cs := by
  have hback : space.reverse.dropWhile isWhitespace = [] :=
    List.dropWhile_eq_nil_iff.mpr fun c hc => hspace c (List.mem_reverse.mp hc)
  have hlast : ∀ c, cs.reverse.head? = some c → isWhitespace c = false := fun c hc =>
    hcs c (List.mem_reverse.mp (List.mem_of_mem_head? hc))
  cases cs with
  | nil =>
      have hfront : space.dropWhile isWhitespace = [] := List.dropWhile_eq_nil_iff.mpr hspace
      rw [List.nil_append, trimChars, hfront]
      rfl
  | cons c cs =>
      have hhead : ∀ d, ((c :: cs) ++ space).head? = some d → isWhitespace d = false := by
        rintro d ⟨⟩
        exact hcs c List.mem_cons_self
      rw [trimChars, dropWhile_eq_self hhead, List.reverse_append, List.dropWhile_append, hback,
        List.isEmpty_nil, if_pos rfl, dropWhile_eq_self hlast, List.reverse_reverse]

/-- What trimming drops is white space. -/
lemma exists_trimChars (cs : List Char) :
    ∃ pre post, cs = pre ++ trimChars cs ++ post ∧ (∀ c ∈ pre, isWhitespace c = true) ∧
      ∀ c ∈ post, isWhitespace c = true := by
  have hall : ∀ ds : List Char, ∀ c ∈ ds.takeWhile isWhitespace, isWhitespace c = true :=
    fun ds c hc => List.mem_takeWhile_imp hc
  let back := (cs.dropWhile isWhitespace).reverse
  refine ⟨cs.takeWhile isWhitespace, (back.takeWhile isWhitespace).reverse, ?_, hall cs,
    fun c hc => hall back c (List.mem_reverse.mp hc)⟩
  have hback : trimChars cs ++ (back.takeWhile isWhitespace).reverse
      = cs.dropWhile isWhitespace := by
    rw [trimChars, ← List.reverse_append, List.takeWhile_append_dropWhile, List.reverse_reverse]
  rw [List.append_assoc, hback, List.takeWhile_append_dropWhile]

lemma trim_trim (s : String) : trim (trim s) = trim s := by
  refine trim_eq_self ?_
  rw [trim, String.toList_ofList]
  exact trimmed_trimChars s.toList

/-- What is in front decides how a text begins, what is behind decides how it ends. -/
lemma Trimmed.append {as bs : List Char} (has : as ≠ []) (hbs : bs ≠ [])
    (hhead : ∀ c, as.head? = some c → isWhitespace c = false)
    (hlast : ∀ c, bs.getLast? = some c → isWhitespace c = false) : Trimmed (as ++ bs) := by
  constructor
  · intro c hc
    rw [List.head?_append_of_ne_nil _ has] at hc
    exact hhead c hc
  · intro c hc
    rw [List.getLast?_append_of_ne_nil _ hbs] at hc
    exact hlast c hc

/-! ## Lines -/

/-- The lines, with a line feed behind each. -/
def unlines : List String → String
  | [] => ""
  | l :: ls => l ++ "\n" ++ unlines ls

/-- A text that can be a line. -/
def IsLine (s : String) : Prop := '\n' ∉ s.toList ∧ s.toList.getLast? ≠ some '\r'

lemma splitChars_unlines {ls : List String} (h : ∀ l ∈ ls, '\n' ∉ l.toList) :
    splitChars (· = '\n') (unlines ls).toList = ls.map String.toList ++ [[]] := by
  induction ls with
  | nil => rfl
  | cons l ls ih =>
      obtain ⟨hl, hls⟩ := List.forall_mem_cons.mp h
      have hchars : (unlines (l :: ls)).toList = l.toList ++ '\n' :: (unlines ls).toList := by
        simp [unlines]
      have hone : splitChars (· = '\n') l.toList = [l.toList] :=
        splitChars_of_forall fun c hc => decide_eq_false (ne_of_mem_of_not_mem hc hl)
      rw [hchars, splitChars_append (decide_eq_true rfl), hone, ih hls]
      rfl

/-- Lines are read back, but for a carriage return behind them. -/
lemma lines_unlines_eq {ls : List String} (h : ∀ l ∈ ls, '\n' ∉ l.toList) :
    lines (unlines ls) = ls.map fun l => String.ofList (stripCr l.toList) := by
  rw [lines, splitChars_unlines h]
  simp only [List.getLast?_concat, Option.getD_some, List.dropLast_concat, if_true,
    List.append_nil, List.map_map]
  rfl

/-- **Lines are read back.** -/
lemma lines_unlines {ls : List String} (h : ∀ l ∈ ls, IsLine l) : lines (unlines ls) = ls := by
  have hstrip : ∀ l ∈ ls, String.ofList (stripCr l.toList) = l := by
    intro l hl
    rw [stripCr, if_neg (h l hl).2, String.ofList_toList]
  rw [lines_unlines_eq fun l hl => (h l hl).1, List.map_congr_left hstrip, List.map_id']

/-! ## Words -/

/-- A text that can be a word. -/
def IsWord (s : String) : Prop := s ≠ "" ∧ ∀ c ∈ s.toList, isWhitespace c = false

/-- A word is its only word. -/
lemma splitWhitespace_of_isWord {s : String} (h : IsWord s) : splitWhitespace s = [s] := by
  have hne : s.toList ≠ [] := fun hnil => h.1 (String.toList_eq_nil_iff.mp hnil)
  have hfilter : [s.toList].filter (· ≠ []) = [s.toList] :=
    List.filter_eq_self.mpr fun cs hcs => decide_eq_true (List.mem_singleton.mp hcs ▸ hne)
  rw [splitWhitespace, splitChars_of_forall h.2, hfilter, List.map_singleton, String.ofList_toList]

/-- The words of two texts with white space between them. -/
lemma splitWhitespace_append {c : Char} (hc : isWhitespace c = true) (s t : String) :
    splitWhitespace (s ++ (String.singleton c ++ t)) = splitWhitespace s ++ splitWhitespace t := by
  have hchars : (s ++ (String.singleton c ++ t)).toList = s.toList ++ c :: t.toList := by
    simp
  rw [splitWhitespace, hchars, splitChars_append hc, List.filter_append, List.map_append]
  rfl

/-- A word has no white space in it. -/
lemma isWord_of_mem_splitWhitespace {s w : String} (h : w ∈ splitWhitespace s) : IsWord w := by
  obtain ⟨piece, hpiece, rfl⟩ := List.mem_map.mp h
  obtain ⟨hmem, hne⟩ := List.mem_filter.mp hpiece
  refine ⟨fun hempty => ?_, ?_⟩
  · have hnil := congrArg String.toList hempty
    rw [String.toList_ofList] at hnil
    exact of_decide_eq_true hne hnil
  · rw [String.toList_ofList]
    exact sep_of_mem_splitChars hmem

/-- A carriage return behind a line is no part of a word. -/
lemma splitWhitespace_stripCr (s : String) :
    splitWhitespace (String.ofList (stripCr s.toList)) = splitWhitespace s := by
  rw [stripCr]
  split
  · next hlast =>
    have hs : s = String.ofList s.toList.dropLast ++ (String.singleton '\r' ++ "") := by
      apply String.toList_inj.mp
      simp [List.dropLast_append_getLast? _ hlast]
    have hsplit := splitWhitespace_append (c := '\r') (by decide)
      (String.ofList s.toList.dropLast) ""
    rw [← hs] at hsplit
    rw [hsplit]
    exact (List.append_nil _).symm
  · rw [String.ofList_toList]

/-- Pieces without a separator are what a text put together from them is split into. -/
lemma splitChars_intercalate {sep : Char → Bool} {c : Char} (hc : sep c = true) {s : String}
    (hs : s.toList = [c]) {ws : List String} (hws : ∀ w ∈ ws, ∀ d ∈ w.toList, sep d = false)
    (hne : ws ≠ []) :
    splitChars sep (String.intercalate s ws).toList = ws.map String.toList := by
  induction ws with
  | nil => exact absurd rfl hne
  | cons w ws ih =>
      obtain ⟨hw, hrest⟩ := List.forall_mem_cons.mp hws
      have hone : splitChars sep w.toList = [w.toList] := splitChars_of_forall hw
      by_cases hnil : ws = []
      · subst hnil
        rw [String.intercalate_singleton, hone]
        rfl
      · have hchars : (String.intercalate s (w :: ws)).toList
            = w.toList ++ c :: (String.intercalate s ws).toList := by
          simp [String.intercalate_cons_of_ne_nil hnil, hs]
        rw [hchars, splitChars_append hc, hone, ih hrest hnil]
        rfl

/-- **Words are read back.** -/
lemma splitWhitespace_intercalate {ws : List String} (h : ∀ w ∈ ws, IsWord w) :
    splitWhitespace (String.intercalate " " ws) = ws := by
  by_cases hnil : ws = []
  · subst hnil
    rfl
  · have hpieces : splitChars isWhitespace (String.intercalate " " ws).toList
        = ws.map String.toList := splitChars_intercalate (c := ' ') (by decide) rfl
          (fun w hw => (h w hw).2) hnil
    have hne : ∀ w ∈ ws.map String.toList, w ≠ [] := by
      intro cs hcs
      obtain ⟨w, hw, rfl⟩ := List.mem_map.mp hcs
      exact fun hempty => (h w hw).1 (String.toList_eq_nil_iff.mp hempty)
    have hback : (ws.map String.toList).map String.ofList = ws := by
      simp [Function.comp_def]
    rw [splitWhitespace, hpieces, List.filter_eq_self.mpr, hback]
    exact fun cs hcs => decide_eq_true (hne cs hcs)

/-! ## Numbers -/

lemma parseDigits_of_isDigit {cs : List Char} (hcs : ∀ c ∈ cs, c.isDigit = true) (n : ℕ)
    (hlt : Nat.ofDigitChars 10 cs n < 2 ^ 64) :
    parseDigits cs n = .ok (Nat.ofDigitChars 10 cs n) := by
  induction cs generalizing n with
  | nil => rw [parseDigits, Nat.ofDigitChars_nil]
  | cons c cs ih =>
      obtain ⟨hc, hcs⟩ := List.forall_mem_cons.mp hcs
      rw [Nat.ofDigitChars_cons] at hlt ⊢
      have hcomm : n * 10 + (c.toNat - '0'.toNat) = 10 * n + (c.toNat - '0'.toNat) := by
        rw [Nat.mul_comm]
      have hle : 10 * n + (c.toNat - '0'.toNat)
          ≤ Nat.ofDigitChars 10 cs (10 * n + (c.toNat - '0'.toNat)) := by
        rw [Nat.ofDigitChars_eq_ofDigitChars_zero]
        have hpos : 0 < 10 ^ cs.length := Nat.pow_pos (by decide)
        exact (Nat.le_mul_of_pos_left _ hpos).trans (Nat.le_add_right _ _)
      rw [parseDigits, if_pos hc]
      simp only [hcomm]
      rw [if_pos (lt_of_le_of_lt hle hlt), ih hcs _ hlt]

lemma isWhitespace_of_isDigit {c : Char} (h : c.isDigit = true) : isWhitespace c = false := by
  obtain ⟨hlow, hhigh⟩ := Char.isDigit_iff_toNat.mp h
  have hzero : '0'.toNat = 48 := rfl
  have hnine : '9'.toNat = 57 := rfl
  simp only [isWhitespace, decide_eq_false_iff_not]
  omega

lemma isWord_repr (n : ℕ) : IsWord (Nat.repr n) := by
  have hchars : (Nat.repr n).toList = Nat.toDigits 10 n := Nat.toList_repr
  refine ⟨fun hempty => ?_, fun c hc => ?_⟩
  · rw [hempty] at hchars
    exact Nat.toDigits_ne_nil hchars.symm
  · rw [hchars] at hc
    exact isWhitespace_of_isDigit (Nat.isDigit_of_mem_toDigits (by decide) (by decide) hc)

/-- Decimal digits with the value `n`, and perhaps a `+` in front of them. -/
def IsDecimal (cs : List Char) (n : ℕ) : Prop :=
  ∃ ds, (cs = ds ∨ cs = '+' :: ds) ∧ ds ≠ [] ∧ (∀ c ∈ ds, c.isDigit = true) ∧
    Nat.ofDigitChars 10 ds 0 = n

/-- Digits are read, as long as their value fits. -/
lemma parseDigits_eq_ok {cs : List Char} {n m : ℕ} (hn : n < 2 ^ 64) :
    parseDigits cs n = .ok m ↔
      (∀ c ∈ cs, c.isDigit = true) ∧ Nat.ofDigitChars 10 cs n = m ∧ m < 2 ^ 64 := by
  constructor
  · intro h
    induction cs generalizing n with
    | nil =>
        rw [parseDigits] at h
        cases h
        exact ⟨fun c hc => absurd hc List.not_mem_nil, Nat.ofDigitChars_nil, hn⟩
    | cons c cs ih =>
        rw [parseDigits] at h
        split at h
        · next hc =>
          simp only at h
          split at h
          · next hlt =>
            obtain ⟨hdigits, hvalue, hm⟩ := ih hlt h
            refine ⟨List.forall_mem_cons.mpr ⟨hc, hdigits⟩, ?_, hm⟩
            rw [Nat.ofDigitChars_cons, Nat.mul_comm]
            exact hvalue
          · cases h
        · cases h
  · rintro ⟨hdigits, rfl, hlt⟩
    exact parseDigits_of_isDigit hdigits n hlt

lemma not_isDigit_plus : ¬ '+'.isDigit = true := by decide

/-- **What is read as a number.** -/
lemma parseU64_eq_ok {s : String} {n : ℕ} :
    parseU64 s = .ok n ↔ IsDecimal s.toList n ∧ n < 2 ^ 64 := by
  have hzero : 0 < 2 ^ 64 := by decide
  rw [parseU64]
  split
  · next hs =>
    refine iff_of_false nofun ?_
    rintro ⟨⟨ds, hds | hds, hne, -⟩, -⟩
    · exact hne (hds.symm.trans hs)
    · exact List.cons_ne_nil _ _ (hds.symm.trans hs)
  · next hs =>
    refine iff_of_false nofun ?_
    rintro ⟨⟨ds, hds | hds, hne, hdigits, -⟩, -⟩
    · exact not_isDigit_plus (hdigits '+' (hds ▸ hs ▸ List.mem_singleton_self _))
    · exact hne (List.cons.inj (hs.symm.trans hds)).2.symm
  · next cs hne hs =>
    rw [parseDigits_eq_ok hzero]
    constructor
    · rintro ⟨hdigits, hvalue, hlt⟩
      exact ⟨⟨cs, .inr hs, hne, hdigits, hvalue⟩, hlt⟩
    · rintro ⟨⟨ds, hds | hds, -, hdigits, hvalue⟩, hlt⟩
      · exact absurd (hdigits '+' (hds ▸ hs ▸ List.mem_cons_self)) not_isDigit_plus
      · obtain ⟨-, rfl⟩ := List.cons.inj (hs.symm.trans hds)
        exact ⟨hdigits, hvalue, hlt⟩
  · next hnil _ hplus =>
    rw [parseDigits_eq_ok hzero]
    constructor
    · rintro ⟨hdigits, hvalue, hlt⟩
      exact ⟨⟨_, .inl rfl, hnil, hdigits, hvalue⟩, hlt⟩
    · rintro ⟨⟨ds, hds | hds, -, hdigits, hvalue⟩, hlt⟩
      · exact ⟨hds ▸ hdigits, hds ▸ hvalue, hlt⟩
      · exact absurd hds (hplus ds)

/-- A text has one value. -/
lemma IsDecimal.unique {cs : List Char} {n m : ℕ} (h : IsDecimal cs n) (h' : IsDecimal cs m) :
    n = m := by
  obtain ⟨ds, hds, -, hdigits, rfl⟩ := h
  obtain ⟨es, hes, -, hall, rfl⟩ := h'
  rcases hds with rfl | rfl <;> rcases hes with heq | heq
  · rw [heq]
  · exact absurd (hdigits '+' (heq ▸ List.mem_cons_self)) not_isDigit_plus
  · exact absurd (hall '+' (heq ▸ List.mem_cons_self)) not_isDigit_plus
  · rw [(List.cons.inj heq).2]

/-- A number has no white space in it. -/
lemma IsDecimal.isWhitespace {cs : List Char} {n : ℕ} (h : IsDecimal cs n) :
    ∀ c ∈ cs, Str.isWhitespace c = false := by
  obtain ⟨ds, hcs, -, hdigits, -⟩ := h
  have hds : ∀ c ∈ ds, Str.isWhitespace c = false := fun c hc =>
    isWhitespace_of_isDigit (hdigits c hc)
  rcases hcs with rfl | rfl
  · exact hds
  · exact List.forall_mem_cons.mpr ⟨rfl, hds⟩

/-- It ends in a digit. -/
lemma IsDecimal.exists_getLast? {cs : List Char} {n : ℕ} (h : IsDecimal cs n) :
    ∃ c, cs.getLast? = some c ∧ c.isDigit = true := by
  obtain ⟨ds, hcs, hne, hdigits, -⟩ := h
  refine ⟨ds.getLast hne, ?_, hdigits _ (List.getLast_mem hne)⟩
  rcases hcs with rfl | rfl
  · exact List.getLast?_eq_some_getLast hne
  · rw [List.getLast?_cons_of_ne_nil hne]
    exact List.getLast?_eq_some_getLast hne

lemma repr_injective : Function.Injective Nat.repr := by
  intro m n h
  have hdigits : Nat.toDigits 10 m = Nat.toDigits 10 n := by
    rw [← Nat.toList_repr, ← Nat.toList_repr, h]
  rw [← @Nat.ofDigitChars_ten_toDigits m, hdigits, Nat.ofDigitChars_ten_toDigits]

/-- **A number is read back** if it fits into 64 bits. -/
lemma parseU64_repr {n : ℕ} (h : n < 2 ^ 64) : parseU64 (Nat.repr n) = .ok n := by
  have hdigits : ∀ c ∈ Nat.toDigits 10 n, c.isDigit = true := fun c hc =>
    Nat.isDigit_of_mem_toDigits (by decide) (by decide) hc
  have hparse : parseDigits (Nat.toDigits 10 n) 0 = .ok n := by
    have hlt : Nat.ofDigitChars 10 (Nat.toDigits 10 n) 0 < 2 ^ 64 := by
      rwa [Nat.ofDigitChars_ten_toDigits]
    rw [parseDigits_of_isDigit hdigits 0 hlt, Nat.ofDigitChars_ten_toDigits]
  rw [parseU64, Nat.toList_repr]
  cases hcs : Nat.toDigits 10 n with
  | nil => exact absurd hcs Nat.toDigits_ne_nil
  | cons c cs =>
      have hplus : c ≠ '+' := by
        rintro rfl
        exact absurd (hdigits '+' (hcs ▸ List.mem_cons_self)) (by decide)
      split
      · next h => cases h
      · next h => exact absurd (List.cons.inj h).1 hplus
      · next h => exact absurd (List.cons.inj h).1 hplus
      · rw [← hcs]
        exact hparse

end Str
