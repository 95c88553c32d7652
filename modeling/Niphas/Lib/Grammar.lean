import Mathlib.Computability.Language
import Niphas.Lib.Str

/-!
# Grammars of character classes

Regular languages over characters as they are written in documentation: classes such as
`[a-zA-Z0-9_]`, repeated, one behind the other, and with separators between them.

The languages are Mathlib's, with its concatenation and its star, so a grammar reads as it does on
paper, and its general laws need no proof here.  What is missing there is the way from a language to
conditions on a text that code can be compared with.  A repeated class is a text all of whose
characters are in the class; a list with separators is a text whose pieces are elements, provided
that the separator is in no element.

* `mem_class_mul`, `mem_star_class`, `mem_pow_class` — which texts are in them.
* `mem_sepBy` — a list with separators is a text whose pieces between the separators are elements.
-/

namespace Grammar

open Computability

/-! ## Classes -/

/-- The characters of a class: those in the ranges, and the others. -/
def InClass (ranges : List (Char × Char)) (others : List Char) (c : Char) : Prop :=
  (∃ r ∈ ranges, r.1 ≤ c ∧ c ≤ r.2) ∨ c ∈ others

/-- One character of a class. -/
def one (p : Char → Prop) : Language Char := {w | ∃ c, p c ∧ w = [c]}

variable {p : Char → Prop} {l m : Language Char} {w : List Char}

lemma mem_one_mul : w ∈ one p * m ↔ ∃ c v, w = c :: v ∧ p c ∧ v ∈ m := by
  rw [Language.mem_mul]
  constructor
  · rintro ⟨_, ⟨c, hc, rfl⟩, v, hv, rfl⟩
    exact ⟨c, v, rfl, hc, hv⟩
  · rintro ⟨c, v, rfl, hc, hv⟩
    exact ⟨[c], ⟨c, hc, rfl⟩, v, hv, rfl⟩

/-- Any number of characters of a class. -/
lemma mem_star_one : w ∈ (one p)∗ ↔ ∀ c ∈ w, p c := by
  rw [Language.mem_kstar]
  constructor
  · rintro ⟨parts, rfl, hparts⟩ c hc
    obtain ⟨part, hpart, hc⟩ := List.mem_flatten.mp hc
    obtain ⟨d, hd, rfl⟩ := hparts part hpart
    exact List.mem_singleton.mp hc ▸ hd
  · intro h
    refine ⟨w.map fun c => [c], ?_, fun part hpart => ?_⟩
    · rw [← List.flatMap_def, List.flatMap_singleton']
    · obtain ⟨c, hc, rfl⟩ := List.mem_map.mp hpart
      exact ⟨c, h c hc, rfl⟩

/-- So many characters of a class. -/
lemma mem_pow_one {n : ℕ} : w ∈ one p ^ n ↔ w.length = n ∧ ∀ c ∈ w, p c := by
  induction n generalizing w with
  | zero =>
      rw [pow_zero, Language.mem_one, List.length_eq_zero_iff]
      refine ⟨fun h => ⟨h, ?_⟩, fun h => h.1⟩
      rw [h]
      exact List.forall_mem_nil _
  | succ n ih =>
      rw [pow_succ', mem_one_mul]
      constructor
      · rintro ⟨c, v, rfl, hc, hv⟩
        obtain ⟨hlen, hall⟩ := ih.mp hv
        exact ⟨congrArg (· + 1) hlen, List.forall_mem_cons.mpr ⟨hc, hall⟩⟩
      · rintro ⟨hlen, hall⟩
        obtain ⟨c, v, rfl⟩ := List.exists_cons_of_length_eq_add_one hlen
        obtain ⟨hc, hall⟩ := List.forall_mem_cons.mp hall
        exact ⟨c, v, rfl, hc, ih.mpr ⟨Nat.succ.inj hlen, hall⟩⟩

/-! ## Separators -/

/-- One separator. -/
lemma mem_literal_mul {c : Char} : w ∈ ({[c]} : Language Char) * m ↔ ∃ v, w = c :: v ∧ v ∈ m := by
  rw [Language.mem_mul]
  constructor
  · rintro ⟨_, rfl, v, hv, rfl⟩
    exact ⟨v, rfl, hv⟩
  · rintro ⟨v, rfl, hv⟩
    exact ⟨[c], rfl, v, hv, rfl⟩

/-- Elements with a separator between them, at least one. -/
def sepBy (sep : Char) (l : Language Char) : Language Char := l * ({[sep]} * l)∗

/-- The pieces of a list whose elements are free of separators are its elements. -/
lemma mem_sepBy {sep : Char} (hl : ∀ v ∈ l, sep ∉ v) :
    w ∈ sepBy sep l ↔ ∀ piece ∈ Str.splitChars (· = sep) w, piece ∈ l := by
  have hone : ∀ v ∈ l, Str.splitChars (· = sep) v = [v] := fun v hv =>
    Str.splitChars_of_forall fun c hc => decide_eq_false (ne_of_mem_of_not_mem hc (hl v hv))
  rw [sepBy, Language.mem_mul]
  constructor
  · rintro ⟨v, hv, _, hrest, rfl⟩
    obtain ⟨parts, rfl, hparts⟩ := Language.mem_kstar.mp hrest
    clear hrest
    -- along the elements behind the first one
    induction parts generalizing v with
    | nil =>
        rw [List.flatten_nil, List.append_nil, hone v hv]
        exact List.forall_mem_singleton.mpr hv
    | cons part parts ih =>
        obtain ⟨hpart, hparts'⟩ := List.forall_mem_cons.mp hparts
        obtain ⟨u, rfl, hu⟩ := mem_literal_mul.mp hpart
        rw [List.flatten_cons, List.cons_append, Str.splitChars_append (decide_eq_true rfl),
          hone v hv,
          List.singleton_append]
        exact List.forall_mem_cons.mpr ⟨hv, ih u hu hparts'⟩
  · intro h
    obtain ⟨first, rest, hsplit, rfl⟩ := Str.splitChars_eq_cons sep w
    rw [hsplit] at h
    obtain ⟨hfirst, hrest⟩ := List.forall_mem_cons.mp h
    refine ⟨first, hfirst, _, Language.mem_kstar.mpr
      ⟨rest.map (sep :: ·), List.flatMap_def, ?_⟩, rfl⟩
    intro part hpart
    obtain ⟨piece, hpiece, rfl⟩ := List.mem_map.mp hpart
    exact mem_literal_mul.mpr ⟨piece, rfl, hrest piece hpiece⟩

end Grammar
