import Mathlib.Data.List.Basic
import Mathlib.Data.List.Count

/-!
# Glob patterns

Patterns with one wildcard symbol, which matches any sequence of the symbols it may match; every
other symbol matches itself.

What the wildcard may match is a parameter, and the one general result is about two values of it.  A
wildcard that may not match a certain symbol `s` is what paths are matched with, with `s` for the
separator; a wildcard that matches everything is what a naive matcher has.  The first kind of match
is one of the second kind.  The converse can be decided by counting: outside of wildcards, word and
pattern have `s` in the same places, so a wildcard has matched an `s` exactly when the word has more
of them.

* `Matches` — a word can be cut into pieces that match the symbols of the pattern in order.
* `matches_ne_iff` — where the wildcard may match everything but the symbol `s`, a match is one with
  a wildcard that matches everything in which the wildcards have no `s` to match: word and pattern
  contain the same number of them.
-/

namespace Glob

variable {α : Type}

/-- `w` can be cut into pieces that match the symbols of the pattern in order: `star` matches a
sequence of symbols that meet `P`, every other symbol matches itself. -/
inductive Matches (star : α) (P : α → Prop) : List α → List α → Prop
  | nil : Matches star P [] []
  | symbol {a : α} {p w : List α} : a ≠ star → Matches star P p w →
      Matches star P (a :: p) (a :: w)
  | wildcard {v p w : List α} : (∀ a ∈ v, P a) → Matches star P p w →
      Matches star P (star :: p) (v ++ w)

variable {star : α} {P Q : α → Prop} {p w : List α}

lemma matches_nil_iff : Matches star P [] w ↔ w = [] := by
  constructor
  · intro h
    cases h
    rfl
  · rintro rfl
    exact .nil

lemma matches_symbol_iff {a : α} (ha : a ≠ star) :
    Matches star P (a :: p) w ↔ ∃ w', w = a :: w' ∧ Matches star P p w' := by
  constructor
  · intro h
    cases h with
    | symbol _ h => exact ⟨_, rfl, h⟩
    | wildcard _ _ => exact absurd rfl ha
  · rintro ⟨w', rfl, h⟩
    exact .symbol ha h

/-- A wildcard matches up to some position. -/
lemma matches_wildcard_iff :
    Matches star P (star :: p) w ↔
      ∃ i ≤ w.length, (∀ a ∈ w.take i, P a) ∧ Matches star P p (w.drop i) := by
  constructor
  · intro h
    cases h with
    | symbol ha _ => exact absurd rfl ha
    | @wildcard v _ w hv h =>
        refine ⟨v.length, by simp, ?_, ?_⟩
        · rwa [List.take_left]
        · rwa [List.drop_left]
  · rintro ⟨i, -, hv, h⟩
    rw [← List.take_append_drop i w]
    exact .wildcard hv h

/-- A last wildcard matches all the rest. -/
lemma matches_last_wildcard (h : ∀ a ∈ w, P a) : Matches star P [star] w := by
  have hw : Matches star P [star] (w ++ []) := .wildcard h .nil
  rwa [List.append_nil] at hw

lemma Matches.mono (h : Matches star P p w) (hPQ : ∀ a, P a → Q a) : Matches star Q p w := by
  induction h with
  | nil => exact .nil
  | symbol ha _ ih => exact .symbol ha ih
  | wildcard hv _ ih => exact .wildcard (fun a ha => hPQ a (hv a ha)) ih

variable [DecidableEq α]

/-- Every symbol of the pattern is in the word. -/
lemma Matches.count_le (h : Matches star P p w) {s : α} (hs : s ≠ star) :
    p.count s ≤ w.count s := by
  induction h with
  | nil => exact Nat.le_refl _
  | symbol _ _ ih =>
      rw [List.count_cons, List.count_cons]
      exact Nat.add_le_add_right ih _
  | wildcard _ _ ih =>
      rw [List.count_cons_of_ne hs.symm, List.count_append]
      exact Nat.le_trans ih (Nat.le_add_left _ _)

/-- **Wildcards that match all but one symbol.** -/
theorem matches_ne_iff {s : α} (hs : s ≠ star) :
    Matches star (· ≠ s) p w ↔
      Matches star (fun _ => True) p w ∧ w.count s = p.count s := by
  constructor
  · intro h
    refine ⟨h.mono fun _ _ => trivial, ?_⟩
    induction h with
    | nil => rfl
    | symbol _ _ ih => rw [List.count_cons, List.count_cons, ih]
    | wildcard hv _ ih =>
        have hzero := List.count_eq_zero_of_not_mem fun hmem => hv s hmem rfl
        rw [List.count_cons_of_ne hs.symm, List.count_append, ih, hzero, Nat.zero_add]
  · rintro ⟨h, hcount⟩
    induction h with
    | nil => exact .nil
    | symbol ha _ ih =>
        rw [List.count_cons, List.count_cons] at hcount
        exact .symbol ha (ih (Nat.add_right_cancel hcount))
    | @wildcard v p w _ h ih =>
        -- the rest has enough of `s`, so there is none left for the wildcard
        have hle := h.count_le hs
        rw [List.count_cons_of_ne hs.symm, List.count_append] at hcount
        have hzero : v.count s = 0 := by omega
        refine .wildcard (fun a ha hsa => ?_) (ih (by omega))
        subst hsa
        exact absurd ha (List.count_eq_zero.mp hzero)

end Glob
