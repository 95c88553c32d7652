import Mathlib.Data.Nat.Notation
import Mathlib.Logic.Basic

/-!
# Who holds a mutex

A mutex knows its holder; what a process holds is in its program.  `Tracks` is that the two agree,
which every step of a process keeps that takes the mutex when it is free, gives back what it has, or
does neither.

There may be any number of mutexes, and they need not be known in advance: the lemmas are about one
of them, and say nothing about what it protects.  Mutual exclusion is immediate from `Tracks`,
because a mutex has one holder.  What has to be proved of a program is only which of the three kinds
each of its steps is, for each mutex.

* `Tracks.unique` — mutual exclusion.
* `Tracks.step` — what a step of one process keeps.
-/

/-- The holder of a mutex is the process that has it. -/
def Tracks (holder : Option ℕ) (has : ℕ → Prop) : Prop := ∀ p, holder = some p ↔ has p

/-- What a step of process `p` does to a mutex: nothing, or it takes or gives it. -/
inductive MutexStep (p : ℕ) (holder holder' : Option ℕ) (hasNow hasThen : Prop) : Prop
  | keep : holder' = holder → (hasThen ↔ hasNow) → MutexStep p holder holder' hasNow hasThen
  | take : holder = none → holder' = some p → hasThen → MutexStep p holder holder' hasNow hasThen
  | give : hasNow → holder' = none → ¬ hasThen → MutexStep p holder holder' hasNow hasThen

namespace Tracks

variable {holder holder' : Option ℕ} {has has' : ℕ → Prop} {p q : ℕ}

lemma free : Tracks none fun _ => False := fun _ => iff_of_false (fun h => by cases h) id

/-- **Mutual exclusion.** -/
lemma unique (h : Tracks holder has) (hp : has p) (hq : has q) : p = q :=
  Option.some.inj (((h p).mpr hp).symm.trans ((h q).mpr hq))

/-- A step of one process. -/
lemma step (h : Tracks holder has) (hothers : ∀ q, q ≠ p → (has' q ↔ has q))
    (hp : MutexStep p holder holder' (has p) (has' p)) : Tracks holder' has' := by
  intro q
  by_cases hqp : q = p
  · subst hqp
    cases hp with
    | keep hholder hiff => rw [hholder, h q, hiff]
    | take _ hholder hthen => exact iff_of_true hholder hthen
    | give _ hholder hthen =>
        rw [hholder]
        exact iff_of_false (fun h => by cases h) hthen
  · rw [hothers q hqp, ← h q]
    cases hp with
    | keep hholder _ => rw [hholder]
    | take hfree hholder _ =>
        rw [hholder, hfree]
        exact iff_of_false (fun heq => hqp (Option.some.inj heq).symm) fun heq => by cases heq
    | give hnow hholder _ =>
        rw [hholder, (h p).mpr hnow]
        exact iff_of_false (fun heq => by cases heq) fun heq => hqp (Option.some.inj heq).symm

end Tracks
