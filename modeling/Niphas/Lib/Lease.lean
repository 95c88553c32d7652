import Mathlib.Order.Nat

/-!
# Leases

A lease is a record of who holds it and when the holder has renewed it last.  The holder renews it
with calls that take time; anybody else may take it once the renewal is older than the lease lasts.
Whoever has been told that it holds the lease may have lost it since, but not before the lease has
run out.

A call has three times: it is started, it has its effect, and its answer arrives.  The lock may look
at the clock anywhere between the first two, so what it writes is a time between them, and what it
compares with is one, too.  A `LeaseLock` is any implementation that keeps to this.  Whoever is
granted the lease can only count from the time it has *started* the call, as it does not know the
others.

The clock is the same for all, as if their clocks were synchronised.  Where they are not, the
difference has to be added to the time that a lease lasts for the others.

* `LeaseLock` — what the calls of an implementation may answer, and what they make of the record.
* `LeaseRecord.Backed` — what one may conclude from a call that was started at `t` and has been
  granted: the lease has not been taken since, or not earlier than `t` and the time it lasts.
  Rules: `Backed.of_granted`, `Backed.other`, `Backed.own`.
* `LeaseRecord.ValidAt` — what one may conclude from a call that has been refused.
* `standardLock` — the lock that checks the time and writes it in one go.
-/

/-- A lease: its holder, and the time of the last renewal. -/
structure Lease where
  holder : ℕ
  renewed : ℕ
  deriving DecidableEq, Repr

/-- The answer to a call that is to acquire the lease or renew it. -/
inductive LeaseAnswer where
  | acquired
  | notAcquired
  | failed
  deriving DecidableEq, Repr

/-- A lock on a lease that lasts `ttl`.  `attempt me started now l r l'`: a call of `me` that was
started at the time `started` may find the lease `l` at the time `now`, leave `l'` and answer `r`.
A call looks at the clock while it is under way, so the times it compares and writes lie in
between. -/
structure LeaseLock (ttl : ℕ) where
  attempt : ℕ → ℕ → ℕ → Option Lease → LeaseAnswer → Option Lease → Prop
  /-- Who acquires the lease had it, or found it free or run out, before it wrote down the time. -/
  acquired : ∀ {me started now l l'}, attempt me started now l .acquired l' →
    ∃ stamp, started ≤ stamp ∧ stamp ≤ now ∧ l' = some ⟨me, stamp⟩ ∧
      ∀ old, l = some old → old.holder ≠ me → old.renewed + ttl ≤ stamp
  /-- Who does not has found it with somebody else, and not run out. -/
  notAcquired : ∀ {me started now l l'}, attempt me started now l .notAcquired l' →
    l' = l ∧ ∃ old, l = some old ∧ started ≤ old.renewed + ttl
  /-- A call that fails may have had its effect. -/
  failed : ∀ {me started now l l'}, attempt me started now l .failed l' →
    l' = l ∨ attempt me started now l .acquired l'

/-- The record of a lease.  `taken` is history: when its present holder took it. -/
structure LeaseRecord where
  lease : Option Lease
  taken : ℕ

namespace LeaseRecord

variable {ttl : ℕ} {lock : LeaseLock ttl} {rec rec' : LeaseRecord} {me p started now t : ℕ}
  {r : LeaseAnswer}

/-- The holder, if there is one. -/
def holder (rec : LeaseRecord) : Option ℕ := rec.lease.map Lease.holder

/-- A call has its effect. -/
structure Effect (lock : LeaseLock ttl) (me started now : ℕ) (r : LeaseAnswer)
    (rec rec' : LeaseRecord) : Prop where
  attempt : lock.attempt me started now rec.lease r rec'.lease
  taken : rec'.taken = if rec'.holder = rec.holder then rec.taken else now

/-! ## What a call does -/

/-- `me` has been granted the lease: it has had it, or it has taken it when it had run out. -/
structure Granted (ttl me started now : ℕ) (rec rec' : LeaseRecord) : Prop where
  lease : ∃ stamp, started ≤ stamp ∧ stamp ≤ now ∧ rec'.lease = some ⟨me, stamp⟩ ∧
    ∀ old, rec.lease = some old → old.holder ≠ me → old.renewed + ttl ≤ stamp
  taken : rec.holder = some me ∧ rec'.taken = rec.taken ∨
    rec.holder ≠ some me ∧ rec'.taken = now

lemma holder_eq_of_lease {l : Lease} (h : rec.lease = some l) : rec.holder = some l.holder := by
  rw [holder, h]
  rfl

/-- An effect is nothing at all, or the lease is granted. -/
lemma Effect.cases (h : Effect lock me started now r rec rec') :
    rec' = rec ∧ r ≠ .acquired ∨ Granted ttl me started now rec rec' ∧ r ≠ .notAcquired := by
  have hsame : rec'.lease = rec.lease → rec' = rec := by
    intro hlease
    have htaken := h.taken
    rw [holder, holder, hlease, if_pos rfl] at htaken
    cases rec
    cases rec'
    cases hlease
    cases htaken
    rfl
  have hgranted : lock.attempt me started now rec.lease .acquired rec'.lease →
      Granted ttl me started now rec rec' := by
    intro hattempt
    obtain ⟨stamp, hstarted, hnow, hlease, hold⟩ := lock.acquired hattempt
    refine ⟨⟨stamp, hstarted, hnow, hlease, hold⟩, ?_⟩
    have htaken := h.taken
    rw [holder_eq_of_lease hlease] at htaken
    by_cases hheld : rec.holder = some me
    · exact .inl ⟨hheld, htaken.trans (if_pos hheld.symm)⟩
    · exact .inr ⟨hheld, htaken.trans (if_neg (Ne.symm hheld))⟩
  cases r with
  | acquired => exact .inr ⟨hgranted h.attempt, nofun⟩
  | notAcquired => exact .inl ⟨hsame (lock.notAcquired h.attempt).1, nofun⟩
  | failed =>
      rcases lock.failed h.attempt with hlease | hattempt
      · exact .inl ⟨hsame hlease, nofun⟩
      · exact .inr ⟨hgranted hattempt, nofun⟩

lemma Effect.granted (h : Effect lock me started now .acquired rec rec') :
    Granted ttl me started now rec rec' := by
  rcases h.cases with ⟨-, hne⟩ | ⟨hgranted, -⟩
  · exact absurd rfl hne
  · exact hgranted

/-- The record is never ahead of the time. -/
structure InPast (rec : LeaseRecord) (now : ℕ) : Prop where
  taken : rec.taken ≤ now
  renewed : ∀ l, rec.lease = some l → l.renewed ≤ now

lemma InPast.mono (h : rec.InPast now) {now' : ℕ} (hle : now ≤ now') : rec.InPast now' :=
  ⟨h.taken.trans hle, fun l hl => (h.renewed l hl).trans hle⟩

lemma InPast.effect (h : rec.InPast now) (he : Effect lock me started now r rec rec') :
    rec'.InPast now := by
  rcases he.cases with ⟨rfl, -⟩ | ⟨hgranted, -⟩
  · exact h
  · obtain ⟨stamp, -, hnow, hlease, -⟩ := hgranted.lease
    refine ⟨?_, fun l hl => ?_⟩
    · rcases hgranted.taken with ⟨-, htaken⟩ | ⟨-, htaken⟩
      · exact htaken ▸ h.taken
      · exact htaken.le
    · rw [hlease] at hl
      cases hl
      exact hnow

/-! ## What a grant is worth -/

/-- The lease is still with `p` and has been renewed at `t` or later, or somebody else has taken it
when it had run out. -/
def Backed (ttl : ℕ) (rec : LeaseRecord) (p t : ℕ) : Prop :=
  ∃ l, rec.lease = some l ∧
    (l.holder = p ∧ t ≤ l.renewed ∨ l.holder ≠ p ∧ t + ttl ≤ rec.taken)

/-- A call that has been granted the lease backs the time it was started at. -/
lemma Backed.of_granted (h : Granted ttl p started now rec rec') : Backed ttl rec' p started := by
  obtain ⟨stamp, hstarted, -, hlease, -⟩ := h.lease
  exact ⟨_, hlease, .inl ⟨rfl, hstarted⟩⟩

/-- What is backed stays so whatever the others do. -/
lemma Backed.other (h : Backed ttl rec p t) (hrec : rec.InPast now) (hne : me ≠ p)
    (he : Effect lock me started now r rec rec') : Backed ttl rec' p t := by
  rcases he.cases with ⟨rfl, -⟩ | ⟨hgranted, -⟩
  · exact h
  obtain ⟨l, hlease, hl⟩ := h
  obtain ⟨stamp, -, hnow, hlease', hold⟩ := hgranted.lease
  refine ⟨_, hlease', .inr ⟨hne, ?_⟩⟩
  rcases hgranted.taken with ⟨hheld, htaken⟩ | ⟨hheld, htaken⟩
  · -- the lease was with the other one before
    rw [holder_eq_of_lease hlease, Option.some.injEq] at hheld
    rcases hl with ⟨hp, -⟩ | ⟨-, hle⟩
    · exact absurd (hheld.symm.trans hp) hne
    · rwa [htaken]
  · have hexpired := hold l hlease fun heq => hheld (heq ▸ holder_eq_of_lease hlease)
    have hpast := hrec.taken
    rw [htaken]
    rcases hl with ⟨-, hle⟩ | ⟨-, hle⟩
    · omega
    · omega

/-- It stays so when `p` itself calls again. -/
lemma Backed.own (h : Backed ttl rec p t) (ht : t ≤ started)
    (he : Effect lock p started now r rec rec') : Backed ttl rec' p t := by
  rcases he.cases with ⟨rfl, -⟩ | ⟨hgranted, -⟩
  · exact h
  · obtain ⟨stamp, hstarted, -, hlease, -⟩ := hgranted.lease
    exact ⟨_, hlease, .inl ⟨rfl, ht.trans hstarted⟩⟩

/-- **Where the grant has run out by now**, the lease is still with `p`, or has been taken within
the time that has passed since. -/
lemma Backed.held_or_taken (h : Backed ttl rec p t) {late : ℕ} (hnow : now ≤ t + ttl + late) :
    rec.holder = some p ∨ now ≤ rec.taken + late := by
  obtain ⟨l, hlease, ⟨hp, -⟩ | ⟨-, hle⟩⟩ := h
  · exact .inl (hp ▸ holder_eq_of_lease hlease)
  · exact .inr (by omega)

/-! ## What a refusal is worth -/

/-- There is a lease, and it has not run out before `t`. -/
def ValidAt (ttl : ℕ) (rec : LeaseRecord) (t : ℕ) : Prop :=
  ∃ l, rec.lease = some l ∧ t ≤ l.renewed + ttl

/-- A call that is refused has found the lease valid when it was started. -/
lemma ValidAt.of_notAcquired (h : Effect lock me started now .notAcquired rec rec') :
    ValidAt ttl rec' started := by
  obtain ⟨hsame, old, hlease, hle⟩ := lock.notAcquired h.attempt
  exact ⟨old, hsame.trans hlease, hle⟩

/-- A lease stays as good as it was, where nobody renews it with a time that has passed before. -/
lemma ValidAt.effect (h : ValidAt ttl rec t)
    (hfresh : ∀ l, rec.lease = some l → l.holder = me → l.renewed ≤ started)
    (he : Effect lock me started now r rec rec') : ValidAt ttl rec' t := by
  rcases he.cases with ⟨rfl, -⟩ | ⟨hgranted, -⟩
  · exact h
  obtain ⟨l, hlease, hl⟩ := h
  obtain ⟨stamp, hstarted, -, hlease', hold⟩ := hgranted.lease
  refine ⟨_, hlease', ?_⟩
  change t ≤ stamp + ttl
  by_cases hme : l.holder = me
  · have hle := hfresh l hlease hme
    omega
  · have hexpired := hold l hlease hme
    omega

end LeaseRecord

/-! ## A lock -/

/-- What a lock does that looks at the clock, compares and writes in one go. -/
inductive StandardAttempt (ttl : ℕ) (me started now : ℕ) :
    Option Lease → LeaseAnswer → Option Lease → Prop
  | create : started ≤ now → StandardAttempt ttl me started now none .acquired (some ⟨me, now⟩)
  | renew {l : Lease} : started ≤ now → l.holder = me →
      StandardAttempt ttl me started now (some l) .acquired (some ⟨me, now⟩)
  | take {l : Lease} : started ≤ now → l.renewed + ttl ≤ now →
      StandardAttempt ttl me started now (some l) .acquired (some ⟨me, now⟩)
  | refuse {l : Lease} : started ≤ now → l.holder ≠ me → now ≤ l.renewed + ttl →
      StandardAttempt ttl me started now (some l) .notAcquired (some l)
  | lose {l : Option Lease} : StandardAttempt ttl me started now l .failed l

/-- Such a lock keeps the laws. -/
def standardLock (ttl : ℕ) : LeaseLock ttl where
  attempt := StandardAttempt ttl
  acquired := by
    intro me started now l l' h
    cases h with
    | create hle => exact ⟨now, hle, le_refl _, rfl, nofun⟩
    | renew hle hme =>
        refine ⟨now, hle, le_refl _, rfl, fun old hold hne => ?_⟩
        cases hold
        exact absurd hme hne
    | take hle hexpired =>
        refine ⟨now, hle, le_refl _, rfl, fun old hold _ => ?_⟩
        cases hold
        exact hexpired
  notAcquired := by
    intro me started now l l' h
    cases h with
    | refuse hle _ hvalid => exact ⟨rfl, _, rfl, hle.trans hvalid⟩
  failed := by
    intro me started now l l' h
    cases h with
    | lose => exact .inl rfl
