import Mathlib.Logic.Function.Basic
import Niphas.Lib.Lease

/-!
# Leader election

`main.rs` of the operator.  A process runs the controller once it has acquired the lease; from then
on a task renews it, and gives the leadership up when it is told that somebody else has the lease,
or when three calls in a row have failed.  Any number of such processes share one lease.

There is one clock, in milliseconds.  Calls take up to `callLag`, and a task that has been asleep or
is to be stopped goes on within `timerLag` of its time.

* `leader_exclusive` — a controller runs where the lease is, or has been taken from there not longer
  than four of both lags ago.  It answers `/readyz` with success only while it runs.
* `lease_claimed` — while a process waits for the leadership, the lease is not out of date for
  longer than a pause and the lags.
* `leaders_overlap` — with lags, two controllers do run at a time.
-/

namespace Niphas

open LeaseRecord

/-! ## The process

`main` and its renewal task are one machine here, since they share one leadership and the task is
started by `main`.  A call has three moments: it is made, it has its effect on the lease, and its
answer is seen.
-/

/-- `LEASE_TTL`. -/
def leaseTtl : ℕ := 15000

/-- `LEASE_RENEW_INTERVAL`. -/
def leaseRenewInterval : ℕ := 5000

/-- `MAX_RENEW_FAILURES`. -/
def maxRenewFailures : ℕ := 3

/-- Where `main` and its renewal task stand.  A call that is under way has its answer once it has
had its effect. -/
inductive LeaderStage where
  /-- `main` calls `try_acquire_or_renew`. -/
  | acquiring (answer : Option LeaseAnswer)
  /-- `main` sleeps before the next call. -/
  | waiting
  /-- The controller runs, and the renewal task sleeps. -/
  | leading (failures : ℕ)
  /-- The controller runs, and the renewal task calls `try_acquire_or_renew`. -/
  | renewing (failures : ℕ) (answer : Option LeaseAnswer)
  /-- The renewal task has cancelled the token, and `main` has not dropped the controller yet. -/
  | cancelled
  /-- There is no process, or `main` has returned. -/
  | exited
  deriving DecidableEq, Repr

namespace LeaderStage

/-- The controller runs. -/
def Controls : LeaderStage → Prop
  | leading _ | renewing _ _ | cancelled => True
  | _ => False

/-- The leadership has not been given up. -/
def Leads : LeaderStage → Prop
  | leading _ | renewing _ _ => True
  | _ => False

/-- `main` is in its loop. -/
def Tries : LeaderStage → Prop
  | acquiring _ | waiting => True
  | _ => False

/-- A call is under way and has not had its effect. -/
def Calls : LeaderStage → Prop
  | acquiring none | renewing _ none => True
  | _ => False

/-- The answer that is on its way. -/
def answer : LeaderStage → Option LeaseAnswer
  | acquiring r => r
  | renewing _ r => r
  | _ => none

/-- The call has had its effect. -/
def withAnswer (r : LeaseAnswer) : LeaderStage → LeaderStage
  | acquiring _ => acquiring (some r)
  | renewing failures _ => renewing failures (some r)
  | stage => stage

end LeaderStage

lemma LeaderStage.Leads.controls {stage : LeaderStage} (h : stage.Leads) : stage.Controls := by
  cases stage with
  | leading _ | renewing _ _ => trivial
  | _ => exact h.elim

lemma LeaderStage.Calls.answer_eq {stage : LeaderStage} (h : stage.Calls) :
    stage.answer = none := by
  cases stage with
  | acquiring answer | renewing _ answer =>
      cases answer with
      | none => rfl
      | some r => exact h.elim
  | _ => exact h.elim

/-- A process: its stage, when it entered it or made its call, and the flag behind `/readyz`.  The
rest is history: when the last call was made that has been granted the lease, and whether a call has
been refused. -/
structure Candidate where
  stage : LeaderStage
  since : ℕ
  ready : Bool
  granted : ℕ
  refused : Bool

namespace Candidate

/-- No process has been there. -/
def absent : Candidate :=
  { stage := .exited, since := 0, ready := false, granted := 0, refused := false }

/-- `readyz` of `health.rs`: the status code. -/
def readyz (m : Candidate) : ℕ := if m.ready then 200 else 503

/-- A process that has been started at the time `now`. -/
def started (now : ℕ) : Candidate :=
  { stage := .acquiring none, since := now, ready := false, granted := now, refused := false }

/-- The match in the loop of `main`. -/
def tried (m : Candidate) (now : ℕ) : LeaseAnswer → Candidate
  | .acquired => { m with stage := .leading 0, since := now, ready := true, granted := m.since }
  | .notAcquired => { m with stage := .waiting, since := now, refused := true }
  | .failed => { m with stage := .exited, since := now }

/-- The match of the renewal task. -/
def renewed (m : Candidate) (now failures : ℕ) : LeaseAnswer → Candidate
  | .acquired => { m with stage := .leading 0, since := now, granted := m.since }
  | .notAcquired => { m with stage := .cancelled, since := now, ready := false }
  | .failed =>
      if maxRenewFailures ≤ failures + 1 then
        { m with stage := .cancelled, since := now, ready := false }
      else { m with stage := .leading (failures + 1), since := now }

/-- Nothing is overdue. -/
def InTime (m : Candidate) (callLag timerLag now : ℕ) : Prop :=
  match m.stage with
  | .acquiring _ | .renewing _ _ => now ≤ m.since + callLag
  | .waiting | .leading _ => now ≤ m.since + leaseRenewInterval + timerLag
  | .cancelled => now ≤ m.since + timerLag
  | .exited => True

end Candidate

/-! ## The election -/

/-- The clock, the lease, and the processes. -/
structure Election where
  now : ℕ
  record : LeaseRecord
  candidates : ℕ → Candidate

namespace Election

/-- There is no lease yet, and no process. -/
def first : Election where
  now := 0
  record := { lease := none, taken := 0 }
  candidates _ := .absent

/-- Process `p` is now at `m`. -/
def set (w : Election) (p : ℕ) (m : Candidate) : Election :=
  { w with candidates := Function.update w.candidates p m }

/-- One step. -/
inductive Step (lock : LeaseLock leaseTtl) : Election → Election → Prop
  | tick {w : Election} (d : ℕ) : Step lock w { w with now := w.now + d }
  | boot {w : Election} {p : ℕ} : (w.candidates p).stage = .exited →
      Step lock w (w.set p (.started w.now))
  | effect {w : Election} {p : ℕ} {r : LeaseAnswer} {record : LeaseRecord} :
      (w.candidates p).stage.Calls →
      Effect lock p (w.candidates p).since w.now r w.record record →
        Step lock w ({ w with record }.set p
          { w.candidates p with stage := (w.candidates p).stage.withAnswer r })
  | tried {w : Election} {p : ℕ} {r : LeaseAnswer} :
      (w.candidates p).stage = .acquiring (some r) →
        Step lock w (w.set p ((w.candidates p).tried w.now r))
  | retry {w : Election} {p : ℕ} : (w.candidates p).stage = .waiting →
      (w.candidates p).since + leaseRenewInterval ≤ w.now →
        Step lock w (w.set p { w.candidates p with stage := .acquiring none, since := w.now })
  | renew {w : Election} {p failures : ℕ} : (w.candidates p).stage = .leading failures →
      (w.candidates p).since + leaseRenewInterval ≤ w.now →
        Step lock w (w.set p
          { w.candidates p with stage := .renewing failures none, since := w.now })
  | renewed {w : Election} {p failures : ℕ} {r : LeaseAnswer} :
      (w.candidates p).stage = .renewing failures (some r) →
        Step lock w (w.set p ((w.candidates p).renewed w.now failures r))
  /-- `main` returns, for whatever reason, or the process is killed. -/
  | exit {w : Election} {p : ℕ} :
      Step lock w (w.set p
        { w.candidates p with stage := .exited, since := w.now, ready := false })

/-- Nothing is overdue. -/
def Prompt (callLag timerLag : ℕ) (w : Election) : Prop :=
  ∀ p, (w.candidates p).InTime callLag timerLag w.now

/-- The states of the runs in which nothing is ever overdue. -/
inductive Reachable (lock : LeaseLock leaseTtl) (callLag timerLag : ℕ) : Election → Prop
  | first : Reachable lock callLag timerLag first
  | step {w w' : Election} : Reachable lock callLag timerLag w → Step lock w w' →
      Prompt callLag timerLag w' → Reachable lock callLag timerLag w'

/-! ## What is known of a process

The invariant says for each stage how much time may have passed since the last call that was granted
the lease was made.  The bounds add up: pauses, calls and lags, for each renewal that has failed.
-/

end Election

/-- The time that may pass between a call that has been granted the lease and the begin of a
stage. -/
def LeaderStage.spent (callLag timerLag : ℕ) : LeaderStage → ℕ
  | leading failures => callLag + failures * (leaseRenewInterval + timerLag + callLag)
  | renewing failures _ =>
      callLag + failures * (leaseRenewInterval + timerLag + callLag) +
        (leaseRenewInterval + timerLag)
  | _ => callLag + maxRenewFailures * (leaseRenewInterval + timerLag + callLag)

/-- The renewals that have failed in a row. -/
def LeaderStage.failures : LeaderStage → ℕ
  | leading failures | renewing failures _ => failures
  | _ => 0

/-- The time that may pass between a call that has been refused and the begin of a stage. -/
def LeaderStage.paused (callLag timerLag : ℕ) : LeaderStage → ℕ
  | waiting => callLag
  | _ => callLag + (leaseRenewInterval + timerLag)

/-- What holds of process `p`, which is at `m`, at the time `now`. -/
structure Candidate.Sound (callLag timerLag now : ℕ) (record : LeaseRecord) (p : ℕ)
    (m : Candidate) : Prop where
  since : m.since ≤ now
  failures : m.stage.failures < maxRenewFailures
  ready : m.ready = true ↔ m.stage.Leads
  /-- The grant it works under, and how long ago that was. -/
  backed : m.stage.Controls → Backed leaseTtl record p m.granted ∧ m.granted ≤ m.since ∧
    m.since ≤ m.granted + m.stage.spent callLag timerLag
  /-- What the answer on its way is worth. -/
  granting : m.stage.answer = some .acquired → Backed leaseTtl record p m.since
  refusing : m.stage.answer = some .notAcquired → ValidAt leaseTtl record m.since
  /-- It has not renewed the lease after the begin of the stage, but for a call that has had its
  effect. -/
  own : m.stage.answer = none → ∀ l, record.lease = some l → l.holder = p → l.renewed ≤ m.since
  /-- The lease it has been told of. -/
  valid : m.refused = true → m.stage.Tries →
    ∃ t, ValidAt leaseTtl record t ∧ m.since ≤ t + m.stage.paused callLag timerLag

section

variable {lock : LeaseLock leaseTtl} {callLag timerLag now p q called : ℕ}
  {record record' : LeaseRecord} {m : Candidate} {r : LeaseAnswer}

namespace Candidate

/-- A process that does not run. -/
lemma Sound.exited {granted : ℕ} {refused : Bool} (hrecord : record.InPast now) :
    Sound callLag timerLag now record p ⟨.exited, now, false, granted, refused⟩ where
  since := le_refl _
  failures := by change 0 < maxRenewFailures; decide
  ready := ⟨nofun, False.elim⟩
  backed := False.elim
  granting := nofun
  refusing := nofun
  own _ l hl _ := hrecord.renewed l hl
  valid _ := False.elim

/-- A process that has just been started. -/
lemma Sound.started (hrecord : record.InPast now) :
    Sound callLag timerLag now record p (.started now) where
  since := le_refl _
  failures := by change 0 < maxRenewFailures; decide
  ready := ⟨nofun, False.elim⟩
  backed := False.elim
  granting := nofun
  refusing := nofun
  own _ l hl _ := hrecord.renewed l hl
  valid := nofun

lemma Sound.later (h : Sound callLag timerLag now record p m) {now' : ℕ} (hle : now ≤ now') :
    Sound callLag timerLag now' record p m :=
  { h with since := h.since.trans hle }

/-- A call of another process has its effect. -/
lemma Sound.other (h : Sound callLag timerLag now record p m) (hrecord : record.InPast now)
    (hne : q ≠ p) (he : Effect lock q called now r record record')
    (hfresh : ∀ l, record.lease = some l → l.holder = q → l.renewed ≤ called) :
    Sound callLag timerLag now record' p m where
  since := h.since
  failures := h.failures
  ready := h.ready
  backed hcontrols :=
    ⟨(h.backed hcontrols).1.other hrecord hne he, (h.backed hcontrols).2⟩
  granting hanswer := (h.granting hanswer).other hrecord hne he
  refusing hanswer := (h.refusing hanswer).effect hfresh he
  own hanswer l hl hp := by
    rcases he.cases with ⟨rfl, -⟩ | ⟨hgranted, -⟩
    · exact h.own hanswer l hl hp
    · -- the lease is with the other one
      obtain ⟨stamp, -, -, hlease, -⟩ := hgranted.lease
      rw [hlease] at hl
      cases hl
      exact absurd hp hne
  valid hrefused htries := by
    obtain ⟨t, hvalid, hle⟩ := h.valid hrefused htries
    exact ⟨t, hvalid.effect hfresh he, hle⟩

/-- Its own call has its effect. -/
lemma Sound.effect (h : Sound callLag timerLag now record p m) (hcalls : m.stage.Calls)
    (he : Effect lock p m.since now r record record') :
    Sound callLag timerLag now record' p { m with stage := m.stage.withAnswer r } := by
  obtain ⟨stage, since, ready, granted, refused⟩ := m
  have hfresh := h.own hcalls.answer_eq
  have hgranting : some r = some LeaseAnswer.acquired → Backed leaseTtl record' p since := by
    rintro ⟨⟩
    exact Backed.of_granted he.granted
  have hrefusing : some r = some LeaseAnswer.notAcquired → ValidAt leaseTtl record' since := by
    rintro ⟨⟩
    exact ValidAt.of_notAcquired he
  cases stage with
  | acquiring answer =>
      refine ⟨h.since, h.failures, h.ready, False.elim, hgranting, hrefusing, nofun,
        fun hrefused htries => ?_⟩
      obtain ⟨t, hvalid, hle⟩ := h.valid hrefused htries
      exact ⟨t, hvalid.effect hfresh he, hle⟩
  | renewing failures answer =>
      refine ⟨h.since, h.failures, h.ready, fun hcontrols => ?_, hgranting, hrefusing, nofun,
        fun _ => False.elim⟩
      obtain ⟨hbacked, hle, hspent⟩ := h.backed hcontrols
      exact ⟨hbacked.own hle he, hle, hspent⟩
  | _ => exact hcalls.elim

/-- `main` gets an answer in its loop. -/
lemma Sound.tried (h : Sound callLag timerLag now record p m) (hrecord : record.InPast now)
    (hstage : m.stage = .acquiring (some r)) (htime : now ≤ m.since + callLag) :
    Sound callLag timerLag now record p (m.tried now r) := by
  have hnow : ∀ l, record.lease = some l → l.holder = p → l.renewed ≤ now :=
    fun l hl _ => hrecord.renewed l hl
  have hready : m.ready = false := by
    rw [Bool.eq_false_iff, ne_eq, h.ready, hstage]
    exact not_false
  cases r with
  | acquired =>
      refine ⟨le_refl _, by change 0 < maxRenewFailures; decide, iff_of_true rfl trivial,
        fun _ => ⟨h.granting (by rw [hstage]; rfl), h.since, ?_⟩, nofun, nofun, fun _ => hnow,
        fun _ => False.elim⟩
      change now ≤ m.since + (callLag + 0 * _)
      omega
  | notAcquired =>
      refine ⟨le_refl _, by change 0 < maxRenewFailures; decide, ?_, False.elim, nofun, nofun,
        fun _ => hnow, fun _ _ => ⟨m.since, h.refusing (by rw [hstage]; rfl), htime⟩⟩
      change m.ready = true ↔ False
      rw [hready]
      exact ⟨nofun, False.elim⟩
  | failed =>
      change Sound callLag timerLag now record p ⟨.exited, now, m.ready, m.granted, m.refused⟩
      rw [hready]
      exact .exited hrecord

/-- `main` calls again. -/
lemma Sound.retry (h : Sound callLag timerLag now record p m) (hrecord : record.InPast now)
    (hstage : m.stage = .waiting) (htime : now ≤ m.since + leaseRenewInterval + timerLag) :
    Sound callLag timerLag now record p { m with stage := .acquiring none, since := now } := by
  refine ⟨le_refl _, by change 0 < maxRenewFailures; decide, ?_, False.elim, nofun, nofun,
    fun _ l hl _ => hrecord.renewed l hl, fun hrefused _ => ?_⟩
  · rw [h.ready, hstage]
    exact Iff.rfl
  · obtain ⟨t, hvalid, hle⟩ := h.valid hrefused (by rw [hstage]; trivial)
    rw [hstage] at hle
    refine ⟨t, hvalid, ?_⟩
    simp only [LeaderStage.paused] at hle ⊢
    omega

/-- The renewal task calls. -/
lemma Sound.renew {failures : ℕ} (h : Sound callLag timerLag now record p m)
    (hrecord : record.InPast now) (hstage : m.stage = .leading failures)
    (htime : now ≤ m.since + leaseRenewInterval + timerLag) :
    Sound callLag timerLag now record p
      { m with stage := .renewing failures none, since := now } := by
  have hfailures := h.failures
  obtain ⟨hbacked, hle, hspent⟩ := h.backed (by rw [hstage]; trivial)
  rw [hstage] at hfailures hspent
  refine ⟨le_refl _, hfailures, ?_, fun _ => ⟨hbacked, hle.trans h.since, ?_⟩, nofun, nofun,
    fun _ l hl _ => hrecord.renewed l hl, fun _ => False.elim⟩
  · rw [h.ready, hstage]
    exact Iff.rfl
  · simp only [LeaderStage.spent] at hspent ⊢
    omega

/-- The renewal task gets an answer. -/
lemma Sound.renewed {failures : ℕ} (h : Sound callLag timerLag now record p m)
    (hrecord : record.InPast now) (hstage : m.stage = .renewing failures (some r))
    (htime : now ≤ m.since + callLag) :
    Sound callLag timerLag now record p (m.renewed now failures r) := by
  have hnow : ∀ l, record.lease = some l → l.holder = p → l.renewed ≤ now :=
    fun l hl _ => hrecord.renewed l hl
  have hfailures := h.failures
  have hready := h.ready
  obtain ⟨hbacked, hle, hspent⟩ := h.backed (by rw [hstage]; trivial)
  rw [hstage] at hfailures hready hspent
  -- the time that has passed, after one more round of the task
  have hround : now ≤ m.granted +
      (callLag + (failures + 1) * (leaseRenewInterval + timerLag + callLag)) := by
    rw [Nat.succ_mul]
    simp only [LeaderStage.spent] at hspent
    omega
  have hcancelled : Sound callLag timerLag now record p
      { m with stage := .cancelled, since := now, ready := false } := by
    refine ⟨le_refl _, by change 0 < maxRenewFailures; decide, ⟨nofun, False.elim⟩,
      fun _ => ⟨hbacked, hle.trans h.since, hround.trans ?_⟩, nofun, nofun, fun _ => hnow,
      fun _ => False.elim⟩
    have hmul := Nat.mul_le_mul_right (leaseRenewInterval + timerLag + callLag) hfailures
    exact Nat.add_le_add_left (Nat.add_le_add_left hmul callLag) m.granted
  cases r with
  | acquired =>
      refine ⟨le_refl _, by change 0 < maxRenewFailures; decide,
        ⟨fun _ => trivial, fun _ => hready.mpr trivial⟩,
        fun _ => ⟨h.granting (by rw [hstage]; rfl), h.since, ?_⟩, nofun, nofun, fun _ => hnow,
        fun _ => False.elim⟩
      change now ≤ m.since + (callLag + 0 * _)
      omega
  | notAcquired => exact hcancelled
  | failed =>
      rw [Candidate.renewed]
      split
      · exact hcancelled
      next hfew =>
        exact ⟨le_refl _, Nat.lt_of_not_le hfew,
          ⟨fun _ => trivial, fun _ => hready.mpr trivial⟩,
          fun _ => ⟨hbacked, hle.trans h.since, hround⟩, nofun, nofun, fun _ => hnow,
          fun _ => False.elim⟩

end Candidate

/-! ## Runs -/

namespace Election

/-- What holds in every state. -/
structure Inv (callLag timerLag : ℕ) (w : Election) : Prop where
  record : w.record.InPast w.now
  candidates : ∀ p, (w.candidates p).Sound callLag timerLag w.now w.record p

variable {w w' : Election}

lemma inv_first : first.Inv callLag timerLag :=
  ⟨⟨le_refl _, nofun⟩, fun _ => .exited ⟨le_refl _, nofun⟩⟩

/-- One process has moved, and the lease is as before. -/
lemma Inv.set (h : w.Inv callLag timerLag)
    (hm : m.Sound callLag timerLag w.now w.record p) : (w.set p m).Inv callLag timerLag := by
  refine ⟨h.record, fun q => ?_⟩
  by_cases hq : q = p
  · subst hq
    change ((Function.update w.candidates q m) q).Sound callLag timerLag w.now w.record q
    rwa [Function.update_self]
  · change ((Function.update w.candidates p m) q).Sound callLag timerLag w.now w.record q
    rw [Function.update_of_ne hq]
    exact h.candidates q

/-- A step in time keeps the invariant. -/
lemma Inv.step (h : w.Inv callLag timerLag) (hprompt : w.Prompt callLag timerLag)
    (hs : Step lock w w') : w'.Inv callLag timerLag := by
  cases hs with
  | tick d =>
      exact ⟨h.record.mono (Nat.le_add_right _ _),
        fun p => (h.candidates p).later (Nat.le_add_right _ _)⟩
  | boot _ => exact h.set (.started h.record)
  | @effect p r record hcalls he =>
      have hown := (h.candidates p).own hcalls.answer_eq
      refine ⟨h.record.effect he, fun q => ?_⟩
      by_cases hq : q = p
      · subst hq
        change ((Function.update w.candidates q _) q).Sound callLag timerLag w.now record q
        rw [Function.update_self]
        exact (h.candidates q).effect hcalls he
      · change ((Function.update w.candidates p _) q).Sound callLag timerLag w.now record q
        rw [Function.update_of_ne hq]
        exact (h.candidates q).other h.record (Ne.symm hq) he hown
  | @tried p r hstage =>
      have htime := hprompt p
      rw [Candidate.InTime, hstage] at htime
      exact h.set ((h.candidates p).tried h.record hstage htime)
  | @retry p hstage _ =>
      have htime := hprompt p
      rw [Candidate.InTime, hstage] at htime
      exact h.set ((h.candidates p).retry h.record hstage htime)
  | @renew p failures hstage _ =>
      have htime := hprompt p
      rw [Candidate.InTime, hstage] at htime
      exact h.set ((h.candidates p).renew h.record hstage htime)
  | @renewed p failures r hstage =>
      have htime := hprompt p
      rw [Candidate.InTime, hstage] at htime
      exact h.set ((h.candidates p).renewed h.record hstage htime)
  | exit => exact h.set (.exited h.record)

/-- It holds in every state of a run in time. -/
lemma Reachable.inv (h : Reachable lock callLag timerLag w) :
    w.Inv callLag timerLag ∧ w.Prompt callLag timerLag := by
  induction h with
  | first => exact ⟨inv_first, fun _ => trivial⟩
  | step _ hs hprompt ih => exact ⟨ih.1.step ih.2 hs, hprompt⟩

end Election

/-- A controller does not run on for long when its lease has run out. -/
lemma Candidate.Sound.now_le (h : m.Sound callLag timerLag now record p)
    (hcontrols : m.stage.Controls) (htime : m.InTime callLag timerLag now) :
    now ≤ m.granted + leaseTtl + 4 * (callLag + timerLag) := by
  have hfailures := h.failures
  obtain ⟨-, -, hspent⟩ := h.backed hcontrols
  rw [Candidate.InTime] at htime
  unfold maxRenewFailures at hfailures
  cases hstage : m.stage with
  | leading failures =>
      simp only [hstage, LeaderStage.spent, LeaderStage.failures, leaseRenewInterval]
        at htime hfailures hspent
      have hrounds := Nat.mul_le_mul_right (5000 + timerLag + callLag) (Nat.le_of_lt_succ hfailures)
      rw [leaseTtl]
      omega
  | renewing failures answer =>
      simp only [hstage, LeaderStage.spent, LeaderStage.failures, leaseRenewInterval]
        at htime hfailures hspent
      have hrounds := Nat.mul_le_mul_right (5000 + timerLag + callLag) (Nat.le_of_lt_succ hfailures)
      rw [leaseTtl]
      omega
  | cancelled =>
      simp only [hstage, LeaderStage.spent, leaseRenewInterval, maxRenewFailures] at htime hspent
      rw [leaseTtl]
      omega
  | _ =>
      rw [hstage] at hcontrols
      exact hcontrols.elim

namespace Election

variable {w : Election}

/-- **A controller runs where the lease is**, or has been taken from there a short time ago; so two
of them run at a time only for that time.  A process that is ready runs its controller. -/
theorem leader_exclusive (h : Reachable lock callLag timerLag w) :
    (∀ p, (w.candidates p).stage.Controls →
      w.record.holder = some p ∨ w.now ≤ w.record.taken + 4 * (callLag + timerLag)) ∧
      (∀ p q, p ≠ q → (w.candidates p).stage.Controls → (w.candidates q).stage.Controls →
        w.now ≤ w.record.taken + 4 * (callLag + timerLag)) ∧
      ∀ p, (w.candidates p).readyz = 200 → (w.candidates p).stage.Controls := by
  obtain ⟨hinv, hprompt⟩ := h.inv
  have hexclusive : ∀ p, (w.candidates p).stage.Controls →
      w.record.holder = some p ∨ w.now ≤ w.record.taken + 4 * (callLag + timerLag) := by
    intro p hcontrols
    have hsound := hinv.candidates p
    exact (hsound.backed hcontrols).1.held_or_taken (hsound.now_le hcontrols (hprompt p))
  refine ⟨hexclusive, fun p q hne hp hq => ?_, fun p hready => ?_⟩
  · rcases hexclusive p hp with hheld | hle
    · rcases hexclusive q hq with hheld' | hle
      · exact absurd (Option.some.inj (hheld.symm.trans hheld')) hne
      · exact hle
    · exact hle
  · have hleads : (w.candidates p).stage.Leads := by
      rw [← (hinv.candidates p).ready]
      by_contra hnot
      rw [Candidate.readyz, if_neg hnot] at hready
      cases hready
    exact hleads.controls

/-- **The lease is claimed soon after it has run out**, where a process waits for it. -/
theorem lease_claimed (h : Reachable lock callLag timerLag w) {p : ℕ}
    (htries : (w.candidates p).stage.Tries) (hrefused : (w.candidates p).refused = true) :
    ∃ l, w.record.lease = some l ∧
      w.now ≤ l.renewed + leaseTtl + leaseRenewInterval + 2 * callLag + timerLag := by
  obtain ⟨hinv, hprompt⟩ := h.inv
  obtain ⟨t, ⟨l, hlease, hvalid⟩, hle⟩ := (hinv.candidates p).valid hrefused htries
  have htime := hprompt p
  refine ⟨l, hlease, ?_⟩
  rw [Candidate.InTime] at htime
  cases hstage : (w.candidates p).stage with
  | acquiring answer | waiting =>
      simp only [hstage, LeaderStage.paused] at htime hle
      omega
  | _ =>
      rw [hstage] at htries
      exact htries.elim

end Election

end

/-! ## Two controllers at a time -/

namespace Election

/-- Two processes, and no others. -/
def both (a b : Candidate) : ℕ → Candidate
  | 0 => a
  | 1 => b
  | _ => .absent

lemma update_both_zero (a b m : Candidate) : Function.update (both a b) 0 m = both m b := by
  funext q
  match q with
  | 0 => rfl
  | 1 => rfl
  | q + 2 => rfl

lemma update_both_one (a b m : Candidate) : Function.update (both a b) 1 m = both a m := by
  funext q
  match q with
  | 0 => rfl
  | 1 => rfl
  | q + 2 => rfl

lemma first_eq : first = ⟨0, ⟨none, 0⟩, both .absent .absent⟩ := by
  refine congrArg (Election.mk 0 _) (funext fun q => ?_)
  match q with
  | 0 => rfl
  | 1 => rfl
  | q + 2 => rfl

section

variable {lock : LeaseLock leaseTtl} {callLag timerLag now : ℕ} {record record' : LeaseRecord}
  {a b m : Candidate}

lemma prompt_both (ha : a.InTime callLag timerLag now) (hb : b.InTime callLag timerLag now) :
    Prompt callLag timerLag ⟨now, record, both a b⟩ := by
  intro q
  match q with
  | 0 => exact ha
  | 1 => exact hb
  | q + 2 => exact trivial

/-- The first of the two moves. -/
lemma Reachable.zero (h : Reachable lock callLag timerLag ⟨now, record, both a b⟩)
    (hs : Step lock ⟨now, record, both a b⟩ (set ⟨now, record', both a b⟩ 0 m))
    (hm : m.InTime callLag timerLag now) (hb : b.InTime callLag timerLag now) :
    Reachable lock callLag timerLag ⟨now, record', both m b⟩ := by
  rw [set, update_both_zero] at hs
  exact .step h hs (prompt_both hm hb)

/-- The second one does. -/
lemma Reachable.one (h : Reachable lock callLag timerLag ⟨now, record, both a b⟩)
    (hs : Step lock ⟨now, record, both a b⟩ (set ⟨now, record', both a b⟩ 1 m))
    (ha : a.InTime callLag timerLag now) (hm : m.InTime callLag timerLag now) :
    Reachable lock callLag timerLag ⟨now, record', both a m⟩ := by
  rw [set, update_both_one] at hs
  exact .step h hs (prompt_both ha hm)

lemma Reachable.later (h : Reachable lock callLag timerLag ⟨now, record, both a b⟩) (d : ℕ)
    (ha : a.InTime callLag timerLag (now + d)) (hb : b.InTime callLag timerLag (now + d)) :
    Reachable lock callLag timerLag ⟨now + d, record, both a b⟩ :=
  .step h (.tick d) (prompt_both ha hb)

/-- A renewal of the first process that fails, a second after it was made. -/
lemma Reachable.fail {since granted failures : ℕ} (hnow : now = since + leaseRenewInterval)
    (hfailures : failures + 1 < maxRenewFailures)
    (h : Reachable (standardLock leaseTtl) 1000 0
      ⟨now, record, both ⟨.leading failures, since, true, granted, false⟩ .absent⟩) :
    Reachable (standardLock leaseTtl) 1000 0 ⟨now + 1000, record,
      both ⟨.leading (failures + 1), now + 1000, true, granted, false⟩ .absent⟩ := by
  have hcalled := h.zero (.renew rfl hnow.ge) (Nat.le_add_right _ _) trivial
  have hlost := hcalled.zero (.effect (r := .failed) trivial ⟨.lose, (if_pos rfl).symm⟩)
    (Nat.le_add_right _ _) trivial
  have hlater := hlost.later 1000 (le_refl _) trivial
  have hm : Candidate.renewed ⟨.renewing failures (some .failed), now, true, granted, false⟩
      (now + 1000) failures .failed = ⟨.leading (failures + 1), now + 1000, true, granted, false⟩ :=
    if_neg (Nat.not_le_of_lt hfailures)
  refine hlater.zero (hm ▸ .renewed rfl) ?_ trivial
  change now + 1000 ≤ now + 1000 + leaseRenewInterval + 0
  omega

/-- A call of the first process has its effect. -/
lemma Reachable.effect_zero {r : LeaseAnswer}
    (h : Reachable lock callLag timerLag ⟨now, record, both a b⟩) (hcalls : a.stage.Calls)
    (he : Effect lock 0 a.since now r record record')
    (ha : Candidate.InTime { a with stage := a.stage.withAnswer r } callLag timerLag now)
    (hb : b.InTime callLag timerLag now) :
    Reachable lock callLag timerLag
      ⟨now, record', both { a with stage := a.stage.withAnswer r } b⟩ :=
  h.zero (.effect (w := ⟨now, record, both a b⟩) (p := 0) hcalls he) ha hb

/-- One of the second process does. -/
lemma Reachable.effect_one {r : LeaseAnswer}
    (h : Reachable lock callLag timerLag ⟨now, record, both a b⟩) (hcalls : b.stage.Calls)
    (he : Effect lock 1 b.since now r record record') (ha : a.InTime callLag timerLag now)
    (hb : Candidate.InTime { b with stage := b.stage.withAnswer r } callLag timerLag now) :
    Reachable lock callLag timerLag
      ⟨now, record', both a { b with stage := b.stage.withAnswer r }⟩ :=
  h.one (.effect (w := ⟨now, record, both a b⟩) (p := 1) hcalls he) ha hb

/-- The first process leads, and two renewals fail, each after a second. -/
lemma reachable_failed : Reachable (standardLock leaseTtl) 1000 0
    ⟨12000, ⟨some ⟨0, 0⟩, 0⟩, both ⟨.leading 2, 12000, true, 0, false⟩ .absent⟩ := by
  have h := @Reachable.first (standardLock leaseTtl) 1000 0
  rw [first_eq] at h
  have hbooted := h.zero (.boot rfl) (Nat.zero_le _) trivial
  have hcreated : Effect (standardLock leaseTtl) 0 0 0 .acquired ⟨none, 0⟩ ⟨some ⟨0, 0⟩, 0⟩ :=
    ⟨.create (le_refl 0), rfl⟩
  have hgranted := hbooted.effect_zero trivial hcreated (Nat.zero_le _) trivial
  have hleading := hgranted.zero (.tried rfl) (Nat.zero_le _) trivial
  have hfailed := (hleading.later 5000 (Nat.le_of_ble_eq_true rfl) trivial).fail rfl (by decide)
  exact (hfailed.later 5000 (Nat.le_of_ble_eq_true rfl) trivial).fail rfl (by decide)

/-- The second process takes the lease when it has run out, before the third renewal fails. -/
lemma reachable_both : Reachable (standardLock leaseTtl) 1000 0
    ⟨17000, ⟨some ⟨1, 15000⟩, 15000⟩,
      both ⟨.leading 2, 12000, true, 0, false⟩ ⟨.leading 0, 15000, true, 15000, false⟩⟩ := by
  have htime : Candidate.InTime ⟨.leading 2, 12000, true, 0, false⟩ 1000 0 15000 :=
    Nat.le_of_ble_eq_true rfl
  have h := reachable_failed.later 3000 htime trivial
  have hbooted := h.one (.boot rfl) htime (Nat.le_add_right _ _)
  have hexpired : Effect (standardLock leaseTtl) 1 15000 15000 .acquired ⟨some ⟨0, 0⟩, 0⟩
      ⟨some ⟨1, 15000⟩, 15000⟩ := ⟨.take (le_refl 15000) (le_refl 15000), rfl⟩
  have htaken := hbooted.effect_one trivial hexpired htime (Nat.le_add_right _ _)
  have hleading := htaken.one (.tried rfl) htime (Nat.le_of_ble_eq_true rfl)
  exact hleading.later 2000 (Nat.le_of_ble_eq_true rfl) (Nat.le_of_ble_eq_true rfl)

/-- **Two controllers run at a time**, with calls that take a second: two seconds after the lease
has been taken, both processes are ready. -/
theorem leaders_overlap : ∃ w, Reachable (standardLock leaseTtl) 1000 0 w ∧
    (w.candidates 0).readyz = 200 ∧ (w.candidates 1).readyz = 200 ∧
      w.record.taken + 2000 = w.now ∧ w.now ≤ w.record.taken + 4 * (1000 + 0) := by
  obtain ⟨-, hboth, hready⟩ := leader_exclusive reachable_both
  refine ⟨_, reachable_both, rfl, rfl, rfl, ?_⟩
  exact hboth 0 1 (by decide) (hready 0 rfl) (hready 1 rfl)

/-- A process that waits is refused while the lease lasts, and the lease is still good. -/
theorem lease_claimed_waiting : ∃ w, Reachable (standardLock leaseTtl) 1000 0 w ∧
    (w.candidates 1).stage = .waiting ∧
      ∃ l, w.record.lease = some l ∧
        w.now ≤ l.renewed + leaseTtl + leaseRenewInterval + 2 * 1000 + 0 := by
  have htime : Candidate.InTime ⟨.leading 2, 12000, true, 0, false⟩ 1000 0 12000 :=
    Nat.le_of_ble_eq_true rfl
  have hbooted := reachable_failed.one (.boot rfl) htime (Nat.le_add_right _ _)
  have hvalid : Effect (standardLock leaseTtl) 1 12000 12000 .notAcquired ⟨some ⟨0, 0⟩, 0⟩
      ⟨some ⟨0, 0⟩, 0⟩ :=
    ⟨.refuse (le_refl 12000) Nat.zero_ne_one (Nat.le_of_ble_eq_true rfl), (if_pos rfl).symm⟩
  have hrefused := hbooted.effect_one trivial hvalid htime (Nat.le_add_right _ _)
  have hwaiting := hrefused.one (.tried rfl) htime (Nat.le_of_ble_eq_true rfl)
  exact ⟨_, hwaiting, rfl, lease_claimed hwaiting (p := 1) trivial rfl⟩

end

end Election

end Niphas
