import Niphas.Lib.Monitor
import Niphas.Operator.Watch

/-!
# What a reconcile has read and written

Notes of a reconcile: what the clock and the Deployment were when it last read them, and the last
status patch that was acknowledged.  Its outcome is told from them.

All of this is about the program alone.  Whatever the API server and the webhook answer, and
whatever happens between two calls, the notes are made from the answers, and the action that is
returned goes with the notes.  What the notes have to do with the cluster is left to the modules
that have one: in `Readiness` and `StatusTimes` the world keeps them, and `shows_reconcile` is used
there by name.

A patch that is answered with an error may have been carried out.  So the last acknowledged patch is
forgotten when a later one fails, and nothing is told from it any more.

* `Stamped` — conditions are written with the time the clock has shown last.
* `Outcome` — a reconcile that returns an action has written no status at all, or a failure last, or
  what it has read of the Deployment.
* `shows_reconcile` — every reconcile keeps to both.
-/

namespace Niphas

open System

/-! ## The notes -/

/-- What is noted of a reconcile. -/
structure ReconcileNotes where
  time : Option String := none
  deployment : Option (Option (Option Int)) := none
  patch : Option StatusPatch := none

/-- What a call adds to the notes.  A status patch that failed may have had its effect, so the patch
before it is not the last one for sure. -/
def ReconcileNotes.note (s : ReconcileNotes) : (o : KubeOp) → kubeInterface.Answer o →
    ReconcileNotes
  | .now, t => { s with time := some t }
  | .getDeployment _, .ok deployment => { s with deployment := some deployment }
  | .patchStatus _ patch, .ok () => { s with patch := some patch }
  | .patchStatus _ _, .error _ => { s with patch := none }
  | _, _ => s

/-- The monitor of a reconcile. -/
def reconcileMonitor : Monitor kubeInterface where
  Notes := ReconcileNotes
  start := {}
  note := ReconcileNotes.note

/-! ## What is told from them -/

/-- The conditions of a status patch have the time the clock has shown last. -/
def Stamped (s : ReconcileNotes) : KubeOp → Prop
  | .patchStatus _ patch =>
      ∀ condition ∈ patch.conditions.getD [], s.time = some condition.lastTransitionTime
  | _ => True

/-- A failure is recorded. -/
def FailureOf (wl : NiphasWorkload) (patch : StatusPatch) : Prop :=
  ∃ reason message now, patch = failedPatch reason message now wl.generation

/-- The phase that is written for a number of ready replicas. -/
def reportedPhase (wl : NiphasWorkload) (ready : Int) : WorkloadPhase :=
  if wl.desired ≤ ready then .running else .provisioning

/-- The result is the one in the status, where there need not be a new one. -/
def Uses (wl : NiphasWorkload) (r : EvalResult) : Prop :=
  needsEval wl wl.observed wl.generation = false →
    EvalResult.fromStatus (wl.status.getD {}) = .ok (some r) ∨
      EvalResult.fromStatus (wl.status.getD {}) = .ok none

/-- The status is brought up to date with what has been read of the Deployment. -/
def UpdateOf (wl : NiphasWorkload) (s : ReconcileNotes) (patch : StatusPatch) : Prop :=
  ∃ r deployment now, s.deployment = some deployment ∧ s.time = some now ∧ Uses wl r ∧
    patch = statusPatch (reportedPhase wl (Watch.readyReplicas deployment)) r
      (Watch.readyReplicas deployment) wl.desired now wl.generation

/-- What a reconcile that returns an action has written. -/
def Outcome (wl : NiphasWorkload) (out : Except OperatorFault Action) (s : ReconcileNotes) : Prop :=
  ∀ action, out = .ok action → ¬ Pending wl ∧ s.patch = none ∨
    Pending wl ∧ ∃ patch, s.patch = some patch ∧ (FailureOf wl patch ∨ UpdateOf wl s patch)

/-! ## The parts of a reconcile -/

section Parts

variable {α : Type} {s : ReconcileNotes}

/-- What a part of a reconcile shows, from the notes `s` on. -/
abbrev Tells (prog : OperatorM α) (s : ReconcileNotes)
    (post : Except OperatorFault α → ReconcileNotes → Prop) : Prop :=
  reconcileMonitor.Shows Stamped post prog.run s

/-- One part after the other.  Nothing is to be shown of a part that returns an error. -/
lemma Tells.bind {β : Type} {prog : OperatorM α} {f : α → OperatorM β}
    {R : α → ReconcileNotes → Prop} {post : β → ReconcileNotes → Prop}
    (h : Tells prog s fun out s => ∀ a, out = .ok a → R a s)
    (hf : ∀ a s, R a s → Tells (f a) s fun out s => ∀ b, out = .ok b → post b s) :
    Tells (prog >>= f) s fun out s => ∀ b, out = .ok b → post b s :=
  Monitor.Shows.bindExcept h (fun a s' hmid => hf a s' (hmid a rfl)) fun _ _ _ _ hb => by cases hb

/-- Code that returns a value or an error without a call. -/
lemma tells_ofResult {r : Except OperatorFault α} {post : α → ReconcileNotes → Prop}
    (h : ∀ a, r = .ok a → post a s) :
    Tells (OperatorM.ofResult r) s fun out s => ∀ a, out = .ok a → post a s := h

lemma tells_pure {a : α} {post : α → ReconcileNotes → Prop} (h : post a s) :
    Tells (pure a) s fun out s => ∀ a, out = .ok a → post a s := by
  rintro _ ⟨⟩
  exact h

lemma tells_op {o : KubeOp} {post : kubeInterface.Answer o → ReconcileNotes → Prop}
    (ho : Stamped s o) (hpost : ∀ r, post r (s.note o r)) :
    Tells (OperatorM.op o) s fun out s => ∀ r, out = .ok r → post r s := by
  refine ⟨ho, fun r => ?_⟩
  rintro _ ⟨⟩
  exact hpost r

lemma tells_publishEvent {post : Unit → ReconcileNotes → Prop} (h : post () s) (type : EventType)
    (reason note : String) :
    Tells (OperatorM.op (.publishEvent type reason note)) s
      fun out s => ∀ a, out = .ok a → post a s := tells_op trivial fun _ => h

/-- A status patch that is acknowledged is the last one. -/
lemma tells_patchStatus {name : String} {patch : StatusPatch}
    (hstamped : Stamped s (.patchStatus name patch)) :
    Tells (do OperatorM.ofKube (← OperatorM.op (.patchStatus name patch))) s
      fun out s' => ∀ a, out = .ok a → s' = { s with patch := some patch } := by
  refine Tells.bind (R := fun r s' => r = .ok () → s' = { s with patch := some patch })
    (tells_op hstamped ?_) fun r s' hr => ?_
  · rintro _ rfl
    rfl
  · rcases r with e | ⟨⟩
    · exact tells_ofResult (by rintro _ ⟨⟩)
    · exact tells_ofResult fun _ _ => hr rfl

lemma tells_setPhase (wl : NiphasWorkload) (phase : WorkloadPhase) :
    Tells (setPhase wl phase) s fun out s' => ∀ a, out = .ok a →
      s' = { s with patch := some (phasePatch phase) } :=
  tells_patchStatus fun _ hmem => absurd hmem List.not_mem_nil

lemma tells_setFailed (wl : NiphasWorkload) (reason message : String) :
    Tells (setFailed wl reason message wl.generation) s fun out s' => ∀ a, out = .ok a →
      ∃ patch, s'.patch = some patch ∧ FailureOf wl patch := by
  refine Tells.bind (R := fun now s' => s'.time = some now) (tells_op trivial fun _ => rfl)
    fun now s' hnow => (tells_patchStatus fun condition hmem => ?_).mono ?_
  · obtain rfl := List.mem_singleton.mp hmem
    exact hnow
  · rintro out _ hpatch a ha
    exact ⟨_, congrArg ReconcileNotes.patch (hpatch a ha), reason, message, now, rfl⟩

/-! ## The evaluation -/

/-- What the evaluation has come to. -/
def EvalOutcome (wl : NiphasWorkload) : Except Action EvalResult → ReconcileNotes → Prop
  | .ok r, _ => Uses wl r
  | .error _, s => ∃ patch, s.patch = some patch ∧ FailureOf wl patch

lemma uses_of_needsEval {wl : NiphasWorkload}
    (hneeds : needsEval wl wl.observed wl.generation = true) (r : EvalResult) : Uses wl r :=
  fun hno => absurd (hneeds.symm.trans hno) nofun

lemma tells_evalFresh (timeoutSecs : ℕ) {wl : NiphasWorkload}
    (hneeds : needsEval wl wl.observed wl.generation = true) :
    Tells (evalFresh timeoutSecs wl) s fun out s => ∀ a, out = .ok a → EvalOutcome wl a s := by
  refine Tells.bind (tells_setPhase wl _) fun _ _ _ => ?_
  refine Tells.bind (R := fun _ _ => True) (tells_publishEvent trivial _ _ _) fun _ _ _ => ?_
  refine Tells.bind (R := fun _ _ => True) (tells_op trivial fun _ => trivial) fun reply _ _ => ?_
  split
  · refine Tells.bind (R := fun _ _ => True) (tells_publishEvent trivial _ _ _) fun _ _ _ => ?_
    exact tells_pure (uses_of_needsEval hneeds _)
  · refine Tells.bind (R := fun _ _ => True) (tells_publishEvent trivial _ _ _) fun _ _ _ => ?_
    exact Tells.bind (tells_setFailed wl _ _) fun _ _ hfailed => tells_pure hfailed

lemma tells_evalUncached (timeoutSecs : ℕ) {wl : NiphasWorkload} (huses : ∀ r, Uses wl r) :
    Tells (evalUncached timeoutSecs wl) s fun out s => ∀ a, out = .ok a → EvalOutcome wl a s := by
  refine Tells.bind (tells_setPhase wl _) fun _ _ _ => ?_
  refine Tells.bind (R := fun _ _ => True) (tells_op trivial fun _ => trivial) fun reply _ _ => ?_
  split
  · exact tells_pure (huses _)
  · exact Tells.bind (tells_setFailed wl _ _) fun _ _ hfailed => tells_pure hfailed

lemma tells_evalCached (timeoutSecs : ℕ) (wl : NiphasWorkload) :
    Tells (evalCached timeoutSecs wl) s fun out s => ∀ a, out = .ok a → EvalOutcome wl a s := by
  rw [evalCached]
  split
  next cached hcached =>
    refine tells_ofResult ?_
    rintro _ ⟨⟩ -
    exact .inl hcached
  next hnone => exact tells_evalUncached timeoutSecs fun _ _ => .inr hnone
  next => exact tells_ofResult (by rintro _ ⟨⟩)

/-! ## Provisioning -/

lemma shows_applyChildren (children : List ChildManifest) :
    reconcileMonitor.Shows Stamped (fun _ _ => True) (applyChildren children) s := by
  induction children generalizing s with
  | nil => trivial
  | cons child rest ih =>
      refine ⟨trivial, fun r => ?_⟩
      rcases r with e | ⟨⟩
      · trivial
      · exact ih

lemma tells_countReadyReplicas (wl : NiphasWorkload) :
    Tells (countReadyReplicas wl) s fun out s => ∀ ready, out = .ok ready →
      ∃ deployment, s.deployment = some deployment ∧ ready = Watch.readyReplicas deployment := by
  refine Tells.bind (R := fun (r : Except String (Option (Option Int))) s' =>
    ∀ deployment, r = .ok deployment → s'.deployment = some deployment)
    (tells_op trivial ?_) fun answer s' hanswer => ?_
  · rintro _ deployment rfl
    rfl
  refine Tells.bind (R := fun deployment s' => s'.deployment = some deployment) ?_
    fun deployment _ hread => ?_
  · rcases answer with e | deployment
    · exact tells_ofResult (by rintro _ ⟨⟩)
    · refine tells_ofResult ?_
      rintro _ ⟨⟩
      exact hanswer deployment rfl
  · split
    · exact tells_pure ⟨_, hread, rfl⟩
    · exact tells_pure ⟨_, hread, rfl⟩

/-- All conditions have the same time. -/
lemma time_of_mem_statusConditions {phase : WorkloadPhase} {r : EvalResult} {ready desired : Int}
    {now : String} {generation : Int} {condition : NiphasCondition}
    (h : condition ∈ statusConditions phase r ready desired now generation) :
    condition.lastTransitionTime = now := by
  rw [statusConditions, List.mem_append] at h
  rcases h with h | h
  · rcases List.mem_pair.mp h with rfl | rfl
    · rfl
    · rfl
  · split at h
    · obtain rfl := List.mem_singleton.mp h
      rfl
    · cases h

lemma tells_updateStatus {wl : NiphasWorkload} {r : EvalResult}
    {deployment : Option (Option Int)} {phase : WorkloadPhase} {ready : Int} (huses : Uses wl r)
    (hready : ready = Watch.readyReplicas deployment) (hphase : phase = reportedPhase wl ready)
    (hread : s.deployment = some deployment) :
    Tells (updateStatus wl phase r ready wl.generation) s fun out s' => ∀ a, out = .ok a →
      ∃ patch, s'.patch = some patch ∧ UpdateOf wl s' patch := by
  subst hphase hready
  refine Tells.bind (R := fun now s' => s'.time = some now ∧ s'.deployment = some deployment)
    (tells_op trivial fun _ => ⟨rfl, hread⟩) fun now s' hnow => ?_
  refine (tells_patchStatus fun condition hmem => ?_).mono ?_
  · exact hnow.1.trans (congrArg some (time_of_mem_statusConditions hmem).symm)
  · intro out s'' hpatch a ha
    obtain rfl := hpatch a ha
    exact ⟨_, rfl, r, deployment, now, hnow.2, hnow.1, huses, rfl⟩

/-- What the part behind the evaluation has written. -/
abbrev Written (wl : NiphasWorkload) (s : ReconcileNotes) : Prop :=
  ∃ patch, s.patch = some patch ∧ (FailureOf wl patch ∨ UpdateOf wl s patch)

lemma tells_reportStatus {wl : NiphasWorkload} {r : EvalResult} (huses : Uses wl r) :
    Tells (reportStatus wl r) s fun out s => ∀ a, out = .ok a → Written wl s := by
  refine Tells.bind (R := fun _ _ => True) (tells_publishEvent trivial _ _ _) fun _ _ _ => ?_
  refine Tells.bind (tells_countReadyReplicas wl) fun ready s hread => ?_
  obtain ⟨deployment, hdeployment, hready⟩ := hread
  split
  next hle =>
    refine Tells.bind (R := fun _ s => s.deployment = some deployment)
      (tells_publishEvent hdeployment _ _ _) fun _ s hdeployment => ?_
    refine Tells.bind (tells_updateStatus huses hready (if_pos hle).symm hdeployment) ?_
    rintro _ _ ⟨patch, hpatch, hupdate⟩
    exact tells_pure ⟨patch, hpatch, .inr hupdate⟩
  next hlt =>
    refine Tells.bind (tells_updateStatus huses hready (if_neg hlt).symm hdeployment) ?_
    rintro _ _ ⟨patch, hpatch, hupdate⟩
    exact tells_pure ⟨patch, hpatch, .inr hupdate⟩

lemma tells_provision {wl : NiphasWorkload} {r : EvalResult} (huses : Uses wl r) :
    Tells (provision wl r) s fun out s => ∀ a, out = .ok a → Written wl s := by
  refine Tells.bind (tells_setPhase wl _) fun _ _ _ => ?_
  refine Tells.bind (R := fun _ _ => True) ?_ fun applied _ _ => ?_
  · exact Monitor.Shows.bind ((shows_applyChildren _).mono fun _ _ _ _ _ => trivial)
  split
  · exact tells_reportStatus huses
  · refine Tells.bind (tells_setFailed wl _ _) ?_
    rintro _ _ ⟨patch, hpatch, hfailed⟩
    exact tells_pure ⟨patch, hpatch, .inl hfailed⟩

end Parts

/-- **The outcome of a reconcile**, told from what it has read and written. -/
lemma shows_reconcile (timeoutSecs : ℕ) (wl : NiphasWorkload) :
    Tells (reconcile timeoutSecs wl) {} (Outcome wl) := by
  have hnone : ∀ {s : ReconcileNotes}, ¬ Pending wl → s.patch = none →
      ¬ Pending wl ∧ s.patch = none ∨ Pending wl ∧ Written wl s := fun h hs => .inl ⟨h, hs⟩
  have hfinalizers : ∀ {s : ReconcileNotes} (name : String) (finalizers : Option (List String)),
      s.patch = none → Tells (do
        OperatorM.ofKube (← OperatorM.op (.patchFinalizers name finalizers))) s
        fun out s => ∀ a, out = .ok a → s.patch = none := by
    intro s name finalizers hs
    refine Tells.bind (R := fun _ s => s.patch = none)
      (tells_op trivial fun _ => hs) fun r _ hs => ?_
    rcases r with e | ⟨⟩
    · exact tells_ofResult (by rintro _ ⟨⟩)
    · exact tells_ofResult fun _ _ => hs
  rw [reconcile]
  split
  next hdeleted =>
    have hnot : ¬ Pending wl := fun h => by rw [h.live] at hdeleted; cases hdeleted
    refine Tells.bind (R := fun _ s => s.patch = none)
      (tells_publishEvent rfl _ _ _) fun _ s hs => ?_
    exact Tells.bind (hfinalizers _ _ hs) fun _ _ hs => tells_pure (hnone hnot hs)
  split
  next hbare =>
    have hnot : ¬ Pending wl := fun h => hbare h.finalized
    exact Tells.bind (hfinalizers _ _ rfl) fun _ _ hs => tells_pure (hnone hnot hs)
  split
  next hearly => exact tells_pure (hnone (fun h => h.waits hearly) rfl)
  next hdeleted hbare hearly =>
  have hpending : Pending wl :=
    ⟨Option.not_isSome_iff_eq_none.mp hdeleted, not_not.mp hbare, hearly⟩
  have hrest : ∀ outcome s, EvalOutcome wl outcome s → Tells (afterEval wl outcome) s
      fun out s => ∀ a, out = .ok a →
        ¬ Pending wl ∧ s.patch = none ∨ Pending wl ∧ Written wl s := by
    rintro (action | r) s heval
    · obtain ⟨patch, hpatch, hfailed⟩ := heval
      exact tells_pure (.inr ⟨hpending, patch, hpatch, .inl hfailed⟩)
    · exact (tells_provision heval).mono fun _ _ hwritten a ha => .inr ⟨hpending, hwritten a ha⟩
  split
  next hneeds => exact Tells.bind (tells_evalFresh timeoutSecs hneeds) hrest
  next => exact Tells.bind (tells_evalCached timeoutSecs wl) hrest

end Niphas
