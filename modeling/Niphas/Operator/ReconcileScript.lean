import Niphas.Lib.Account
import Niphas.Operator.ReconcileNotes

/-!
# The script of a reconcile

Which calls a reconcile makes, in which order and with what, and what it returns in the end, as far
as its own calls tell: the result it has, the phase it has written last, the children it has
applied.

Nothing in it is about a cluster.  `Next` has one constructor for each kind of call, with what must
have come before it: the phase is brought up to date behind the applies of *all* children, with the
result they were rendered from, and `Failed` is written from two phases only.  So it is here that
one reads off which ways through `reconcile` there are.

Two accounts are built on it, of the children and the status where reconciles take turns
(`SerialRuns`), and of where results come from (`Provenance`).

* `Script.Next` — the calls that may come next.
* `Script.Ends` — what is returned: the error of the API server, a panic of the store path parser,
  or an action that goes with the phase written last.
* `follows_reconcile` — every reconcile keeps to both, whatever its calls answer.
-/

namespace Niphas

/-! ## The notes -/

/-- What is noted of a reconcile: the result the webhook has answered with, the phase of the last
status patch if it was acknowledged, and the children whose applies were. -/
structure Script where
  answer : Option EvalResult := none
  phase : Option WorkloadPhase := none
  applied : List ChildManifest := []

namespace Script

/-- What a call adds to the notes. -/
def note (s : Script) : (o : KubeOp) → kubeInterface.Answer o → Script
  | .evaluate _, .success (.ok r) => { s with answer := some r }
  | .patchStatus _ patch, .ok () => { s with phase := patch.phase }
  | .patchStatus _ _, .error _ => { s with phase := none }
  | .apply child, .ok () => { s with applied := s.applied ++ [child] }
  | _, _ => s

/-- The result a reconcile of `wl` works with: what the webhook has answered, or what the status
says where it need not be asked. -/
def HasResult (s : Script) (wl : NiphasWorkload) (r : EvalResult) : Prop :=
  s.answer = some r ∨ s.answer = none ∧ needsEval wl wl.observed wl.generation = false ∧
    EvalResult.fromStatus (wl.status.getD {}) = .ok (some r)

/-! ## The script -/

/-- The calls that may come next. -/
inductive Next (wl : NiphasWorkload) (s : Script) : KubeOp → Prop
  | publishEvent {type : EventType} {reason note : String} :
      Next wl s (.publishEvent type reason note)
  | now : Next wl s .now
  | patchFinalizers {finalizers : Option (List String)} : ¬ Pending wl →
      Next wl s (.patchFinalizers wl.nameAny finalizers)
  | evaluating : Pending wl → s = {} →
      Next wl s (.patchStatus wl.nameAny (phasePatch .evaluating))
  | evaluate : s = { phase := some .evaluating } →
      Next wl s (.evaluate (EvalRequest.ofSpec wl.spec))
  | provisioning {r : EvalResult} : Pending wl → s.HasResult wl r → s.applied = [] →
      s.phase = none ∨ s.phase = some .evaluating →
        Next wl s (.patchStatus wl.nameAny (phasePatch .provisioning))
  | apply {r : EvalResult} {child : ChildManifest} {rest : List ChildManifest} :
      s.HasResult wl r → s.phase = some .provisioning →
        childManifests wl r = s.applied ++ child :: rest → Next wl s (.apply child)
  | getDeployment : s.phase = some .provisioning → Next wl s (.getDeployment wl.nameAny)
  | failed {reason message now : String} :
      s.phase = some .evaluating ∨ s.phase = some .provisioning →
        Next wl s (.patchStatus wl.nameAny (failedPatch reason message now wl.generation))
  | status {r : EvalResult} {ready : Int} {now : String} : s.HasResult wl r →
      s.phase = some .provisioning → s.applied = childManifests wl r →
        Next wl s (.patchStatus wl.nameAny
          (statusPatch (reportedPhase wl ready) r ready wl.desired now wl.generation))

/-- What a reconcile returns. -/
inductive Ends (wl : NiphasWorkload) : Except OperatorFault Action → Script → Prop
  | deleted {s : Script} : wl.metadata.deletionTimestamp.isSome → s.phase = none →
      Ends wl (.ok .awaitChange) s
  | bare {s : Script} : wl.metadata.deletionTimestamp = none → wl.hasFinalizer = false →
      s.phase = none → Ends wl (.ok (.requeue 0)) s
  | settled {s : Script} : ¬ Pending wl → wl.generation ≤ wl.observed →
      wl.status.map (·.phase) = some .running → s.phase = none → Ends wl (.ok (.requeue 300)) s
  | unevaluated {s : Script} : Pending wl → s.phase = some .failed → Ends wl (.ok (.requeue 30)) s
  | unprovisioned {s : Script} : Pending wl → s.phase = some .failed →
      Ends wl (.ok (.requeue 10)) s
  | running {s : Script} : Pending wl → s.phase = some .running → Ends wl (.ok (.requeue 300)) s
  | provisioning {s : Script} : Pending wl → s.phase = some .provisioning →
      Ends wl (.ok (.requeue 5)) s
  | kube {s : Script} {e : String} : Ends wl (.error (.err (.kube e))) s
  | panic {s : Script} {f : Fault} : EvalResult.fromStatus (wl.status.getD {}) = .error f →
      Ends wl (.error .panic) s

end Script

/-- The monitor of the script. -/
def scriptMonitor : Monitor kubeInterface where
  Notes := Script
  start := {}
  note := Script.note

/-! ## The parts of a reconcile -/

section Parts

open Script

variable {wl : NiphasWorkload} {s : Script} {α : Type}

/-- A part of a reconcile has returned a value with `post`, or it has failed as a reconcile may. -/
def Script.Comes (wl : NiphasWorkload) (post : α → Script → Prop) :
    Except OperatorFault α → Script → Prop
  | .ok a, s => post a s
  | .error f, s => Ends wl (.error f) s

/-- A part of a reconcile of `wl` follows the script from the notes `s` on. -/
abbrev Follows (wl : NiphasWorkload) (prog : OperatorM α) (s : Script)
    (post : α → Script → Prop) : Prop :=
  scriptMonitor.Shows (Next wl) (Comes wl post) prog.run s

lemma Follows.bind {β : Type} {prog : OperatorM α} {f : α → OperatorM β} {R : α → Script → Prop}
    {post : β → Script → Prop} (h : Follows wl prog s R)
    (hf : ∀ a s, R a s → Follows wl (f a) s post) : Follows wl (prog >>= f) s post :=
  Monitor.Shows.bindExcept h hf fun _ _ hends => hends

lemma follows_pure {a : α} {post : α → Script → Prop} (h : post a s) :
    Follows wl (pure a) s post := h

lemma follows_op {o : KubeOp} {post : kubeInterface.Answer o → Script → Prop} (ho : Next wl s o)
    (hpost : ∀ r, post r (s.note o r)) : Follows wl (OperatorM.op o) s post := ⟨ho, hpost⟩

lemma follows_publishEvent (type : EventType) (reason note : String) :
    Follows wl (OperatorM.op (.publishEvent type reason note)) s fun _ s' => s' = s :=
  follows_op .publishEvent fun _ => rfl

/-- A status patch that is acknowledged is noted. -/
lemma follows_patchStatus {name : String} {patch : StatusPatch}
    (h : Next wl s (.patchStatus name patch)) :
    Follows wl (do OperatorM.ofKube (← OperatorM.op (.patchStatus name patch))) s
      fun _ s' => s' = { s with phase := patch.phase } := by
  refine ⟨h, fun r => ?_⟩
  rcases r with e | ⟨⟩
  · exact .kube
  · exact rfl

lemma follows_patchFinalizers (h : ¬ Pending wl) (finalizers : Option (List String)) :
    Follows wl (do OperatorM.ofKube (← OperatorM.op (.patchFinalizers wl.nameAny finalizers))) s
      fun _ s' => s' = s := by
  refine ⟨.patchFinalizers h, fun r => ?_⟩
  rcases r with e | ⟨⟩
  · exact .kube
  · exact rfl

lemma follows_setFailed (reason message : String)
    (h : s.phase = some .evaluating ∨ s.phase = some .provisioning) :
    Follows wl (setFailed wl reason message wl.generation) s
      fun _ s' => s'.phase = some .failed := by
  refine Follows.bind (R := fun _ s' => s' = s) (follows_op .now fun _ => rfl) ?_
  rintro now _ rfl
  exact (follows_patchStatus (.failed h)).mono (by
    rintro (f | ⟨⟩) _ hs
    · exact hs
    · exact congrArg Script.phase hs)

/-! ## The evaluation -/

/-- What the evaluation has come to. -/
def EvalEnds (wl : NiphasWorkload) : Except Action EvalResult → Script → Prop
  | .ok r, s => s.HasResult wl r ∧ s.applied = [] ∧ (s.phase = none ∨ s.phase = some .evaluating)
  | .error action, s => action = .requeue 30 ∧ s.phase = some .failed

/-- The call of the webhook. -/
lemma follows_evaluate :
    Follows wl (OperatorM.op (.evaluate (EvalRequest.ofSpec wl.spec)))
      { phase := some .evaluating } fun reply s' => s'.phase = some .evaluating ∧ s'.applied = [] ∧
        ∀ r, reply = .success (.ok r) → s'.answer = some r := by
  refine follows_op (.evaluate rfl) fun reply => ?_
  rcases reply with ⟨_, _⟩ | (_ | r) | ⟨_, _, _⟩
  · exact ⟨rfl, rfl, nofun⟩
  · exact ⟨rfl, rfl, nofun⟩
  · refine ⟨rfl, rfl, ?_⟩
    rintro _ ⟨⟩
    rfl
  · exact ⟨rfl, rfl, nofun⟩

lemma follows_evalFresh (timeoutSecs : ℕ) (h : Pending wl) :
    Follows wl (evalFresh timeoutSecs wl) {} (EvalEnds wl) := by
  refine Follows.bind (follows_patchStatus (.evaluating h rfl)) ?_
  rintro _ _ rfl
  refine Follows.bind (follows_publishEvent _ _ _) ?_
  rintro _ _ rfl
  refine Follows.bind follows_evaluate fun reply s hreply => ?_
  obtain ⟨hphase, happlied, hanswer⟩ := hreply
  split
  next r hr =>
    refine Follows.bind (follows_publishEvent _ _ _) ?_
    rintro _ _ rfl
    exact follows_pure
      ⟨.inl (hanswer r (WebhookReply.result_eq_ok.mp hr)), happlied, .inr hphase⟩
  next =>
    refine Follows.bind (follows_publishEvent _ _ _) ?_
    rintro _ _ rfl
    exact Follows.bind (follows_setFailed _ _ (.inl hphase)) fun _ _ hs => follows_pure ⟨rfl, hs⟩

lemma follows_evalUncached (timeoutSecs : ℕ) (h : Pending wl) :
    Follows wl (evalUncached timeoutSecs wl) {} (EvalEnds wl) := by
  refine Follows.bind (follows_patchStatus (.evaluating h rfl)) ?_
  rintro _ _ rfl
  refine Follows.bind follows_evaluate fun reply s hreply => ?_
  obtain ⟨hphase, happlied, hanswer⟩ := hreply
  split
  next r hr =>
    exact follows_pure
      ⟨.inl (hanswer r (WebhookReply.result_eq_ok.mp hr)), happlied, .inr hphase⟩
  next =>
    exact Follows.bind (follows_setFailed _ _ (.inl hphase)) fun _ _ hs => follows_pure ⟨rfl, hs⟩

lemma follows_evalCached (timeoutSecs : ℕ) (h : Pending wl)
    (hneeds : needsEval wl wl.observed wl.generation = false) :
    Follows wl (evalCached timeoutSecs wl) {} (EvalEnds wl) := by
  rw [evalCached]
  split
  next cached hcached => exact ⟨.inr ⟨rfl, hneeds, hcached⟩, rfl, .inl rfl⟩
  next => exact follows_evalUncached timeoutSecs h
  next f hf => exact .panic hf

/-! ## Provisioning -/

/-- The children are applied in their order. -/
lemma shows_applyAll {r : EvalResult} {children : List ChildManifest} (hresult : s.HasResult wl r)
    (hphase : s.phase = some .provisioning)
    (hall : childManifests wl r = s.applied ++ children) :
    scriptMonitor.Shows (Next wl) (fun res s' => s'.HasResult wl r ∧ s'.phase = some .provisioning ∧
      (res = .ok () → s'.applied = childManifests wl r)) (applyChildren children) s := by
  induction children generalizing s with
  | nil =>
      rw [List.append_nil] at hall
      exact ⟨hresult, hphase, fun _ => hall.symm⟩
  | cons child rest ih =>
      refine ⟨.apply hresult hphase hall, fun res => ?_⟩
      rcases res with e | ⟨⟩
      · exact ⟨hresult, hphase, nofun⟩
      · refine ih hresult hphase ?_
        rw [hall]
        exact (List.append_cons _ _ _)

/-- The deployment is read. -/
lemma follows_countReadyReplicas (h : s.phase = some .provisioning) :
    Follows wl (countReadyReplicas wl) s fun _ s' => s' = s := by
  refine Follows.bind (R := fun _ s' => s' = s) (follows_op (.getDeployment h) fun r => ?_) ?_
  · rcases r with e | deployment
    · rfl
    · rfl
  rintro answer s rfl
  refine Follows.bind (R := fun _ s' => s' = s) ?_ ?_
  · rcases answer with e | deployment
    · exact .kube
    · exact rfl
  · rintro deployment _ rfl
    split
    · exact follows_pure rfl
    · exact follows_pure rfl

lemma follows_updateStatus {r : EvalResult} {phase : WorkloadPhase} {ready : Int}
    (hphase : phase = reportedPhase wl ready) (hresult : s.HasResult wl r)
    (hs : s.phase = some .provisioning) (happlied : s.applied = childManifests wl r) :
    Follows wl (updateStatus wl phase r ready wl.generation) s
      fun _ s' => s'.phase = some phase := by
  subst hphase
  refine Follows.bind (R := fun _ s' => s' = s) (follows_op .now fun _ => rfl) ?_
  rintro now _ rfl
  exact (follows_patchStatus (.status hresult hs happlied)).mono (by
    rintro (f | ⟨⟩) _ hs
    · exact hs
    · exact congrArg Script.phase hs)

/-- A reconcile of `wl` that returns an action. -/
abbrev Ending (wl : NiphasWorkload) : Action → Script → Prop := fun action => Ends wl (.ok action)

lemma follows_reportStatus {r : EvalResult} (h : Pending wl) (hresult : s.HasResult wl r)
    (hs : s.phase = some .provisioning) (happlied : s.applied = childManifests wl r) :
    Follows wl (reportStatus wl r) s (Ending wl) := by
  refine Follows.bind (follows_publishEvent _ _ _) ?_
  rintro _ _ rfl
  refine Follows.bind (follows_countReadyReplicas hs) ?_
  rintro ready _ rfl
  split
  next hle =>
    refine Follows.bind (follows_publishEvent _ _ _) ?_
    rintro _ _ rfl
    exact Follows.bind (follows_updateStatus (if_pos hle).symm hresult hs happlied)
      fun _ _ hphase => follows_pure (.running h hphase)
  next hlt =>
    exact Follows.bind (follows_updateStatus (if_neg hlt).symm hresult hs happlied)
      fun _ _ hphase => follows_pure (.provisioning h hphase)

lemma follows_provision {r : EvalResult} (h : Pending wl) (hresult : s.HasResult wl r)
    (happlied : s.applied = []) (hs : s.phase = none ∨ s.phase = some .evaluating) :
    Follows wl (provision wl r) s (Ending wl) := by
  refine Follows.bind (follows_patchStatus (.provisioning h hresult happlied hs)) ?_
  rintro _ _ rfl
  refine Follows.bind (R := fun res s' => s'.HasResult wl r ∧ s'.phase = some .provisioning ∧
    (res = .ok () → s'.applied = childManifests wl r)) ?_ fun res s' hres => ?_
  · have hall : childManifests wl r = s.applied ++ childManifests wl r := by
      rw [happlied, List.nil_append]
    exact Monitor.Shows.bind ((shows_applyAll (s := { s with phase := some .provisioning })
      hresult rfl hall).mono fun _ _ hres => hres)
  obtain ⟨hresult', hphase', happlied'⟩ := hres
  split
  · exact follows_reportStatus h hresult' hphase' (happlied' rfl)
  · exact Follows.bind (follows_setFailed _ _ (.inr hphase'))
      fun _ _ hphase => follows_pure (.unprovisioned h hphase)

end Parts

/-! ## The reconcile -/

open Script in
/-- **Every reconcile follows the script.** -/
theorem follows_reconcile (timeoutSecs : ℕ) (wl : NiphasWorkload) :
    scriptMonitor.Shows (Next wl) (Ends wl) (reconcile timeoutSecs wl).run {} := by
  suffices h : Follows wl (reconcile timeoutSecs wl) {} (Ending wl) from
    Monitor.Shows.mono h (by
      rintro (f | action) _ hends
      · exact hends
      · exact hends)
  rw [reconcile]
  split
  next hdeleted =>
    have hnot : ¬ Pending wl := fun h => by rw [h.live] at hdeleted; cases hdeleted
    refine Follows.bind (follows_publishEvent _ _ _) ?_
    rintro _ _ rfl
    refine Follows.bind (follows_patchFinalizers hnot _) ?_
    rintro _ _ rfl
    exact follows_pure (.deleted hdeleted rfl)
  next hlive =>
  split
  next hbare =>
    have hnot : ¬ Pending wl := fun h => hbare h.finalized
    refine Follows.bind (follows_patchFinalizers hnot _) ?_
    rintro _ _ rfl
    exact follows_pure (.bare (Option.not_isSome_iff_eq_none.mp hlive)
      (Bool.eq_false_of_not_eq_true hbare) rfl)
  next hfinalized =>
  split
  next hearly => exact follows_pure (.settled (fun h => h.waits hearly) hearly.1 hearly.2 rfl)
  next hwaits =>
  have hpending : Pending wl :=
    ⟨Option.not_isSome_iff_eq_none.mp hlive, not_not.mp hfinalized, hwaits⟩
  have hrest : ∀ outcome s, EvalEnds wl outcome s → Follows wl (afterEval wl outcome) s
      (Ending wl) := by
    rintro (action | r) s heval
    · obtain ⟨rfl, hphase⟩ := heval
      exact follows_pure (.unevaluated hpending hphase)
    · exact follows_provision hpending heval.1 heval.2.1 heval.2.2
  split
  next => exact Follows.bind (follows_evalFresh timeoutSecs hpending) hrest
  next hneeds =>
    exact Follows.bind
      (follows_evalCached timeoutSecs hpending (Bool.eq_false_of_not_eq_true hneeds)) hrest

end Niphas
