import Niphas.Lib.Alone
import Niphas.Operator.SerialRuns

/-!
# Coming to rest

A reconcile leaves a workload in whatever state its last call has put it in, and a crash may cut it
short.  What follows is about the reconciles after that, each from the version that is stored, with
calls that succeed.  Pods come and go in between, and nobody edits the workload.

What is to be shown is a liveness property: that something is reached, and not only that nothing
wrong is.  A triple that speaks of the calls that return says nothing about that, so the parts of
`reconcile` are taken through the rules of `Alone`, which promise an answer to every call and a
return at the end.  Of the answers, no more is used than that they are no errors, and that the
webhook has one result; how many replicas are ready is left to the pods.

Whether the workload comes to rest also depends on where it starts.  A status that says `Running` at
its generation is believed (`Settled`), whatever is in the cluster, so a workload that somebody has
stored in this way without its children is never provided with them.  `Rollout.Provided` excludes
that.  A new workload has it, and every reconcile keeps it.

* `KubeOp.Succeeds` — the answers of such calls.
* `does_reconcile` — what one of these reconciles makes of a workload: it gets its finalizer, or is
  settled already, or is brought up to date.
* `converges` — from the second one on, the first that finds enough ready replicas settles the
  workload, whatever its phase and conditions have been, and those after it leave it alone.
-/

namespace Niphas

open System

/-! ## Calls that succeed

A status that is written in a reconcile is read back in the next one, and the parser of store paths
may panic on what it finds there.  So the result of the webhook has to be one that can be read back.
-/

/-- The call succeeds, and the webhook answers with `r`. -/
def KubeOp.Succeeds (r : EvalResult) : (o : KubeOp) → kubeInterface.Answer o → Prop
  | .patchStatus _ _, answer => answer = .ok ()
  | .patchFinalizers _ _, answer => answer = .ok ()
  | .apply _, answer => answer = .ok ()
  | .getDeployment _, answer => ∃ deployment, answer = .ok deployment
  | .evaluate _, answer => answer = .success (.ok r)
  | _, _ => True

/-- The store path of the result can be read back. -/
def EvalResult.Readable (r : EvalResult) : Prop := StorePath.parse r.storePath ≠ .error .panic

/-- The result in the status can be read back, if there is one. -/
def NiphasWorkloadStatus.Readable (st : NiphasWorkloadStatus) : Prop :=
  ∀ path, st.storePath = some path → StorePath.parse path ≠ .error .panic

lemma NiphasWorkloadStatus.Readable.fromStatus {st : NiphasWorkloadStatus} (h : st.Readable)
    (f : Fault) : EvalResult.fromStatus st ≠ .error f := by
  intro hfault
  unfold EvalResult.fromStatus at hfault
  split at hfault
  · cases hfault
  next path hpath =>
  split at hfault
  · cases hfault
  · cases hfault
  next hparse => exact h path hpath hparse

namespace Rollout

/-- The calls considered. -/
abbrev Succeeding (timeoutSecs : ℕ) (r : EvalResult) : (rolloutSystem timeoutSecs).OpCond :=
  fun _ o answer _ => o.Succeeds r answer

/-- A reconcile of the stored version, with nothing in between. -/
abbrev Undisturbed (timeoutSecs : ℕ) (r : EvalResult) (w : Rollout)
    (out : Except OperatorFault Action) (w' : Rollout) : Prop :=
  Solo (rolloutSystem timeoutSecs) (Succeeding timeoutSecs r) 0
    (reconcile timeoutSecs w.object).run (w.began 0) out w'

/-- What a part of a reconcile leaves. -/
structure Becomes (w w' : Rollout) (cluster : Cluster) (children : Children) : Prop where
  cluster : w'.cluster = cluster
  children : w'.children = children
  counted : w'.counted = w.counted

/-- A workload that is settled: a reconcile of it has nothing to do. -/
structure Settled (wl : NiphasWorkload) : Prop where
  live : wl.metadata.deletionTimestamp = none
  finalized : wl.hasFinalizer = true
  observed : wl.generation ≤ wl.observed
  running : wl.status.map (·.phase) = some .running

section Parts

variable {timeoutSecs p : ℕ} {r : EvalResult} {w : Rollout} {α β : Type}

/-- A part of a reconcile, run alone. -/
abbrev Does (timeoutSecs p : ℕ) (r : EvalResult) (prog : OperatorM α) (w : Rollout)
    (post : α → Rollout → Prop) : Prop :=
  AloneOk (S := rolloutSystem timeoutSecs) (Succeeding timeoutSecs r) p prog w post

lemma Does.mono {prog : OperatorM α} {post post' : α → Rollout → Prop}
    (h : Does timeoutSecs p r prog w post) (himp : ∀ a w', post a w' → post' a w') :
    Does timeoutSecs p r prog w post' := AloneOk.mono h himp

lemma Does.bind {prog : OperatorM α} {f : α → OperatorM β} {post : β → Rollout → Prop}
    (h : Does timeoutSecs p r prog w fun a w' => Does timeoutSecs p r (f a) w' post) :
    Does timeoutSecs p r (prog >>= f) w post := AloneOk.bind h

/-- A call that leaves the cluster and the children alone. -/
lemma does_quiet {o : KubeOp} {a : kubeInterface.Answer o}
    (hs : ∀ answer cluster, o.Sem w.cluster answer cluster → cluster = w.cluster)
    (hc : ∀ answer children, o.ChildSem w.children answer children → children = w.children)
    (hsome : o.Effect p w a { w.note p o with cluster := w.cluster, children := w.children })
    (hq : o.Succeeds r a) :
    Does timeoutSecs p r (OperatorM.op o) w fun answer w' =>
      o.Succeeds r answer ∧ o.Answers w answer ∧ w.Becomes w' w.cluster w.children := by
  refine aloneOk_lift (alone_op ⟨a, _, hsome, hq⟩ ?_)
  rintro answer' _ ⟨cluster, children, hs', hc', hanswer, rfl⟩ hq'
  exact ⟨hq', hanswer, hs _ _ hs', hc _ _ hc', note_counted w p o⟩

lemma does_publishEvent (type : EventType) (reason note : String) :
    Does timeoutSecs p r (OperatorM.op (.publishEvent type reason note)) w fun _ w' =>
      w.Becomes w' w.cluster w.children :=
  (does_quiet (o := .publishEvent type reason note) (a := ()) (fun _ _ h => h) (fun _ _ h => h)
    ⟨_, _, rfl, rfl, trivial, rfl⟩ trivial).mono fun _ _ h => h.2.2

lemma does_now : Does timeoutSecs p r (OperatorM.op .now) w fun _ w' =>
    w.Becomes w' w.cluster w.children :=
  (does_quiet (o := .now) (a := "") (fun _ _ h => h) (fun _ _ h => h)
    ⟨_, _, rfl, rfl, trivial, rfl⟩ trivial).mono fun _ _ h => h.2.2

lemma does_patchStatus (name : String) (patch : StatusPatch) :
    Does timeoutSecs p r (do OperatorM.ofKube (← OperatorM.op (.patchStatus name patch))) w
      fun _ w' => w.Becomes w' (w.cluster.patchStatus patch) w.children := by
  have hsome : KubeOp.Effect p (.patchStatus name patch) w (.ok ())
      { w.note p (.patchStatus name patch) with
        cluster := w.cluster.patchStatus patch, children := w.children } :=
    ⟨_, _, .inl rfl, rfl, trivial, rfl⟩
  refine Does.bind (aloneOk_lift (alone_op ⟨_, _, hsome, rfl⟩ ?_))
  rintro answer w' ⟨cluster, children, hs, hc, -, rfl⟩ hq
  obtain rfl : answer = .ok () := hq
  rcases hs with rfl | ⟨⟨e, he⟩, -⟩
  · exact aloneOk_pure ⟨rfl, hc, note_counted _ _ _⟩
  · cases he

/-! ## The evaluation -/

/-- A part of a reconcile leaves the object, but for its status, and the children alone. -/
structure Keeps (w w' : Rollout) : Prop where
  metadata : w'.object.metadata = w.object.metadata
  spec : w'.object.spec = w.object.spec
  children : w'.children = w.children
  counted : w'.counted = w.counted

lemma Keeps.refl (w : Rollout) : w.Keeps w := ⟨rfl, rfl, rfl, rfl⟩

lemma Keeps.trans {w₁ w₂ w₃ : Rollout} (h : w₁.Keeps w₂) (h' : w₂.Keeps w₃) : w₁.Keeps w₃ :=
  ⟨h'.metadata.trans h.metadata, h'.spec.trans h.spec, h'.children.trans h.children,
    h'.counted.trans h.counted⟩

lemma Becomes.keeps {w' : Rollout} {cluster : Cluster} (h : w.Becomes w' cluster w.children)
    (hmetadata : cluster.object.metadata = w.object.metadata)
    (hspec : cluster.object.spec = w.object.spec) : w.Keeps w' := by
  refine ⟨?_, ?_, h.children, h.counted⟩
  · rw [object, h.cluster, hmetadata]
  · rw [object, h.cluster, hspec]

lemma does_setPhase (wl : NiphasWorkload) (phase : WorkloadPhase) :
    Does timeoutSecs p r (setPhase wl phase) w fun _ w' => w.Keeps w' :=
  (does_patchStatus wl.nameAny (phasePatch phase)).mono fun _ _ h => h.keeps rfl rfl

lemma does_evaluate (req : EvalRequest) :
    Does timeoutSecs p r (OperatorM.op (.evaluate req)) w fun reply w' =>
      reply = .success (.ok r) ∧ w.Keeps w' := by
  have hsome : KubeOp.Effect p (.evaluate req) w (.success (.ok r))
      { w with cluster := w.cluster.record req (.success (.ok r)) } :=
    ⟨_, w.children, rfl, rfl, trivial, rfl⟩
  refine aloneOk_lift (alone_op ⟨_, _, hsome, rfl⟩ ?_)
  rintro reply _ ⟨cluster, children, rfl, rfl, -, rfl⟩ hq
  exact ⟨hq, rfl, rfl, rfl, rfl⟩

/-- A result that can be read back, and nothing else has changed. -/
def Resolves (w : Rollout) : Except Action EvalResult → Rollout → Prop :=
  fun outcome w' => (∃ r', outcome = .ok r' ∧ r'.Readable) ∧ w.Keeps w'

lemma does_evalFresh (wl : NiphasWorkload) (hr : r.Readable) :
    Does timeoutSecs p r (evalFresh timeoutSecs wl) w w.Resolves := by
  refine Does.bind ((does_setPhase wl .evaluating).mono fun _ w₁ h₁ => ?_)
  refine Does.bind ((does_publishEvent _ _ _).mono fun _ w₂ h₂ => ?_)
  refine Does.bind ((does_evaluate _).mono fun reply w₃ h₃ => ?_)
  obtain ⟨rfl, h₃⟩ := h₃
  refine Does.bind ((does_publishEvent _ _ _).mono fun _ w₄ h₄ => ?_)
  exact aloneOk_pure ⟨⟨r, rfl, hr⟩,
    ((h₁.trans (h₂.keeps rfl rfl)).trans h₃).trans (h₄.keeps rfl rfl)⟩

lemma does_evalUncached (wl : NiphasWorkload) (hr : r.Readable) :
    Does timeoutSecs p r (evalUncached timeoutSecs wl) w w.Resolves := by
  refine Does.bind ((does_setPhase wl .evaluating).mono fun _ w₁ h₁ => ?_)
  refine Does.bind ((does_evaluate _).mono fun reply w₂ h₂ => ?_)
  obtain ⟨rfl, h₂⟩ := h₂
  exact aloneOk_pure ⟨⟨r, rfl, hr⟩, h₁.trans h₂⟩

lemma does_evalCached (wl : NiphasWorkload) (hr : r.Readable)
    (hreadable : (wl.status.getD {}).Readable) :
    Does timeoutSecs p r (evalCached timeoutSecs wl) w w.Resolves := by
  rw [evalCached]
  split
  next cached hcached =>
    exact ⟨_, rfl, ⟨cached, rfl, hreadable _ (EvalResult.fromStatus_eq_some hcached).1⟩, .refl w⟩
  next => exact does_evalUncached wl hr
  next f hf => exact absurd hf (hreadable.fromStatus f)

/-! ## Provisioning -/

lemma alone_applyChildren (children : List ChildManifest) :
    Alone (S := rolloutSystem timeoutSecs) (Succeeding timeoutSecs r) p (applyChildren children) w
      fun out w' => out = .ok () ∧ w.Becomes w' w.cluster (w.children.applyAll children) := by
  induction children generalizing w with
  | nil => exact ⟨rfl, rfl, rfl, rfl⟩
  | cons child rest ih =>
      have hsome : KubeOp.Effect p (.apply child) w (.ok ())
          { w.note p (.apply child) with
            cluster := w.cluster, children := w.children.apply child } :=
        ⟨_, _, rfl, .inl rfl, trivial, rfl⟩
      refine Alone.bind (alone_op ⟨_, _, hsome, rfl⟩ ?_)
      rintro answer _ ⟨cluster, children, rfl, hc, -, rfl⟩ hq
      obtain rfl : answer = .ok () := hq
      rcases hc with rfl | ⟨⟨e, he⟩, -⟩
      · refine ih.mono fun out w' h => ?_
        obtain ⟨hout, hcluster, hchildren, hcounted⟩ := h
        exact ⟨hout, hcluster, hchildren, hcounted.trans (note_counted w p _)⟩
      · cases he

/-- The ready replicas of the Deployment that is there. -/
lemma does_countReadyReplicas (wl : NiphasWorkload) (hlive : w.live.isSome) :
    Does timeoutSecs p r (countReadyReplicas wl) w fun ready w' =>
      ready = w.counted.card ∧ w.Becomes w' w.cluster w.children := by
  have hread := @does_quiet timeoutSecs p r w (.getDeployment wl.nameAny)
    (.ok (some (some w.counted.card))) (fun _ _ h => h) (fun _ _ h => h)
    ⟨_, _, rfl, rfl, .inr (.inr ⟨hlive, _, rfl, rfl⟩), rfl⟩ ⟨_, rfl⟩
  refine Does.bind (hread.mono fun answer w' h => ?_)
  obtain ⟨⟨deployment, rfl⟩, hanswer, hbecomes⟩ := h
  rcases hanswer with ⟨e, he⟩ | ⟨hnone, -⟩ | ⟨-, ready, hready, hcard⟩
  · cases he
  · rw [hnone] at hlive
    cases hlive
  · cases hready
    exact Does.bind (aloneOk_pure (aloneOk_pure ⟨hcard, hbecomes⟩))

/-- The workload has been brought up to date: its status reports a result, for which all children
are there, and the next reconcile comes with the phase. -/
structure Updated (w : Rollout) (wl : NiphasWorkload) (action : Action) (w' : Rollout) : Prop where
  metadata : w'.object.metadata = w.object.metadata
  spec : w'.object.spec = w.object.spec
  status : ∃ r now prior, r.Readable ∧ w'.object.status = some ((statusPatch
    (reportedPhase wl w.counted.card) r w.counted.card wl.desired now wl.generation).apply prior) ∧
      w'.Live (childManifests wl r)
  counted : w'.counted = w.counted
  action : action = .requeue (if wl.desired ≤ w.counted.card then 300 else 5)

lemma does_updateStatus (wl : NiphasWorkload) (phase : WorkloadPhase) (r' : EvalResult)
    (ready : Int) : Does timeoutSecs p r (updateStatus wl phase r' ready wl.generation) w
      fun _ w' => ∃ now, w.Becomes w' (w.cluster.patchStatus
        (statusPatch phase r' ready wl.desired now wl.generation)) w.children := by
  refine Does.bind (does_now.mono fun now w₁ h₁ => ?_)
  refine (does_patchStatus _ _).mono fun _ w' h => ⟨now, ?_, ?_, ?_⟩
  · rw [h.cluster, h₁.cluster]
  · rw [h.children, h₁.children]
  · rw [h.counted, h₁.counted]

lemma does_reportStatus (wl : NiphasWorkload) {r' : EvalResult} (hr : r'.Readable)
    (hlive : w.live.isSome) (hchildren : w.Live (childManifests wl r')) :
    Does timeoutSecs p r (reportStatus wl r') w fun action w' => w.Updated wl action w' := by
  have hend : ∀ {phase action w₁}, w.Becomes w₁ w.cluster w.children →
      phase = reportedPhase wl w.counted.card →
      action = .requeue (if wl.desired ≤ w.counted.card then 300 else 5) →
      Does timeoutSecs p r (do
        updateStatus wl phase r' w.counted.card wl.generation
        return action) w₁ fun action w' => w.Updated wl action w' := by
    intro phase action w₁ h₁ hphase haction
    refine Does.bind ((does_updateStatus wl phase r' _).mono fun _ w' h => ?_)
    obtain ⟨now, hcluster, hsame, hcounted⟩ := h
    have hobject : w'.object = { w.object with status := some ((statusPatch phase r'
        w.counted.card wl.desired now wl.generation).apply (w.object.status.getD {})) } := by
      rw [object, hcluster, h₁.cluster]
      rfl
    refine aloneOk_pure ⟨?_, ?_, ⟨r', now, w.object.status.getD {}, hr, ?_, ?_⟩, ?_, haction⟩
    · rw [hobject]
    · rw [hobject]
    · rw [hobject, hphase]
    · rw [Live, hsame, h₁.children]
      exact hchildren
    · rw [hcounted, h₁.counted]
  refine Does.bind ((does_publishEvent _ _ _).mono fun _ w₁ h₁ => ?_)
  have hlive₁ : w₁.live.isSome := by
    rw [live, object, h₁.cluster, h₁.children]
    exact hlive
  refine Does.bind ((does_countReadyReplicas wl hlive₁).mono fun ready w₂ h₂ => ?_)
  obtain ⟨rfl, h₂⟩ := h₂
  have hw₂ : w.Becomes w₂ w.cluster w.children :=
    ⟨h₂.cluster.trans h₁.cluster, h₂.children.trans h₁.children, h₂.counted.trans h₁.counted⟩
  rw [h₁.counted]
  split
  next hready =>
    refine Does.bind ((does_publishEvent _ _ _).mono fun _ w₃ h₃ => ?_)
    exact hend ⟨h₃.cluster.trans hw₂.cluster, h₃.children.trans hw₂.children,
      h₃.counted.trans hw₂.counted⟩ (if_pos hready).symm (by rw [if_pos hready])
  next hready => exact hend hw₂ (if_neg hready).symm (by rw [if_neg hready])

/-- The children that have been applied are there. -/
lemma live_applyAll (children : Children) (wl : NiphasWorkload) (r' : EvalResult) :
    ∀ child ∈ childManifests wl r',
      (children.applyAll (childManifests wl r')).get child.kind child.name child.ns =
        some child.manifest := by
  intro child hmem
  obtain ⟨kind, manifest, hrendered, rfl⟩ := rendered_of_mem hmem
  rw [get_applyAll_childManifests, if_pos ⟨rfl, rfl⟩, hrendered]
  rfl

lemma does_applyChildren (wl : NiphasWorkload) (r' : EvalResult) :
    Does timeoutSecs p r (ExceptT.lift (applyChildren (childManifests wl r'))) w fun out w' =>
      out = .ok () ∧ w'.cluster = w.cluster ∧ w'.counted = w.counted ∧
        w'.Live (childManifests wl r') := by
  refine aloneOk_lift ((alone_applyChildren _).mono fun out (w' : Rollout) h => ?_)
  refine ⟨h.1, h.2.cluster, h.2.counted, ?_⟩
  rw [Live, h.2.children]
  exact live_applyAll w.children wl r'

lemma does_provision {wl : NiphasWorkload} (hname : wl.nameAny = w.object.nameAny)
    (hns : wl.ns = w.object.ns) {r' : EvalResult} (hr : r'.Readable) :
    Does timeoutSecs p r (provision wl r') w fun action w' => w.Updated wl action w' := by
  refine Does.bind ((does_setPhase wl .provisioning).mono fun _ w₁ h₁ => ?_)
  refine Does.bind ((does_applyChildren wl r').mono fun out w₂ h₂ => ?_)
  obtain ⟨rfl, hcluster, hcounted, hlive⟩ := h₂
  have hdeployment : w₂.live.isSome := by
    have hobject : w₂.object.nameAny = wl.nameAny ∧ w₂.object.ns = wl.ns := by
      rw [object, hcluster, hname, hns, NiphasWorkload.nameAny, NiphasWorkload.ns, h₁.metadata]
      exact ⟨rfl, rfl⟩
    obtain ⟨rest, hall, -⟩ := childManifests_cons wl r'
    have hmem := hlive _ (hall ▸ List.mem_cons_self)
    rw [live, hobject.1, hobject.2, hmem]
    rfl
  refine (does_reportStatus wl hr hdeployment hlive).mono fun action w' h => ?_
  obtain ⟨hmetadata, hspec, hstatus, hcounted', haction⟩ := h
  have hcount : w₂.counted = w.counted := hcounted.trans h₁.counted
  have hobject : w₂.object = w₁.object := by rw [object, hcluster]
  rw [hcount] at hstatus haction hcounted'
  exact ⟨(hmetadata.trans (congrArg _ hobject)).trans h₁.metadata,
    (hspec.trans (congrArg _ hobject)).trans h₁.spec, hstatus, hcounted', haction⟩

/-! ## One reconcile -/

/-- What a reconcile makes of the workload: it gets its finalizer, or is settled already, or is
brought up to date. -/
inductive Advances (w : Rollout) (action : Action) (w' : Rollout) : Prop
  | finalizer (finalizers : List String) : w.object.hasFinalizer = false → action = .requeue 0 →
      w'.cluster = w.cluster.patchFinalizers (some finalizers) → finalizer ∈ finalizers →
      w'.children = w.children → Advances w action w'
  | settled : Settled w.object → action = .requeue 300 → w' = w → Advances w action w'
  | updated : Pending w.object → w.Updated w.object action w' → Advances w action w'

lemma does_addFinalizer (wl : NiphasWorkload) :
    Does timeoutSecs p r (addFinalizer wl) w fun _ w' => ∃ finalizers, finalizer ∈ finalizers ∧
      w'.cluster = w.cluster.patchFinalizers (some finalizers) ∧ w'.children = w.children := by
  rw [addFinalizer]
  generalize hall : (if finalizer ∈ wl.metadata.finalizers.getD [] then
    wl.metadata.finalizers.getD [] else wl.metadata.finalizers.getD [] ++ [finalizer]) = all
  have hmem : finalizer ∈ all := by
    rw [← hall]
    split
    next h => exact h
    next => exact List.mem_append_right _ List.mem_cons_self
  have hsome : KubeOp.Effect p (.patchFinalizers wl.nameAny (some all)) w (.ok ())
      { w with cluster := w.cluster.patchFinalizers (some all) } :=
    ⟨_, w.children, .inl rfl, rfl, trivial, rfl⟩
  refine AloneOk.bind (aloneOk_lift (alone_op ⟨_, _, hsome, rfl⟩ ?_))
  rintro answer w' ⟨cluster, children, hs, hc, -, rfl⟩ hq
  obtain rfl : answer = .ok () := hq
  rcases hs with rfl | ⟨⟨e, he⟩, -⟩
  · exact aloneOk_pure ⟨all, hmem, rfl, hc⟩
  · cases he

lemma does_reconcile (hlive : w.object.metadata.deletionTimestamp = none)
    (hreadable : (w.object.status.getD {}).Readable) (hr : r.Readable) :
    Does timeoutSecs p r (reconcile timeoutSecs w.object) w fun action w' =>
      w.Advances action w' := by
  have hstays : ¬ w.object.metadata.deletionTimestamp.isSome = true := by
    rw [hlive]
    exact Bool.false_ne_true
  by_cases hfinalized : w.object.hasFinalizer = true
  · by_cases hsettled : w.object.generation ≤ w.object.observed ∧
        w.object.status.map (·.phase) = some .running
    · rw [reconcile, if_neg hstays, if_neg (not_not_intro hfinalized), if_pos hsettled]
      exact aloneOk_pure (.settled ⟨hlive, hfinalized, hsettled.1, hsettled.2⟩ rfl rfl)
    · have hpending : Pending w.object := ⟨hlive, hfinalized, hsettled⟩
      have heval : Does timeoutSecs p r
          (if needsEval w.object w.object.observed w.object.generation then
            evalFresh timeoutSecs w.object else evalCached timeoutSecs w.object) w w.Resolves := by
        split
        · exact does_evalFresh _ hr
        · exact does_evalCached _ hr hreadable
      rw [hpending.reconcile_eq]
      refine Does.bind (heval.mono fun outcome w₁ h₁ => ?_)
      obtain ⟨⟨r', rfl, hr'⟩, h₁⟩ := h₁
      have hname : w.object.nameAny = w₁.object.nameAny ∧ w.object.ns = w₁.object.ns := by
        rw [NiphasWorkload.nameAny, NiphasWorkload.ns, ← h₁.metadata]
        exact ⟨rfl, rfl⟩
      refine (does_provision hname.1 hname.2 hr').mono fun action w' h => ?_
      obtain ⟨hmetadata, hspec, hstatus, hcounted, haction⟩ := h
      rw [h₁.counted] at hstatus hcounted haction
      exact .updated hpending ⟨hmetadata.trans h₁.metadata, hspec.trans h₁.spec, hstatus, hcounted,
        haction⟩
  · rw [reconcile, if_neg hstays, if_pos hfinalized]
    refine Does.bind ((does_addFinalizer _).mono fun _ w' h => ?_)
    obtain ⟨finalizers, hmem, hcluster, hchildren⟩ := h
    exact aloneOk_pure (.finalizer finalizers (Bool.eq_false_of_not_eq_true hfinalized) rfl
      hcluster hmem hchildren)

end Parts

/-! ## One reconcile after another

Between two reconciles the pods may change in any way that the Deployment controller allows.  What
is carried from one to the next is that the workload is `Workable` and has its finalizer, and that
it is `Provided` if it was.
-/

variable {timeoutSecs : ℕ} {r : EvalResult} {w w' : Rollout}

/-- A reconcile of the stored version, or something that happens to the pods. -/
inductive Quiet (timeoutSecs : ℕ) (r : EvalResult) : Rollout → Rollout → Prop
  | reconcile {w w' : Rollout} {out : Except OperatorFault Action} :
      Undisturbed timeoutSecs r w out w' → Quiet timeoutSecs r w w'
  | pods {w w' : Rollout} : Env w w' → w'.cluster = w.cluster → Quiet timeoutSecs r w w'

/-- A workload that can be reconciled: it is not being deleted, and its status can be read. -/
structure Workable (w : Rollout) : Prop where
  live : w.object.metadata.deletionTimestamp = none
  readable : (w.object.status.getD {}).Readable

lemma Workable.of_object (h : w.Workable) (hobject : w'.object = w.object) : w'.Workable := by
  obtain ⟨hlive, hreadable⟩ := h
  rw [← hobject] at hlive hreadable
  exact ⟨hlive, hreadable⟩

/-- A reconcile of such a workload comes to its end, and makes something of it. -/
lemma Workable.undisturbed (h : w.Workable) (hr : r.Readable) :
    (∃ out w', Undisturbed timeoutSecs r w out w') ∧
      ∀ out w', Undisturbed timeoutSecs r w out w' →
        ∃ action, out = .ok action ∧ (w.began 0).Advances action w' :=
  (does_reconcile (w := w.began 0) h.live h.readable hr).sound

lemma Settled.advances {action : Action} (h : Settled w.object) (hw : w.Advances action w') :
    w' = w ∧ action = .requeue 300 := by
  cases hw with
  | finalizer _ hnone => cases hnone.symm.trans h.finalized
  | settled _ haction hsame => exact ⟨hsame, haction⟩
  | updated hpending => exact absurd ⟨h.observed, h.running⟩ hpending.waits

/-- What a reconcile leaves is as workable as before, and has its finalizer. -/
lemma Advances.workable {action : Action} (h : w.Advances action w') (hw : w.Workable) :
    w'.Workable ∧ w'.object.hasFinalizer = true ∧ w'.object.spec = w.object.spec := by
  cases h with
  | finalizer finalizers _ _ hcluster hmem _ =>
      have hobject : w'.object = { w.object with
          metadata := { w.object.metadata with finalizers := some finalizers } } := by
        rw [object, hcluster]
        rfl
      rw [hobject]
      refine ⟨⟨?_, ?_⟩, ?_, rfl⟩
      · rw [hobject]
        exact hw.live
      · rw [hobject]
        exact hw.readable
      · exact decide_eq_true hmem
  | settled hsettled _ hsame =>
      rw [hsame]
      exact ⟨hw, hsettled.finalized, rfl⟩
  | updated hpending hupdated =>
      obtain ⟨r', now, prior, hr', hstatus, -⟩ := hupdated.status
      refine ⟨⟨?_, ?_⟩, ?_, hupdated.spec⟩
      · rw [hupdated.metadata]
        exact hw.live
      · rw [hstatus]
        intro path hpath
        cases hpath
        exact hr'
      · rw [NiphasWorkload.hasFinalizer, hupdated.metadata]
        exact hpending.finalized

/-- If the workload is `Running` at its generation, its status is that of a result, and all children
of this result are there.  A new workload is not `Running`. -/
def Provided (w : Rollout) : Prop :=
  w.object.generation ≤ w.object.observed → w.object.status.map (·.phase) = some .running →
    ∃ r, (w.object.status.getD {}).Reports w.object r ∧ w.Live (childManifests w.object r)

lemma provided_created {wl : NiphasWorkload} (hstatus : wl.status = none) :
    (created wl).Provided := by
  intro _ hrunning
  have hphase : (created wl).object.status.map (·.phase) = none := congrArg _ hstatus
  cases hphase.symm.trans hrunning

/-- What a reconcile reports goes with the children it leaves, so a workload that is provided stays
so. -/
lemma Advances.provided {action : Action} (h : w.Advances action w') (hw : w.Provided) :
    w'.Provided := by
  cases h with
  | finalizer finalizers _ _ hcluster _ hchildren =>
      have hobject : w'.object = { w.object with
          metadata := { w.object.metadata with finalizers := some finalizers } } := by
        rw [object, hcluster]
        rfl
      intro hobserved hrunning
      rw [hobject] at hobserved hrunning
      obtain ⟨r', hreports, hlive⟩ := hw hobserved hrunning
      refine ⟨r', ?_, ?_⟩
      · rw [hobject]
        exact ⟨hreports.1, hreports.2, hreports.3, hreports.4, hreports.5⟩
      · rw [hobject, Live, hchildren]
        exact hlive
  | settled _ _ hsame => rwa [hsame]
  | updated _ hupdated =>
      obtain ⟨r', now, prior, -, hstatus, hlive⟩ := hupdated.status
      have hobject : w'.object = ⟨w.object.metadata, w.object.spec, w'.object.status⟩ := by
        rw [← hupdated.metadata, ← hupdated.spec]
      have hreported : (w'.object.status.getD {}).phase =
          reportedPhase w.object w.counted.card := by
        rw [hstatus]
        rfl
      intro _ hrunning
      have hready : w.object.desired ≤ w.counted.card := by
        by_contra hnot
        have hphase : reportedPhase w.object w.counted.card = .provisioning := if_neg hnot
        rw [hstatus] at hrunning hreported
        cases (hreported.trans hphase).symm.trans (Option.some.inj hrunning)
      refine ⟨r', ?_, ?_⟩
      · rw [hobject, hstatus]
        exact ⟨rfl, rfl, rfl, rfl, _, rfl, hready⟩
      · rw [hobject]
        exact hlive

/-- With enough ready replicas it is settled. -/
lemma Advances.settles {action : Action} (h : w.Advances action w') (hw : w.Workable)
    (hfinalized : w.object.hasFinalizer = true) (hready : w.object.desired ≤ w.counted.card) :
    Settled w'.object ∧ action = .requeue 300 := by
  have hworkable := (h.workable hw).1
  have hfinalized' := (h.workable hw).2.1
  cases h with
  | finalizer _ hnone => cases hnone.symm.trans hfinalized
  | settled hsettled haction hsame =>
      rw [hsame]
      exact ⟨hsettled, haction⟩
  | updated _ hupdated =>
      obtain ⟨r', now, prior, -, hstatus, -⟩ := hupdated.status
      have hphase : reportedPhase w.object w.counted.card = .running := if_pos hready
      rw [hphase] at hstatus
      refine ⟨⟨hworkable.live, hfinalized', ?_, ?_⟩, ?_⟩
      · rw [NiphasWorkload.observed, hstatus, NiphasWorkload.generation, hupdated.metadata]
        exact le_rfl
      · rw [hstatus]
        rfl
      · rw [hupdated.action, if_pos hready]

/-- A workload that has been reconciled once, and was provided before if `provided`. -/
structure Reconciled (spec : NiphasWorkloadSpec) (provided : Prop) (w : Rollout) : Prop
    extends w.Workable where
  finalized : w.object.hasFinalizer = true
  spec : w.object.spec = spec
  provided : provided → w.Provided

lemma Workable.reconciled (h : w.Workable) (hr : r.Readable) {out : Except OperatorFault Action}
    (hw : Undisturbed timeoutSecs r w out w') :
    w'.Reconciled w.object.spec w.Provided := by
  obtain ⟨action, -, hadvances⟩ := (h.undisturbed hr).2 out w' hw
  obtain ⟨hworkable, hfinalized, hspec⟩ := hadvances.workable (w := w.began 0) ⟨h.live, h.readable⟩
  exact ⟨hworkable, hfinalized, hspec, fun hprovided => hadvances.provided hprovided⟩

/-- **Step lemma.** -/
lemma Reconciled.quiet {spec : NiphasWorkloadSpec} {provided : Prop}
    (h : w.Reconciled spec provided) (hr : r.Readable) (hw : Quiet timeoutSecs r w w') :
    w'.Reconciled spec provided := by
  cases hw with
  | reconcile hundisturbed =>
      obtain ⟨hworkable, hfinalized, hspec, hprovided⟩ := h.toWorkable.reconciled hr hundisturbed
      exact ⟨hworkable, hfinalized, hspec.trans h.spec, fun hp => hprovided (h.provided hp)⟩
  | pods henv hcluster =>
      have hobject : w'.object = w.object := by rw [object, hcluster]
      refine ⟨h.toWorkable.of_object hobject, ?_, ?_, fun hp => ?_⟩
      · rw [hobject]
        exact h.finalized
      · rw [hobject]
        exact h.spec
      · intro hobserved hrunning
        rw [hobject] at hobserved hrunning ⊢
        obtain ⟨r', hreports, hlive⟩ := h.provided hp hobserved hrunning
        refine ⟨r', hreports, ?_⟩
        rw [Live, henv.same.2.2]
        exact hlive

/-- **Run lemma.** -/
lemma Reconciled.quiets {spec : NiphasWorkloadSpec} {provided : Prop}
    (h : w.Reconciled spec provided) (hr : r.Readable)
    (hw : Relation.ReflTransGen (Quiet timeoutSecs r) w w') : w'.Reconciled spec provided := by
  induction hw with
  | refl => exact h
  | tail _ hlast ih => exact ih.quiet hr hlast

/-- Nothing is done to a settled workload. -/
lemma Settled.quiets (h : Settled w.object) (hreadable : (w.object.status.getD {}).Readable)
    (hr : r.Readable) (hw : Relation.ReflTransGen (Quiet timeoutSecs r) w w') :
    w'.cluster = w.cluster ∧ w'.children = w.children := by
  induction hw with
  | refl => exact ⟨rfl, rfl⟩
  | @tail w₁ w₂ _ hlast ih =>
      have hobject : w₁.object = w.object := by rw [object, ih.1]
      cases hlast with
      | reconcile hundisturbed =>
          have hworkable : w₁.Workable := Workable.of_object ⟨h.live, hreadable⟩ hobject
          obtain ⟨action, -, hadvances⟩ := (hworkable.undisturbed hr).2 _ _ hundisturbed
          have hsettled : Settled (w₁.began 0).object := hobject.symm ▸ h
          rw [(hsettled.advances hadvances).1]
          exact ih
      | pods henv hcluster => exact ⟨hcluster.trans ih.1, henv.same.2.2.trans ih.2⟩

/-- **Reconciles come to rest**: once a workload has been reconciled, a reconcile that finds enough
ready replicas leaves it `Running` at its generation.  Unless it was so without its children before
all of this, as no new workload is, its status is that of a result then, and all the children of
this result are there.  After that nothing is done to it. -/
theorem converges {r : EvalResult} (hr : r.Readable) {w w₀ w₁ : Rollout} (hw : w.Workable)
    {out : Except OperatorFault Action} (hfirst : Undisturbed timeoutSecs r w out w₀)
    (hlater : Relation.ReflTransGen (Quiet timeoutSecs r) w₀ w₁)
    (hready : w₁.object.desired ≤ w₁.counted.card) :
    (∃ out' w₂, Undisturbed timeoutSecs r w₁ out' w₂) ∧
      ∀ out' w₂, Undisturbed timeoutSecs r w₁ out' w₂ →
        out' = .ok (.requeue 300) ∧ Settled w₂.object ∧ w₂.object.spec = w.object.spec ∧
          (w.Provided ∨ ¬ Settled w₁.object →
            ∃ r', (w₂.object.status.getD {}).Reports w₂.object r' ∧
              w₂.Live (childManifests w₂.object r')) ∧
          ∀ w₃, Relation.ReflTransGen (Quiet timeoutSecs r) w₂ w₃ →
            w₃.cluster = w₂.cluster ∧ w₃.children = w₂.children := by
  have hreconciled := (hw.reconciled hr hfirst).quiets hr hlater
  obtain ⟨hcomes, hends⟩ := @Workable.undisturbed timeoutSecs _ _ hreconciled.toWorkable hr
  refine ⟨hcomes, fun out' w₂ hundisturbed => ?_⟩
  obtain ⟨action, rfl, hadvances⟩ := hends out' w₂ hundisturbed
  have hagain := hreconciled.quiet hr (.reconcile hundisturbed)
  obtain ⟨hsettled, rfl⟩ := hadvances.settles ⟨hreconciled.live, hreconciled.readable⟩
    hreconciled.finalized hready
  refine ⟨rfl, hsettled, hagain.spec, fun hbefore => ?_,
    fun w₃ hw₃ => hsettled.quiets hagain.readable hr hw₃⟩
  have hprovided : w₁.Provided := by
    rcases hbefore with hprovided | hnot
    · exact hreconciled.provided hprovided
    · intro hobserved hrunning
      exact absurd ⟨hreconciled.live, hreconciled.finalized, hobserved, hrunning⟩ hnot
  exact hadvances.provided hprovided hsettled.observed hsettled.running

/-! ## A new workload -/

/-- Reconciles leave the pods to the Deployment controller. -/
lemma pods_of_goes {Q : (rolloutSystem timeoutSecs).OpCond} {p : ℕ} {α : Type}
    {prog prog' : Prog (rolloutSystem timeoutSecs).iface α}
    {v v' : (rolloutSystem timeoutSecs).World}
    (hgo : Goes (rolloutSystem timeoutSecs) Q p prog v prog' v') : pods v' = pods v := by
  induction hgo with
  | refl => rfl
  | call hs _ _ ih =>
      obtain ⟨cluster, children, -, -, -, rfl⟩ := hs
      exact ih.trans (note_pods _ _ _)

/-- A workload with one replica is created, gets its finalizer, is rolled out, and runs as soon as
its pod is ready. -/
theorem converges_bare : ∃ out w₀ out₁ w₁ w₂ out' w₃,
    Undisturbed 300 helloResult (created bareWorkload) out w₀ ∧
    Undisturbed 300 helloResult w₀ out₁ w₁ ∧
    Relation.ReflTransGen (Quiet 300 helloResult) w₁ w₂ ∧ w₂.counted.Nonempty ∧
    Undisturbed 300 helloResult w₂ out' w₃ ∧ Settled w₃.object ∧
    w₃.object.spec = bareWorkload.spec ∧ ∃ r', (w₃.object.status.getD {}).Reports w₃.object r' ∧
      w₃.Live (childManifests w₃.object r') := by
  have hr : helloResult.Readable := fun h => by cases h
  have hw : (created bareWorkload).Workable := ⟨rfl, nofun⟩
  obtain ⟨out, w₀, hfirst⟩ := (@Workable.undisturbed 300 _ _ hw hr).1
  have hreconciled := hw.reconciled hr hfirst
  obtain ⟨out₁, w₁, hsecond⟩ := (@Workable.undisturbed 300 _ _ hreconciled.toWorkable hr).1
  have hpods : w₁.pods = fun _ => none :=
    (pods_of_goes hsecond.goes).trans (pods_of_goes hfirst.goes)
  have hready : Relation.ReflTransGen (Quiet 300 helloResult) w₁ (w₁.startPod 0 helloTemplate) :=
    Relation.ReflTransGen.mono (fun _ _ hs => .pods hs.1 hs.2) _ _
      (podSteps_startPod (congrFun hpods) 0 helloTemplate)
  have hdesired : w₁.object.desired ≤ (w₁.startPod 0 helloTemplate).counted.card := by
    rw [NiphasWorkload.desired, (hreconciled.quiet hr (.reconcile hsecond)).spec]
    exact le_refl (1 : Int)
  obtain ⟨⟨out', w₃, hthird⟩, hends⟩ := converges hr hw hfirst
    (.head (.reconcile hsecond) hready) hdesired
  obtain ⟨-, hsettled, hspec, hreports, -⟩ := hends out' w₃ hthird
  exact ⟨out, w₀, out₁, w₁, _, out', w₃, hfirst, hsecond, hready, ⟨0, Finset.mem_singleton_self 0⟩,
    hthird, hsettled, hspec, hreports (.inl (provided_created rfl))⟩

end Rollout

end Niphas
