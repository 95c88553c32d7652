import Niphas.Lib.Triple
import Niphas.Operator.Rollout
import Niphas.Operator.StatusHistory

/-!
# What a reconcile knows

A reconcile learns what is there only from its own calls, and others work in between.  What it knows
when it makes a call is the same for every property of the rollout, so it is proved once.

A call is *justified* where what the source has done before is remembered in the world: the patch
that sets `Running` comes behind an apply of the Deployment and a read of its status, by the same
reconcile, for the same version and result.  To show this of every call, `reconcile` is taken apart
along its own definitions, with one triple for each function of the source.  The conditions are
about what a process has applied and read, which no other one changes, so they are kept while others
work (`Kept`).

A property of the rollout is then a `Watch`: an invariant, the calls considered, and a proof that a
justified call among them keeps the invariant.  It need not know the source any more.  When a
function of the reconciler changes, its triple here changes, and none of the properties.

* `KubeOp.Justified` — what holds when a reconcile makes a call: it writes `Running` only over a
  Deployment it has applied and for a number of ready replicas it has read.
* `Watch` — an invariant that every allowed call keeps that is justified.
* `Watch.leads_reconcile`, `Watch.run` — it holds throughout every run.
-/

namespace Niphas

open System

/-! ## What a reconcile knows -/

/-- The status patches of reconcile `p`.  It has `Running` written over a Deployment it has applied
and for a number of ready replicas it has read. -/
inductive StatusPatch.Justified (w : Rollout) (p : ℕ) : StatusPatch → Prop
  | phase {phase : WorkloadPhase} : phase ≠ .running → Justified w p (phasePatch phase)
  | failed {wl : NiphasWorkload} {reason message now : String} : w.cluster.versions wl →
      Justified w p (failedPatch reason message now wl.generation)
  | status {wl : NiphasWorkload} {r : EvalResult} {phase : WorkloadPhase} {ready : Int}
      {now : String} : w.cluster.versions wl →
      (phase = .running → w.applied p = some (buildDeployment wl r wl.nameAny wl.ns) ∧
        ready = (w.read p).card ∧ wl.desired ≤ ready) →
      Justified w p (statusPatch phase r ready wl.desired now wl.generation)

/-- What holds when reconcile `p` makes a call. -/
def KubeOp.Justified (w : Rollout) (p : ℕ) : KubeOp → Prop
  | .patchStatus _ patch => patch.Justified w p
  | .apply child => ∃ wl r, w.cluster.versions wl ∧ child ∈ childManifests wl r
  | _ => True

/-- A call that neither applies a child nor reads the Deployment. -/
def KubeOp.Plain : KubeOp → Prop
  | .apply _ => False
  | .getDeployment _ => False
  | _ => True

/-- A process remembers as much after a plain call as before. -/
lemma KubeOp.Plain.rely {o : KubeOp} (ho : o.Plain) {w w' : Rollout} {p : ℕ}
    {r : kubeInterface.Answer o} (h : o.Effect p w r w') : Rollout.Rely p w w' := by
  obtain ⟨cluster, children, hs, -, -, rfl⟩ := h
  have hgrows := (KubeOp.Sem.versions hs).1
  cases o with
  | apply child => exact ho.elim
  | getDeployment name => exact ho.elim
  | patchStatus name patch =>
      rw [Rollout.note]
      split
      · exact ⟨hgrows, rfl, rfl⟩
      · exact ⟨hgrows, rfl, rfl⟩
  | _ => exact ⟨hgrows, rfl, rfl⟩

/-- What is watched along a run: an invariant that every allowed call keeps that is justified. -/
structure Watch (timeoutSecs : ℕ) where
  inv : Rollout → Prop
  allowed : (rolloutSystem timeoutSecs).OpCond
  begin_ok : ∀ {w} p, inv w → inv (w.began p)
  op_ok : ∀ {w w' p o r}, w.Base → inv w → KubeOp.Justified w p o → allowed p o r w →
    o.Effect p w r w' → inv w'
  env_ok : ∀ {w w'}, w.Base → inv w → Rollout.Env w w' → inv w'

/-- The rules for what is watched. -/
def Watch.rules {timeoutSecs : ℕ} (W : Watch timeoutSecs) :
    RelyGuarantee (rolloutSystem timeoutSecs) where
  inv w := w.Base ∧ W.inv w
  allowed := W.allowed
  rely := Rollout.Rely
  guar p w w' := ∀ q, q ≠ p → Rollout.Rely q w w'
  rely_refl := Rollout.Rely.refl
  rely_trans := Rollout.Rely.trans
  guar_rely hpq _ h := h _ hpq.symm
  env_ok hw h := ⟨⟨(hw.1.env h).1, W.env_ok hw.1 hw.2 h⟩, (hw.1.env h).2⟩
  crash_ok hw h := by
    cases h
    exact hw

namespace Watch

/-! ## Conditions

A condition about what one process has applied and read is kept by all the others, and so is one
about the versions there have been.  These are all the conditions that are needed below.
-/

section Reconcile

variable {timeoutSecs p : ℕ} {W : Watch timeoutSecs} {α : Type} {pre : Rollout → Prop}

/-- A condition that the others do not break. -/
def Kept (p : ℕ) (φ : Rollout → Prop) : Prop := ∀ w w', φ w → Rollout.Rely p w w' → φ w'

lemma Kept.stable (h : Kept p pre) : W.rules.Stable p pre := fun w w' _ hpre hw _ => h w w' hpre hw

lemma kept_versions (wl : NiphasWorkload) : Kept p fun w => w.cluster.versions wl :=
  fun _ _ h hw => hw.grows.versions wl h

/-- Begun with `pre`, a part of a reconcile is safe, and `post` holds of what it returns. -/
abbrev Leads (W : Watch timeoutSecs) (p : ℕ) (pre : Rollout → Prop) (prog : OperatorM α)
    (post : α → Rollout → Prop) : Prop :=
  W.rules.TripleExcept p pre prog post fun _ _ => True

/-- One part after the other. -/
lemma Leads.bind {β : Type} {prog : OperatorM α} {f : α → OperatorM β} {mid : α → Rollout → Prop}
    {post : β → Rollout → Prop} (h : W.Leads p pre prog mid)
    (hf : ∀ a, W.Leads p (mid a) (f a) post) : W.Leads p pre (prog >>= f) post :=
  RelyGuarantee.TripleExcept.bind (fun _ => RelyGuarantee.stable_true) h hf

lemma leads_ofResult {r : Except OperatorFault α} {post : α → Rollout → Prop}
    (hpost : ∀ a, r = .ok a → Kept p (post a)) (h : ∀ w a, pre w → r = .ok a → post a w) :
    W.Leads p pre (OperatorM.ofResult r) post := by
  refine RelyGuarantee.TripleExcept.ofExcept (fun a ha => (hpost a ha).stable)
    (fun _ => RelyGuarantee.stable_true) fun w _ hw => ?_
  cases r with
  | error e => trivial
  | ok a => exact h w a hw rfl

lemma leads_pure {a : α} {post : α → Rollout → Prop} (hpost : Kept p (post a))
    (h : ∀ w, pre w → post a w) : W.Leads p pre (pure a) post :=
  RelyGuarantee.Triple.pure hpost.stable fun w _ hw => h w hw

lemma leads_ofKube {r : Except String α} {post : α → Rollout → Prop}
    (hpost : ∀ a, r = .ok a → Kept p (post a)) (h : ∀ w a, pre w → r = .ok a → post a w) :
    W.Leads p pre (OperatorM.ofKube r) post := by
  cases r with
  | ok a =>
      refine leads_ofResult (fun b hb => ?_) fun w b hw hb => ?_
      · cases hb
        exact hpost a rfl
      · cases hb
        exact h w a hw rfl
  | error e => exact leads_ofResult (fun a ha => by cases ha) fun w a _ ha => by cases ha

/-- A call that is justified. -/
lemma triple_op {o : KubeOp} {post : kubeInterface.Answer o → Rollout → Prop} (hpre : Kept p pre)
    (hpost : ∀ r, Kept p (post r)) (hjust : ∀ w, pre w → o.Justified w p)
    (h : ∀ w r w', pre w → o.Effect p w r w' → post r w') :
    W.rules.Triple p pre (Prog.op (I := kubeInterface) o) post := by
  refine RelyGuarantee.Triple.op hpre.stable (fun r => (hpost r).stable) ?_
  intro w hw hp r w' hs hallowed
  exact ⟨⟨hw.1.effect hs, W.op_ok hw.1 hw.2 (hjust w hp) hallowed hs⟩,
    fun q hq => Rollout.rely_effect hq hs, h w r w' hp hs⟩

lemma leads_op {o : KubeOp} {post : kubeInterface.Answer o → Rollout → Prop} (hpre : Kept p pre)
    (hpost : ∀ r, Kept p (post r)) (hjust : ∀ w, pre w → o.Justified w p)
    (h : ∀ w r w', pre w → o.Effect p w r w' → post r w') :
    W.Leads p pre (OperatorM.op o) post :=
  RelyGuarantee.TripleExcept.lift (fun r => (hpost r).stable) (triple_op hpre hpost hjust h)

/-- A plain call leaves alone what is known. -/
lemma leads_plain {o : KubeOp} (ho : o.Plain) (hpre : Kept p pre)
    (hjust : ∀ w, pre w → o.Justified w p) : W.Leads p pre (OperatorM.op o) fun _ => pre :=
  leads_op hpre (fun _ => hpre) hjust fun w _ w' hw h => hpre w w' hw (ho.rely h)

lemma leads_patchStatus (hpre : Kept p pre) {patch : StatusPatch} (name : String)
    (hjust : ∀ w, pre w → patch.Justified w p) :
    W.Leads p pre (do OperatorM.ofKube (← OperatorM.op (.patchStatus name patch)))
      fun _ => pre :=
  Leads.bind (leads_plain trivial hpre hjust) fun _ =>
    leads_ofKube (fun _ _ => hpre) fun _ _ hw _ => hw

lemma leads_patchFinalizers (hpre : Kept p pre) (name : String)
    (finalizers : Option (List String)) :
    W.Leads p pre (do OperatorM.ofKube (← OperatorM.op (.patchFinalizers name finalizers)))
      fun _ => pre :=
  Leads.bind (leads_plain trivial hpre fun _ _ => trivial) fun _ =>
    leads_ofKube (fun _ _ => hpre) fun _ _ hw _ => hw

lemma leads_publishEvent (hpre : Kept p pre) (type : EventType) (reason note : String) :
    W.Leads p pre (OperatorM.op (.publishEvent type reason note)) fun _ => pre :=
  leads_plain trivial hpre fun _ _ => trivial

lemma leads_setPhase (hpre : Kept p pre) (wl : NiphasWorkload) {phase : WorkloadPhase}
    (hphase : phase ≠ .running) : W.Leads p pre (setPhase wl phase) fun _ => pre :=
  leads_patchStatus hpre wl.nameAny fun _ _ => .phase hphase

lemma leads_setFailed (hpre : Kept p pre) {wl : NiphasWorkload}
    (hwl : ∀ w, pre w → w.cluster.versions wl) (reason message : String) :
    W.Leads p pre (setFailed wl reason message wl.generation) fun _ => pre :=
  Leads.bind (leads_plain trivial hpre fun _ _ => trivial) fun _ =>
    leads_patchStatus hpre wl.nameAny fun w hw => .failed (hwl w hw)

/-! ## The evaluation -/

lemma leads_evaluate (hpre : Kept p pre) (req : EvalRequest) :
    W.Leads p pre (OperatorM.op (.evaluate req)) fun _ => pre :=
  leads_plain trivial hpre fun _ _ => trivial

lemma leads_evalFresh (wl : NiphasWorkload) :
    W.Leads p (fun w => w.cluster.versions wl) (evalFresh timeoutSecs wl)
      fun _ w => w.cluster.versions wl := by
  have hwl := @kept_versions p wl
  refine Leads.bind (leads_setPhase hwl wl (by decide)) fun _ => ?_
  refine Leads.bind (leads_publishEvent hwl _ _ _) fun _ => ?_
  refine Leads.bind (leads_evaluate hwl _) fun reply => ?_
  split
  · exact Leads.bind (leads_publishEvent hwl _ _ _) fun _ => leads_pure hwl fun _ hw => hw
  · refine Leads.bind (leads_publishEvent hwl _ _ _) fun _ => ?_
    refine Leads.bind (leads_setFailed hwl (fun _ hw => hw) _ _) fun _ => ?_
    exact leads_pure hwl fun _ hw => hw

lemma leads_evalUncached (wl : NiphasWorkload) :
    W.Leads p (fun w => w.cluster.versions wl) (evalUncached timeoutSecs wl)
      fun _ w => w.cluster.versions wl := by
  have hwl := @kept_versions p wl
  refine Leads.bind (leads_setPhase hwl wl (by decide)) fun _ => ?_
  refine Leads.bind (leads_evaluate hwl _) fun reply => ?_
  split
  · exact leads_pure hwl fun _ hw => hw
  · refine Leads.bind (leads_setFailed hwl (fun _ hw => hw) _ _) fun _ => ?_
    exact leads_pure hwl fun _ hw => hw

lemma leads_evalCached (wl : NiphasWorkload) :
    W.Leads p (fun w => w.cluster.versions wl) (evalCached timeoutSecs wl)
      fun _ w => w.cluster.versions wl := by
  have hwl := @kept_versions p wl
  rw [evalCached]
  split
  · exact leads_ofResult (fun _ _ => hwl) fun _ _ hw _ => hw
  · exact leads_evalUncached wl
  · exact leads_ofResult (fun _ _ => hwl) fun _ _ hw _ => hw

/-! ## Provisioning -/

/-- The reconcile has applied the Deployment of the version `wl` with the result `r`. -/
def HasApplied (p : ℕ) (wl : NiphasWorkload) (r : EvalResult) (w : Rollout) : Prop :=
  w.cluster.versions wl ∧ w.applied p = some (buildDeployment wl r wl.nameAny wl.ns)

lemma kept_hasApplied (wl : NiphasWorkload) (r : EvalResult) : Kept p (HasApplied p wl r) :=
  fun _ _ h hw => ⟨hw.grows.versions wl h.1, hw.applied.trans h.2⟩

/-- Children other than the Deployment. -/
lemma triple_applyOthers (wl : NiphasWorkload) (r : EvalResult) (children : List ChildManifest)
    (hmem : ∀ child ∈ children, child ∈ childManifests wl r)
    (hkind : ∀ child ∈ children, child.kind ≠ .deployment) :
    W.rules.Triple p (HasApplied p wl r) (applyChildren children) fun _ => HasApplied p wl r := by
  have hkept := @kept_hasApplied p wl r
  induction children with
  | nil => exact RelyGuarantee.Triple.pure hkept.stable fun _ _ hw => hw
  | cons child rest ih =>
      have hop : W.rules.Triple p (HasApplied p wl r) (Prog.op (I := kubeInterface) (.apply child))
          fun _ => HasApplied p wl r := by
        refine triple_op hkept (fun _ => hkept)
          (fun w hw => ⟨wl, r, hw.1, hmem child List.mem_cons_self⟩) ?_
        rintro w _ _ hw ⟨cluster, children, hs, -, -, rfl⟩
        have happlied : (w.note p (.apply child)).applied p = w.applied p := by
          rw [Rollout.note, if_neg (hkind child List.mem_cons_self)]
        exact ⟨(KubeOp.Sem.versions hs).1.versions wl hw.1, happlied.trans hw.2⟩
      refine RelyGuarantee.Triple.bind hop fun res => ?_
      rcases res with e | ⟨⟩
      · exact RelyGuarantee.Triple.pure hkept.stable fun _ _ hw => hw
      · exact ih (fun c hc => hmem c (List.mem_cons_of_mem _ hc))
          fun c hc => hkind c (List.mem_cons_of_mem _ hc)

/-- What is known once the children have been applied: nothing new where one of them was not. -/
def Applied (p : ℕ) (wl : NiphasWorkload) (r : EvalResult) : Except String Unit → Rollout → Prop
  | .ok () => HasApplied p wl r
  | .error _ => fun w => w.cluster.versions wl

lemma kept_applied (wl : NiphasWorkload) (r : EvalResult) (res : Except String Unit) :
    Kept p (Applied p wl r res) := by
  rcases res with e | ⟨⟩
  · exact kept_versions wl
  · exact kept_hasApplied wl r

/-- The Deployment comes first. -/
lemma triple_applyChildren (wl : NiphasWorkload) (r : EvalResult) :
    W.rules.Triple p (fun w => w.cluster.versions wl) (applyChildren (childManifests wl r))
      (Applied p wl r) := by
  let deployment : ChildManifest :=
    { kind := .deployment, name := wl.nameAny, ns := wl.ns
      manifest := buildDeployment wl r wl.nameAny wl.ns }
  obtain ⟨rest, hchildren, hkind⟩ : ∃ rest, childManifests wl r = deployment :: rest ∧
      ∀ child ∈ rest, child.kind ≠ .deployment := childManifests_cons wl r
  have hmem : ∀ child ∈ deployment :: rest, child ∈ childManifests wl r := by
    rw [hchildren]
    exact fun _ h => h
  rw [hchildren]
  have hop : W.rules.Triple p (fun w => w.cluster.versions wl)
      (Prog.op (I := kubeInterface) (.apply deployment)) fun _ => HasApplied p wl r := by
    refine triple_op (kept_versions wl) (fun _ => kept_hasApplied wl r)
      (fun w hw => ⟨wl, r, hw, hmem _ List.mem_cons_self⟩) ?_
    rintro w _ _ hw ⟨cluster, children, hs, -, -, rfl⟩
    exact ⟨(KubeOp.Sem.versions hs).1.versions wl hw, Function.update_self _ _ _⟩
  refine RelyGuarantee.Triple.bind hop fun res => ?_
  rcases res with e | ⟨⟩
  · exact RelyGuarantee.Triple.pure (kept_applied wl r _).stable fun _ _ hw => hw.1
  · refine RelyGuarantee.Triple.conseq (triple_applyOthers wl r rest
      (fun c hc => hmem c (List.mem_cons_of_mem _ hc)) hkind) (fun _ _ hw => hw) ?_
    rintro (e | ⟨⟩) w _ hw
    · exact hw.1
    · exact hw

/-- The reconcile has also read how many replicas are ready. -/
def HasRead (p : ℕ) (wl : NiphasWorkload) (r : EvalResult) (ready : Int) (w : Rollout) : Prop :=
  HasApplied p wl r w ∧ ready = (w.read p).card

lemma kept_hasRead (wl : NiphasWorkload) (r : EvalResult) (ready : Int) :
    Kept p (HasRead p wl r ready) :=
  fun w w' h hw => ⟨kept_hasApplied wl r w w' h.1 hw, by rw [h.2, hw.read]⟩

/-- The number of ready replicas in the answer of the API server. -/
def readyReplicas (deployment : Option (Option Int)) : Int := (deployment.getD none).getD 0

/-- The Deployment's status has been read, and answered with. -/
def Answered (p : ℕ) (wl : NiphasWorkload) (r : EvalResult)
    (answer : Except String (Option (Option Int))) (w : Rollout) : Prop :=
  HasApplied p wl r w ∧
    ∀ deployment, answer = .ok deployment → readyReplicas deployment = (w.read p).card

lemma kept_answered (wl : NiphasWorkload) (r : EvalResult)
    (answer : Except String (Option (Option Int))) : Kept p (Answered p wl r answer) := by
  intro w w' h hw
  refine ⟨kept_hasApplied wl r w w' h.1 hw, fun deployment ha => ?_⟩
  rw [hw.read, h.2 deployment ha]

lemma leads_countReadyReplicas (wl : NiphasWorkload) (r : EvalResult) :
    W.Leads p (HasApplied p wl r) (countReadyReplicas wl) (HasRead p wl r) := by
  have hread : W.Leads p (HasApplied p wl r) (OperatorM.op (.getDeployment wl.nameAny))
      (Answered p wl r) := by
    refine leads_op (kept_hasApplied wl r) (kept_answered wl r) (fun _ _ => trivial) ?_
    rintro w answer _ hw ⟨cluster, children, hs, -, hanswer, rfl⟩
    refine ⟨⟨(KubeOp.Sem.versions hs).1.versions wl hw.1, hw.2⟩, fun deployment ha => ?_⟩
    have hself : (w.note p (.getDeployment wl.nameAny)).read p = w.countedNow :=
      Function.update_self _ _ _
    rw [hself, Rollout.countedNow]
    rcases hanswer with ⟨e, he⟩ | ⟨hnone, hok⟩ | ⟨hsome, ready, hok, hcard⟩
    · rw [he] at ha
      cases ha
    · obtain rfl := Except.ok.inj (ha.symm.trans hok)
      simp [hnone, readyReplicas]
    · obtain rfl := Except.ok.inj (ha.symm.trans hok)
      rw [if_pos hsome]
      exact hcard
  refine Leads.bind hread fun answer => ?_
  have hanswer : W.Leads p (Answered p wl r answer) (OperatorM.ofKube answer)
      fun deployment => HasRead p wl r (readyReplicas deployment) :=
    leads_ofKube (fun _ _ => kept_hasRead wl r _) fun w deployment hw ha =>
      ⟨hw.1, hw.2 deployment ha⟩
  refine Leads.bind hanswer fun deployment => ?_
  split
  · exact leads_pure (kept_hasRead wl r _) fun _ hw => hw
  · exact leads_pure (kept_hasRead wl r _) fun _ hw => hw

/-- The status is written with what is known of the version it is about. -/
lemma leads_updateStatus {wl : NiphasWorkload} {r : EvalResult} {ready : Int}
    {phase : WorkloadPhase} (hphase : phase = .running → wl.desired ≤ ready) :
    W.Leads p (HasRead p wl r ready) (updateStatus wl phase r ready wl.generation)
      fun _ => HasRead p wl r ready := by
  have hkept := @kept_hasRead p wl r ready
  refine Leads.bind (leads_plain trivial hkept fun _ _ => trivial) fun now => ?_
  exact leads_patchStatus hkept wl.nameAny fun w hw =>
    .status hw.1.1 fun h => ⟨hw.1.2, hw.2, hphase h⟩

lemma leads_reportStatus (wl : NiphasWorkload) (r : EvalResult) :
    W.Leads p (HasApplied p wl r) (reportStatus wl r) fun _ w => w.cluster.versions wl := by
  refine Leads.bind (leads_publishEvent (kept_hasApplied wl r) _ _ _) fun _ => ?_
  refine Leads.bind (leads_countReadyReplicas wl r) fun ready => ?_
  have hkept := @kept_hasRead p wl r ready
  split
  next hready =>
    refine Leads.bind (leads_publishEvent hkept _ _ _) fun _ => ?_
    refine Leads.bind (leads_updateStatus fun _ => hready) fun _ => ?_
    exact leads_pure (kept_versions wl) fun _ hw => hw.1.1
  next =>
    refine Leads.bind (leads_updateStatus fun h => by cases h) fun _ => ?_
    exact leads_pure (kept_versions wl) fun _ hw => hw.1.1

lemma leads_provision (wl : NiphasWorkload) (r : EvalResult) :
    W.Leads p (fun w => w.cluster.versions wl) (provision wl r)
      fun _ w => w.cluster.versions wl := by
  have hwl := @kept_versions p wl
  refine Leads.bind (leads_setPhase hwl wl (by decide)) fun _ => ?_
  refine Leads.bind (RelyGuarantee.TripleExcept.lift (fun res => (kept_applied wl r res).stable)
    (triple_applyChildren wl r)) fun res => ?_
  split
  · exact leads_reportStatus wl r
  · refine Leads.bind (leads_setFailed hwl (fun _ hw => hw) _ _) fun _ => ?_
    exact leads_pure hwl fun _ hw => hw

/-- **Every call of a reconcile is justified**, from whatever version it works. -/
lemma leads_reconcile (wl : NiphasWorkload) :
    W.Leads p (fun w => w.cluster.versions wl) (reconcile timeoutSecs wl)
      fun _ w => w.cluster.versions wl := by
  have hwl := @kept_versions p wl
  rw [reconcile]
  split
  · refine Leads.bind (leads_publishEvent hwl _ _ _) fun _ => ?_
    exact Leads.bind (leads_patchFinalizers hwl _ _) fun _ => leads_pure hwl fun _ hw => hw
  split
  · exact Leads.bind (leads_patchFinalizers hwl _ _) fun _ => leads_pure hwl fun _ hw => hw
  split
  · exact leads_pure hwl fun _ hw => hw
  have hrest : ∀ outcome, W.Leads p (fun w => w.cluster.versions wl) (afterEval wl outcome)
      fun _ w => w.cluster.versions wl := by
    rintro (action | r)
    · exact leads_pure hwl fun _ hw => hw
    · exact leads_provision wl r
  split
  · exact Leads.bind (leads_evalFresh wl) hrest
  · exact Leads.bind (leads_evalCached wl) hrest

end Reconcile

/-! ## Whole runs -/

variable {timeoutSecs : ℕ} (W : Watch timeoutSecs)

/-- The calls are allowed. -/
def Allows (c : (rolloutSystem timeoutSecs).Config) : (rolloutSystem timeoutSecs).Event → Prop
  | .op p o r => W.allowed p o r c.world
  | _ => True

lemma covers_rules : W.rules.Covers (fun _ _ _ _ => True) W.Allows where
  op h := h
  start {c p call w'} _ hi hbegin := by
    obtain ⟨hwl, rfl⟩ := hbegin
    have hbase : (c.world.began p).Base := ⟨hi.1.toOrdered, hi.1.same⟩
    refine ⟨⟨hbase, W.begin_ok p hi.2⟩, fun q hq => ?_, ?_⟩
    · exact ⟨.refl _, Function.update_of_ne hq _ _, Function.update_of_ne hq _ _⟩
    · exact (leads_reconcile call _ ⟨hbase, W.begin_ok p hi.2⟩ hwl).mono fun _ _ _ _ => trivial

/-- **What is watched holds throughout.** -/
theorem run {w : Rollout} (hbase : w.Base) (hw : W.inv w)
    {evs : List (rolloutSystem timeoutSecs).Event} {c : (rolloutSystem timeoutSecs).Config}
    (hrun : Run (rolloutSystem timeoutSecs) W.Allows (Config.idle w) evs c) :
    c.world.Base ∧ W.inv c.world :=
  (RelyGuarantee.sound W.covers_rules ⟨hbase, hw⟩ hrun).1

/-- Nothing in particular is watched. -/
def any (timeoutSecs : ℕ) : Watch timeoutSecs where
  inv _ := True
  allowed _ _ _ _ := True
  begin_ok _ _ := trivial
  op_ok _ _ _ _ _ := trivial
  env_ok _ _ _ := trivial

/-- In every run, the versions are in order and all of one object. -/
theorem run_base {P : (rolloutSystem timeoutSecs).Config → (rolloutSystem timeoutSecs).Event → Prop}
    {wl : NiphasWorkload} {evs : List (rolloutSystem timeoutSecs).Event}
    {c : (rolloutSystem timeoutSecs).Config}
    (hrun : Run (rolloutSystem timeoutSecs) P (Config.idle (Rollout.created wl)) evs c) :
    c.world.Base := by
  refine ((any timeoutSecs).run (Rollout.base_created wl) trivial (hrun.imp fun c ev _ => ?_)).1
  cases ev with
  | _ => trivial

end Watch

end Niphas
