import Niphas.Lib.Account
import Niphas.Operator.Watch

/-!
# Reconciles without trouble

The general results about rollouts have hypotheses about runs, so there have to be runs to apply
them to.  This file puts them together, from reconciles whose calls all succeed.

`reconcile` is cut at the points at which something else may come in between: behind the evaluation,
behind the applies, and behind the read of the Deployment.  Each part is run once and for all, for
any workload, any result and any state it may start from, with nothing in between, and its lemma
says what it leaves: `goes_toApply`, `goes_toRead`, `goes_toWrite` and `rolls_write`, from the begin
to the end.  Whoever needs an interleaving then puts such parts of two reconciles in the order they
are to have (`DualLeader`, `ReadyPods`), with steps of the Deployment controller in between.

The conditions on a run differ from one result to the next, so the lemmas are stated over any of
them that let through the calls at hand: a part that neither applies a child nor writes `Running` is
let through by all that are considered (`KubeOp.Modest`, `Free`).

* `reaches_start`, `reaches_goes`, `reaches_end`, `reaches_edit`, `reaches_startPod` — how a run is
  continued.
* `reaches_helloRolled` — the first rollout of a workload with one replica, up to `Running`.
-/

namespace Niphas

open System

/-! ## The parts of a reconcile -/

/-- The part of `provision` behind the phase. -/
def applyAndReport (wl : NiphasWorkload) (r : EvalResult) : OperatorM Action := do
  match ← ExceptT.lift (applyChildren (childManifests wl r)) with
  | .ok () => reportStatus wl r
  | .error e =>
      setFailed wl "ProvisionFailed" (OperatorError.kube e).toString wl.generation
      return .requeue 10

/-- The part of `reportStatus` behind the read. -/
def reportReady (wl : NiphasWorkload) (r : EvalResult) (ready : Int) : OperatorM Action := do
  if wl.desired ≤ ready then
    OperatorM.op (.publishEvent .normal "Available" "All replicas ready")
    updateStatus wl .running r ready wl.generation
    return .requeue 300
  else
    updateStatus wl .provisioning r ready wl.generation
    return .requeue 5

/-- The last part of `reportReady`. -/
def writeStatus (wl : NiphasWorkload) (r : EvalResult) (phase : WorkloadPhase) (ready : Int)
    (action : Action) : OperatorM Action := do
  updateStatus wl phase r ready wl.generation
  return action

/-- A call that neither applies a child nor writes `Running`. -/
def KubeOp.Modest : KubeOp → Prop
  | .apply _ => False
  | .patchStatus _ patch => patch.phase ≠ some .running
  | _ => True

/-! ## What they leave -/

namespace Rollout

/-- A status patch. -/
def patched (w : Rollout) (p : ℕ) (name : String) (patch : StatusPatch) : Rollout :=
  { w.note p (.patchStatus name patch) with cluster := w.cluster.patchStatus patch }

/-- The workload has been evaluated. -/
def evaluated (w : Rollout) (wl : NiphasWorkload) (r : EvalResult) : Rollout :=
  { w with
    cluster := ((w.cluster.patchStatus (phasePatch .evaluating)).record (EvalRequest.ofSpec wl.spec)
      (.success (.ok r))).patchStatus (phasePatch .provisioning) }

/-- The Deployment has been applied. -/
def deployed (w : Rollout) (p : ℕ) (wl : NiphasWorkload) (r : EvalResult) : Rollout :=
  { w with
    children := w.children.applyAll (childManifests wl r)
    applied := Function.update w.applied p (some (buildDeployment wl r wl.nameAny wl.ns)) }

/-- The ready replicas have been read. -/
def counting (w : Rollout) (p : ℕ) : Rollout :=
  { w with read := Function.update w.read p w.countedNow }

/-- The Deployment that has been applied is the live one. -/
lemma live_deployed {wl : NiphasWorkload} {w : Rollout} (hsame : wl.SameObject w.object) (p : ℕ)
    (r : EvalResult) :
    (w.deployed p wl r).live = some (buildDeployment wl r wl.nameAny wl.ns) := by
  have hlive : (w.deployed p wl r).live =
      (w.children.applyAll (childManifests wl r)).get .deployment w.object.nameAny
        w.object.ns := rfl
  rw [hlive, get_applyAll_childManifests, ← hsame.1, ← hsame.2.1, if_pos ⟨rfl, rfl⟩]
  rfl

section Parts

variable {timeoutSecs p : ℕ} {Q : (rolloutSystem timeoutSecs).OpCond} {α : Type}

/-- A part of a reconcile runs to its end with nothing in between. -/
abbrev Rolls (timeoutSecs p : ℕ) (Q : (rolloutSystem timeoutSecs).OpCond) (prog : OperatorM α)
    (w : Rollout) (a : α) (w' : Rollout) : Prop :=
  Solo (rolloutSystem timeoutSecs) Q p prog.run w (.ok a) w'

/-- Modest calls are considered. -/
def Modest (Q : (rolloutSystem timeoutSecs).OpCond) (p : ℕ) : Prop :=
  ∀ (o : KubeOp) r w, o.Modest → Q p o r w

lemma rolls_patchStatus {name : String} {patch : StatusPatch} {w : Rollout}
    (hq : Q p (.patchStatus name patch) (.ok ()) w) :
    Rolls timeoutSecs p Q (do OperatorM.ofKube (← OperatorM.op (.patchStatus name patch))) w ()
      (w.patched p name patch) := by
  have hs : KubeOp.Effect p (.patchStatus name patch) w (.ok ()) (w.patched p name patch) :=
    ⟨_, w.children, .inl rfl, rfl, trivial, by
      rw [patched, note]
      split
      · rfl
      · rfl⟩
  exact Solo.bindExcept (Solo.liftExcept hs hq) .pure

lemma rolls_publishEvent (hQ : Modest Q p) (type : EventType) (reason note : String)
    (w : Rollout) :
    Rolls timeoutSecs p Q (OperatorM.op (.publishEvent type reason note)) w () w := by
  have hs : KubeOp.Effect p (.publishEvent type reason note) w () w :=
    ⟨w.cluster, w.children, rfl, rfl, trivial, rfl⟩
  exact Solo.liftExcept hs (hQ _ _ _ trivial)

lemma rolls_evalFresh (hQ : Modest Q p) (wl : NiphasWorkload) (r : EvalResult) (w : Rollout) :
    Rolls timeoutSecs p Q (evalFresh timeoutSecs wl) w (.ok r)
      { w with
        cluster := (w.cluster.patchStatus (phasePatch .evaluating)).record
          (EvalRequest.ofSpec wl.spec) (.success (.ok r)) } := by
  let w₁ : Rollout := { w with cluster := w.cluster.patchStatus (phasePatch .evaluating) }
  have hs : KubeOp.Effect p (.evaluate (EvalRequest.ofSpec wl.spec)) w₁ (.success (.ok r))
      { w₁ with cluster := w₁.cluster.record (EvalRequest.ofSpec wl.spec) (.success (.ok r)) } :=
    ⟨_, w.children, rfl, rfl, trivial, rfl⟩
  refine Solo.bindExcept (rolls_patchStatus (hQ _ _ _ (by exact nofun))) ?_
  refine Solo.bindExcept (rolls_publishEvent hQ _ _ _ _) ?_
  refine Solo.bindExcept (Solo.liftExcept hs (hQ _ _ _ trivial)) ?_
  exact Solo.bindExcept (rolls_publishEvent hQ _ _ _ _) .pure

/-- From the begin to the apply. -/
lemma goes_toApply (hQ : Modest Q p) {wl : NiphasWorkload} (hpending : Pending wl)
    (hneeds : needsEval wl wl.observed wl.generation) (r : EvalResult) (w : Rollout) :
    Goes (rolloutSystem timeoutSecs) Q p (reconcile timeoutSecs wl).run w (applyAndReport wl r).run
      (w.evaluated wl r) := by
  rw [hpending.reconcile_eq, if_pos hneeds]
  refine (rolls_evalFresh hQ wl r w).thenExcept ?_
  exact Solo.thenExcept (rolls_patchStatus (hQ _ _ _ (by exact nofun))) .refl

/-- The Deployment is all there is to apply. -/
def Lone (wl : NiphasWorkload) (r : EvalResult) : Prop :=
  childManifests wl r =
    [{ kind := .deployment, name := wl.nameAny, ns := wl.ns
       manifest := buildDeployment wl r wl.nameAny wl.ns }]

lemma solo_applyChildren {wl : NiphasWorkload} {r : EvalResult} (hlone : Lone wl r) {w : Rollout}
    (hq : ∀ child ∈ childManifests wl r, Q p (.apply child) (.ok ()) w) :
    Solo (rolloutSystem timeoutSecs) Q p (applyChildren (childManifests wl r)) w (.ok ())
      (w.deployed p wl r) := by
  rw [deployed]
  rw [hlone] at hq ⊢
  have hs := fun child : ChildManifest => show KubeOp.Effect p (.apply child) w (.ok ())
    { w.note p (.apply child) with cluster := w.cluster, children := w.children.apply child } from
      ⟨w.cluster, w.children.apply child, rfl, .inl rfl, trivial, rfl⟩
  exact .call (hs _) (hq _ (List.mem_singleton.mpr rfl)) .pure

/-- From the apply to the read. -/
lemma goes_toRead (hQ : Modest Q p) {wl : NiphasWorkload} {r : EvalResult} (hlone : Lone wl r)
    {w : Rollout} (hq : ∀ child ∈ childManifests wl r, Q p (.apply child) (.ok ()) w) :
    Goes (rolloutSystem timeoutSecs) Q p (applyAndReport wl r).run w
      (countReadyReplicas wl >>= reportReady wl r).run (w.deployed p wl r) := by
  refine Solo.thenExcept (Solo.bind (solo_applyChildren hlone hq) .pure) ?_
  exact Solo.thenExcept (rolls_publishEvent hQ _ _ _ _) .refl

/-- The Deployment's status is read. -/
lemma rolls_count (hQ : Modest Q p) (wl : NiphasWorkload) {w : Rollout} (hlive : w.live.isSome) :
    Rolls timeoutSecs p Q (countReadyReplicas wl) w w.counted.card (w.counting p) := by
  have hs : KubeOp.Effect p (.getDeployment wl.nameAny) w (.ok (some (some w.counted.card)))
      (w.counting p) :=
    ⟨w.cluster, w.children, rfl, rfl, .inr (.inr ⟨hlive, _, rfl, rfl⟩), rfl⟩
  exact Solo.bindExcept (Solo.liftExcept hs (hQ _ _ _ trivial)) (Solo.bindExcept .pure .pure)

/-- From the read to the status, where enough replicas are ready. -/
lemma goes_toWrite (hQ : Modest Q p) {wl : NiphasWorkload} (r : EvalResult) {w : Rollout}
    (hlive : w.live.isSome) (hready : wl.desired ≤ w.counted.card) :
    Goes (rolloutSystem timeoutSecs) Q p (countReadyReplicas wl >>= reportReady wl r).run w
      (writeStatus wl r .running w.counted.card (.requeue 300)).run (w.counting p) := by
  refine (rolls_count hQ wl hlive).thenExcept ?_
  rw [reportReady, if_pos hready]
  exact Solo.thenExcept (rolls_publishEvent hQ _ _ _ _) .refl

/-- The status is written. -/
lemma rolls_write (hQ : Modest Q p) {wl : NiphasWorkload} {r : EvalResult} {phase : WorkloadPhase}
    {ready : Int} {action : Action} {w : Rollout}
    (hq : Q p (.patchStatus wl.nameAny
      (statusPatch phase r ready wl.desired newYear wl.generation)) (.ok ()) w) :
    Rolls timeoutSecs p Q (writeStatus wl r phase ready action) w action
      (w.patched p wl.nameAny (statusPatch phase r ready wl.desired newYear wl.generation)) := by
  have hs : KubeOp.Effect p .now w newYear w := ⟨w.cluster, w.children, rfl, rfl, trivial, rfl⟩
  have hnow : Rolls timeoutSecs p Q (OperatorM.op .now) w newYear w :=
    Solo.liftExcept hs (hQ _ _ _ trivial)
  exact Solo.bindExcept (hnow.bindExcept (rolls_patchStatus hq)) .pure

end Parts

/-! ## Taking turns -/

/-- The calls of a run without conditions. -/
abbrev AnyCall (timeoutSecs : ℕ) : (rolloutSystem timeoutSecs).OpCond := fun _ _ _ _ => True

lemma modest_anyCall {timeoutSecs p : ℕ} : Modest (AnyCall timeoutSecs) p :=
  fun _ _ _ _ => trivial

/-- A pod is started, becomes ready, and is counted. -/
def startPod (w : Rollout) (i : ℕ) (template : Json) : Rollout :=
  { w with pods := Function.update w.pods i (some { template, ready := true }), counted := {i} }

/-- These are three steps of the surroundings, and none of them is about the workload. -/
lemma podSteps_startPod {w : Rollout} (hpods : ∀ i, w.pods i = none) (i : ℕ) (template : Json) :
    Relation.ReflTransGen (fun v v' => Env v v' ∧ v'.cluster = v.cluster) w
      (w.startPod i template) := by
  have hprobe := @Env.probe { w with pods := Function.update w.pods i (some ⟨template, false⟩) } i
    ⟨template, false⟩ true (Function.update_self i _ _)
  rw [Function.update_idem] at hprobe
  refine .tail (.tail (.tail .refl ⟨.create (hpods i), rfl⟩) ⟨hprobe, rfl⟩)
    ⟨.count fun j => ?_, rfl⟩
  rw [Finset.mem_singleton]
  constructor
  · rintro rfl
    exact ⟨_, Function.update_self _ _ _, rfl⟩
  · rintro ⟨pod, hpod, -⟩
    by_contra hne
    cases (hpods j).symm.trans ((Function.update_of_ne hne _ _).symm.trans hpod)

section Turns

variable {timeoutSecs p : ℕ} {Q : (rolloutSystem timeoutSecs).OpCond}
  {P : (rolloutSystem timeoutSecs).Config → (rolloutSystem timeoutSecs).Event → Prop}
  {c c' : (rolloutSystem timeoutSecs).Config} {w : Rollout}

/-- Whatever reconciles may begin, those that are under way have to meet no more than `Q`. -/
structure Free (P : (rolloutSystem timeoutSecs).Config → (rolloutSystem timeoutSecs).Event → Prop)
    (Q : (rolloutSystem timeoutSecs).OpCond) : Prop where
  ret : ∀ c p out, P c (.ret p out)
  env : ∀ c, P c .env
  op : ∀ c p o r, Q p o r c.world → P c (.op p o r)

lemma free_anyStep : Free (AnyStep (rolloutSystem timeoutSecs)) (AnyCall timeoutSecs) :=
  ⟨fun _ _ _ => trivial, fun _ => trivial, fun _ _ _ _ _ => trivial⟩

lemma free_serial : Free (Serial (rolloutSystem timeoutSecs)) (AnyCall timeoutSecs) :=
  ⟨fun _ _ _ => trivial, fun _ => trivial, fun _ _ _ _ _ => trivial⟩

lemma free_allows (W : Watch timeoutSecs) : Free W.Allows W.allowed :=
  ⟨fun _ _ _ => trivial, fun _ => trivial, fun _ _ _ _ h => h⟩

/-- A reconcile begins. -/
lemma reaches_start {wl : NiphasWorkload} (hstart : P c' (.start p wl))
    (h : Reaches (rolloutSystem timeoutSecs) P c c') (hwl : c'.world.cluster.versions wl)
    (hp : c'.procs p = none) :
    Reaches (rolloutSystem timeoutSecs) P c
      ({ c' with world := c'.world.began p }.set p
        (some { call := wl, rest := (reconcile timeoutSecs wl).run })) :=
  h.start hstart hp ⟨hwl, rfl⟩

/-- A reconcile goes on. -/
lemma reaches_goes (hP : Free P Q) (h : Reaches (rolloutSystem timeoutSecs) P c c')
    {wl : NiphasWorkload} {prog prog' : OperatorM Action}
    (hp : c'.procs p = some { call := wl, rest := prog.run })
    (hgo : Goes (rolloutSystem timeoutSecs) Q p prog.run c'.world prog'.run w) :
    Reaches (rolloutSystem timeoutSecs) P c
      ({ c' with world := w }.set p (some { call := wl, rest := prog'.run })) :=
  h.goes hgo hp fun _ _ _ _ hq => hP.op _ _ _ _ hq

/-- A reconcile comes to its end. -/
lemma reaches_end (hP : Free P Q) (h : Reaches (rolloutSystem timeoutSecs) P c c')
    {wl : NiphasWorkload} {prog : OperatorM Action} {action : Action}
    (hp : c'.procs p = some { call := wl, rest := prog.run })
    (hsolo : Rolls timeoutSecs p Q prog c'.world action w) :
    Reaches (rolloutSystem timeoutSecs) P c ({ c' with world := w }.set p none) := by
  have hdone := h.goes hsolo.goes hp fun _ _ _ _ hq => hP.op _ _ _ _ hq
  have hret := hdone.ret (hP.ret _ _ _) (Config.set_self _ _ _)
  rwa [Config.set_idem] at hret

/-- The workload is edited. -/
lemma reaches_edit (hP : Free P Q) (h : Reaches (rolloutSystem timeoutSecs) P c c')
    (obj : NiphasWorkload) (hstatus : obj.status = c'.world.object.status)
    (hfollows : c'.world.cluster.Follows obj) (hsame : obj.SameObject c'.world.object) :
    Reaches (rolloutSystem timeoutSecs) P c
      { c' with world := { c'.world with cluster := c'.world.cluster.store obj } } :=
  h.env (hP.env _) (.edit ⟨obj, rfl, hstatus, hfollows⟩ hsame)

/-- The Deployment controller starts the first pod. -/
lemma reaches_startPod (hP : Free P Q) (h : Reaches (rolloutSystem timeoutSecs) P c c')
    (hpods : ∀ i, c'.world.pods i = none) (i : ℕ) (template : Json) :
    Reaches (rolloutSystem timeoutSecs) P c { c' with world := c'.world.startPod i template } :=
  h.envs (fun _ => hP.env _)
    (Relation.ReflTransGen.mono (fun _ _ hs => hs.1) _ _ (podSteps_startPod hpods i template))

end Turns

/-! ## The first rollout -/

lemma lone_hello : Lone helloWorkload helloResult := rfl

lemma pending_hello : Pending helloWorkload := ⟨rfl, by decide, fun h => by cases h.2⟩

/-- The pod template of the first generation. -/
def helloTemplate : Json := podTemplate (buildDeployment helloWorkload helloResult "hello" "apps")

/-- The Deployment has been evaluated and applied. -/
def helloDeployed : Rollout :=
  (((created helloWorkload).began 0).evaluated helloWorkload helloResult).deployed 0 helloWorkload
    helloResult

/-- A pod is ready, and has been counted. -/
def helloCounted : Rollout := (helloDeployed.startPod 0 helloTemplate).counting 0

/-- The status has been written. -/
def helloRolled : Rollout :=
  helloCounted.patched 0 "hello" (statusPatch .running helloResult 1 1 newYear 1)

section

variable {Q : (rolloutSystem 300).OpCond}
  {P : (rolloutSystem 300).Config → (rolloutSystem 300).Event → Prop}

/-- The first reconcile, with nothing in between but the pod, up to its status. -/
lemma reaches_helloCounted (hP : Free P Q) (hQ : Modest Q 0)
    (hstart : P (Config.idle (created helloWorkload)) (.start 0 helloWorkload))
    (happly : ∀ child ∈ childManifests helloWorkload helloResult, Q 0 (.apply child) (.ok ())
      (((created helloWorkload).began 0).evaluated helloWorkload helloResult)) :
    Reaches (rolloutSystem 300) P (Config.idle (created helloWorkload))
      ((Config.idle helloCounted).set 0 (some { call := helloWorkload, rest :=
        (writeStatus helloWorkload helloResult .running 1 (.requeue 300)).run })) := by
  have hinit : Reaches (rolloutSystem 300) P (Config.idle (created helloWorkload))
      (Config.idle (created helloWorkload)) := .refl _
  have h₁ := reaches_start (p := 0) hstart hinit rfl rfl
  have h₂ := reaches_goes (p := 0) hP h₁ rfl (goes_toApply hQ pending_hello rfl helloResult _)
  have h₃ := reaches_goes (p := 0) hP h₂ rfl (goes_toRead hQ lone_hello happly)
  have h₄ := reaches_startPod hP h₃ (fun _ => rfl) 0 helloTemplate
  have h₅ := reaches_goes (p := 0) hP h₄ rfl (goes_toWrite hQ helloResult rfl (by decide))
  exact h₅.lone fun q hq => by
    rcases q with _ | q
    · exact absurd rfl hq
    · rfl

/-- It is about to return. -/
lemma reaches_helloReturns (hP : Free P Q) (hQ : Modest Q 0)
    (hstart : P (Config.idle (created helloWorkload)) (.start 0 helloWorkload))
    (happly : ∀ child ∈ childManifests helloWorkload helloResult, Q 0 (.apply child) (.ok ())
      (((created helloWorkload).began 0).evaluated helloWorkload helloResult))
    (hwrite : Q 0 (.patchStatus "hello" (statusPatch .running helloResult 1 1 newYear 1)) (.ok ())
      helloCounted) :
    Reaches (rolloutSystem 300) P (Config.idle (created helloWorkload))
      ((Config.idle helloRolled).set 0
        (some { call := helloWorkload, rest := .pure (.ok (.requeue 300)) })) := by
  have hwritten : Rolls 300 0 Q (writeStatus helloWorkload helloResult .running 1 (.requeue 300))
      helloCounted (.requeue 300) helloRolled := rolls_write hQ hwrite
  have hdone := (reaches_helloCounted hP hQ hstart happly).goes hwritten.goes
    (Config.set_self _ _ _) fun _ _ _ _ hq => hP.op _ _ _ _ hq
  exact hdone.lone fun q hq => by
    rcases q with _ | q
    · exact absurd rfl hq
    · rfl

/-- It has returned. -/
lemma reaches_helloRolled (hP : Free P Q) (hQ : Modest Q 0)
    (hstart : P (Config.idle (created helloWorkload)) (.start 0 helloWorkload))
    (happly : ∀ child ∈ childManifests helloWorkload helloResult, Q 0 (.apply child) (.ok ())
      (((created helloWorkload).began 0).evaluated helloWorkload helloResult))
    (hwrite : Q 0 (.patchStatus "hello" (statusPatch .running helloResult 1 1 newYear 1)) (.ok ())
      helloCounted) :
    Reaches (rolloutSystem 300) P (Config.idle (created helloWorkload))
      (Config.idle helloRolled) := by
  have hdone := (reaches_helloReturns hP hQ hstart happly hwrite).ret (hP.ret _ _ _)
    (Config.set_self _ _ _)
  exact hdone.idle fun p => by rcases p with _ | p <;> rfl

end

/-- The command of the workload is changed. -/
def recommanded (wl : NiphasWorkload) : NiphasWorkload :=
  { wl with
    metadata := { wl.metadata with generation := some 2 }
    spec := { wl.spec with command := some ["hello", "--traditional"] } }

/-- The new command is in the pod template. -/
lemma podTemplate_recommanded {wl : NiphasWorkload} {r : EvalResult} {name ns : String}
    (hspec : wl.spec = (recommanded helloWorkload).spec) :
    helloTemplate ≠ podTemplate (buildDeployment wl r name ns) := by
  intro heq
  have hcontainers : podContainers (buildDeployment helloWorkload helloResult "hello" "apps")
      = podContainers (buildDeployment wl r name ns) :=
    congrArg (fun template => ((template.get "spec").get "containers").items) heq
  rw [podContainers_buildDeployment, podContainers_buildDeployment, List.singleton_inj, hspec]
    at hcontainers
  have hcommand := congrArg (Json.get · "command") hcontainers
  simp only [command_buildContainer] at hcommand
  have hlength : 1 = 2 := congrArg (·.items.length) hcommand
  cases hlength

end Rollout

end Niphas
