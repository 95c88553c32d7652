import Niphas.Operator.ReconcileNotes
import Niphas.Operator.RolloutRuns

/-!
# Whether `Running` is still so

The operator watches the Deployments it owns, so that a workload is reconciled again when its
replicas come or go.  What such a reconcile finds is in the status it leaves, if it looks at all.

Here it matters when the Deployment is read, and not which pods there are.  So the Deployment is
represented by what a read of it may tell: whether it is there, and how many of its replicas are
ready.  Both may change at any time, by whomever.  Each reconcile has its notes in the world
(`ReconcileNotes`), and `Monitor.Keeps.run` hands the outcome that is told from the notes to every
run.

The status a reconcile leaves is its own last patch only if no other reconcile of the workload
writes in between.  A controller sees to that, and the system has it as a parameter: where
reconciles do not overlap, one begins only when no other is under way.

* `readinessSystem` — the reconciles, the workload, and its Deployment, whose readiness changes at
  any time and which may be deleted.
* `running_fresh` — a reconcile that returns an action leaves `Running` only for what it has itself
  read, as long as none is given a version that says `Running` already.
* `running_stale` — one that is returns at once, whatever has become of the Deployment.
-/

namespace Niphas

open System

/-! ## The system -/

/-- The workload, the ready replicas in the status of its Deployment if there is one, and the notes
of the reconciles. -/
structure Readiness where
  cluster : Cluster
  deployment : Option (Option Int)
  notes : ℕ → ReconcileNotes

namespace Readiness

/-- A workload as the operator finds it, and its Deployment. -/
def found (workload : NiphasWorkload) (deployment : Option (Option Int)) : Readiness :=
  { cluster := .created workload, deployment, notes := fun _ => {} }

/-- The workload as it is stored. -/
abbrev object (w : Readiness) : NiphasWorkload := w.cluster.object

/-- Reconcile `p` begins. -/
def began (w : Readiness) (p : ℕ) : Readiness :=
  { w with notes := Function.update w.notes p {} }

/-- What happens besides the reconciles: the workload is edited, the Deployment's replicas become
ready or not, it is deleted, or made by somebody else. -/
inductive Env : Readiness → Readiness → Prop
  | edit {w : Readiness} {cluster : Cluster} : w.cluster.Edit cluster → Env w { w with cluster }
  | deployment {w : Readiness} {deployment : Option (Option Int)} : Env w { w with deployment }

end Readiness

/-- What the operations make of the Deployment, and tell of it.  Applying it makes it where there is
none, and leaves its status alone. -/
def KubeOp.DeploymentSem : (o : KubeOp) → Option (Option Int) → kubeInterface.Answer o →
    Option (Option Int) → Prop
  | .apply child, d, r, d' =>
      child.kind = .deployment ∧ d' = some (d.getD none) ∨
        (child.kind ≠ .deployment ∨ ∃ e, r = .error e) ∧ d' = d
  | .getDeployment _, d, r, d' => ((∃ e, r = .error e) ∨ r = .ok d) ∧ d' = d
  | _, d, _, d' => d' = d

/-- What a call of reconcile `p` does. -/
def KubeOp.Acts (p : ℕ) (o : KubeOp) (w : Readiness) (r : kubeInterface.Answer o)
    (w' : Readiness) : Prop :=
  ∃ cluster deployment, o.Sem w.cluster r cluster ∧ o.DeploymentSem w.deployment r deployment ∧
    w' = { cluster, deployment, notes := Function.update w.notes p ((w.notes p).note o r) }

/-- The operator, the workload and its Deployment.  A reconcile begins with any version the workload
has had; where reconciles do not overlap, it begins when no other is under way, as a controller has
it for each of its objects. -/
def readinessSystem (timeoutSecs : ℕ) (overlap : Prop) : System where
  iface := kubeInterface
  World := Readiness
  Call := NiphasWorkload
  Out := Except OperatorFault Action
  program workload := (reconcile timeoutSecs workload).run
  sem := KubeOp.Acts
  begins w calls p workload w' :=
    (overlap ∨ ∀ q, calls q = none) ∧ w.cluster.versions workload ∧ w' = w.began p
  env := Readiness.Env
  crash w w' := w' = w

variable {timeoutSecs : ℕ} {overlap : Prop}

lemma keeps_notes : Monitor.Keeps (S := readinessSystem timeoutSecs overlap) reconcileMonitor
    Readiness.notes where
  begins {w calls p call w'} h := by
    obtain ⟨-, -, rfl⟩ := h
    rfl
  op {p o w r w'} h := by
    obtain ⟨cluster, deployment, -, -, rfl⟩ := h
    rfl
  env {w w'} h := by
    cases h with
    | edit _ => rfl
    | deployment => rfl

/-- In every run, the outcome of a reconcile is told from its notes. -/
lemma outcome_of_run
    {P : (readinessSystem timeoutSecs overlap).Config →
      (readinessSystem timeoutSecs overlap).Event →
      Prop} {w : Readiness} {evs : List (readinessSystem timeoutSecs overlap).Event}
    {c : (readinessSystem timeoutSecs overlap).Config}
    (hrun : Run (readinessSystem timeoutSecs overlap) P (Config.idle w) evs c) :
    Monitor.Holds (M := reconcileMonitor) Readiness.notes (fun _ => Stamped) Outcome c :=
  keeps_notes.run (shows_reconcile timeoutSecs) hrun

/-! ## `Running` is what has been read

The status a reconcile leaves is the last patch it has written, where it has written one and nobody
else has; and what that patch says is in the notes.
-/

/-- If the status says `Running`, then the reconcile `p` of the version `wl` has read of a
Deployment with at least as many ready replicas as are asked for, and the status has their
number. -/
def Readiness.RunningFresh (w : Readiness) (p : ℕ) (wl : NiphasWorkload) : Prop :=
  ∀ st, w.object.status = some st → st.phase = .running →
    ∃ ready, (w.notes p).deployment = some (some ready) ∧ wl.desired ≤ ready.getD 0 ∧
      st.readyReplicas = some (ready.getD 0)

/-- The version says `Running` for its generation, so that `reconcile` returns at once. -/
def NiphasWorkload.Settled (wl : NiphasWorkload) : Prop :=
  wl.generation ≤ wl.observed ∧ wl.status.map (·.phase) = some .running

/-- The version is neither being deleted nor without the finalizer. -/
def NiphasWorkload.Managed (wl : NiphasWorkload) : Prop :=
  wl.metadata.deletionTimestamp = none ∧ wl.hasFinalizer = true

/-- An operation that reads the Deployment. -/
def KubeOp.ReadsDeployment : KubeOp → Prop
  | .getDeployment _ => True
  | _ => False

/-- No reconcile is given a version that says `Running` already, and where it finds no Deployment,
at least one replica is asked for. -/
def Looks (c : (readinessSystem timeoutSecs overlap).Config) :
    (readinessSystem timeoutSecs overlap).Event → Prop
  | .start _ wl => NiphasWorkload.Managed wl → ¬ NiphasWorkload.Settled wl
  | .op p o _ => KubeOp.ReadsDeployment o → c.world.deployment = none →
      ∀ proc, c.procs p = some proc → 1 ≤ NiphasWorkload.desired proc.call
  | _ => True

/-- The last patch reconcile `p` has written is the status. -/
def Readiness.LastPatch (p : ℕ) (w : Readiness) : Prop :=
  ∀ patch, (w.notes p).patch = some patch → ∃ prior, w.object.status = some (patch.apply prior)

namespace Readiness

variable {p : ℕ} {w w' : Readiness}

lemma notes_acts {o : KubeOp} {r : kubeInterface.Answer o} (hs : o.Acts p w r w') :
    w'.notes p = (w.notes p).note o r := by
  obtain ⟨cluster, deployment, -, -, rfl⟩ := hs
  exact Function.update_self _ _ _

lemma notes_acts_of_ne {q : ℕ} (hqp : q ≠ p) {o : KubeOp} {r : kubeInterface.Answer o}
    (hs : o.Acts p w r w') : w'.notes q = w.notes q := by
  obtain ⟨cluster, deployment, -, -, rfl⟩ := hs
  exact Function.update_of_ne hqp _ _

/-- A call that does not write the status. -/
lemma LastPatch.of_eq (h : LastPatch p w) (hpatch : (w'.notes p).patch = (w.notes p).patch)
    (hstatus : w'.object.status = w.object.status) : LastPatch p w' :=
  fun patch hp => hstatus ▸ h patch (hpatch.symm.trans hp)

lemma LastPatch.op (h : LastPatch p w) {o : KubeOp} {r : kubeInterface.Answer o}
    (hs : o.Acts p w r w') : LastPatch p w' := by
  have hnotes := notes_acts hs
  obtain ⟨cluster, deployment, hcluster, hdeployment, hw⟩ := hs
  have hobject : w'.object = cluster.object := by rw [hw]
  cases o with
  | patchStatus name patch =>
      intro patch' hp
      rw [hnotes] at hp
      rcases r with e | ⟨⟩
      · cases hp
      · obtain rfl := Option.some.inj hp
        obtain rfl : cluster = w.cluster.patchStatus patch :=
          hcluster.resolve_right fun ⟨⟨e, he⟩, _⟩ => by cases he
        exact ⟨_, congrArg NiphasWorkload.status hobject⟩
  | patchFinalizers name finalizers =>
      refine h.of_eq (by rw [hnotes]; rfl) ?_
      rcases hcluster with rfl | ⟨-, rfl⟩
      · rw [hobject]
        rfl
      · rw [hobject]
  | getDeployment name =>
      cases hcluster
      refine h.of_eq ?_ (by rw [hobject])
      rw [hnotes]
      cases r <;> rfl
  | evaluate req =>
      cases hcluster
      exact h.of_eq (by rw [hnotes]; rfl) (by rw [hobject]; rfl)
  | _ =>
      cases hcluster
      exact h.of_eq (by rw [hnotes]; rfl) (by rw [hobject])

lemma LastPatch.env (h : LastPatch p w) (henv : Env w w') : LastPatch p w' := by
  cases henv with
  | edit hedit =>
      obtain ⟨obj, rfl, hstatus, -⟩ := hedit
      exact h.of_eq rfl hstatus
  | deployment => exact h.of_eq rfl rfl

end Readiness

section Turns

variable {P : (readinessSystem timeoutSecs False).Config →
    (readinessSystem timeoutSecs False).Event → Prop}
  {evs : List (readinessSystem timeoutSecs False).Event}
  {c c' : (readinessSystem timeoutSecs False).Config}
  {ev : (readinessSystem timeoutSecs False).Event}

/-- No two reconciles are under way, so the last patch of the one that is is the status. -/
structure Takes (c : (readinessSystem timeoutSecs False).Config) : Prop where
  one : ∀ p q, c.procs p ≠ none → c.procs q ≠ none → p = q
  last : ∀ p proc, c.procs p = some proc → c.world.LastPatch p

lemma Takes.step (h : Takes c) (hs : Step (readinessSystem timeoutSecs False) c ev c') :
    Takes c' := by
  have hone : ∀ (w : Readiness) p proc', (∀ q, q ≠ p → c.procs q = none) →
      ∀ q q', ({ c with world := w }.set p proc').procs q ≠ none →
        ({ c with world := w }.set p proc').procs q' ≠ none → q = q' := by
    intro w p proc' hothers
    have hp : ∀ q, ({ c with world := w }.set p proc').procs q ≠ none → q = p := by
      intro q hq
      by_contra hqp
      rw [Config.set_of_ne _ _ hqp] at hq
      exact hq (hothers q hqp)
    exact fun q q' hq hq' => (hp q hq).trans (hp q' hq').symm
  have hothers : ∀ {p proc}, c.procs p = some proc → ∀ q, q ≠ p → c.procs q = none := by
    intro p proc hp q hqp
    by_contra hq
    exact hqp (h.one q p hq (by rw [hp]; exact Option.some_ne_none _))
  cases hs with
  | @start p wl w hp hbegin =>
      obtain ⟨hidle, -, rfl⟩ := hbegin
      have hnone : ∀ q, c.procs q = none := fun q =>
        Option.map_eq_none_iff.mp (hidle.resolve_left not_false q)
      refine ⟨hone _ p _ fun q _ => hnone q, fun q proc hq patch hpatch => ?_⟩
      rcases Config.set_eq_some hq with ⟨rfl, -⟩ | ⟨-, hold⟩
      · have hnotes : (c.world.began q).notes q = {} := Function.update_self _ _ _
        cases (congrArg ReconcileNotes.patch hnotes).symm.trans hpatch
      · cases (hnone q).symm.trans hold
  | @op p wl o k r w hp hsem =>
      refine ⟨hone w p _ (hothers hp), fun q proc hq => ?_⟩
      rcases Config.set_eq_some hq with ⟨rfl, -⟩ | ⟨hqp, hold⟩
      · exact (h.last q _ hp).op hsem
      · cases (hothers hp q hqp).symm.trans hold
  | @ret p wl out hp =>
      refine ⟨hone c.world p none (hothers hp), fun q proc hq => ?_⟩
      rcases Config.set_eq_some hq with ⟨-, hmoved⟩ | ⟨-, hold⟩
      · cases hmoved
      · exact h.last q proc hold
  | env henv => exact ⟨h.one, fun q proc hq => (h.last q proc hq).env henv⟩
  | crash _ => exact ⟨fun p _ hp => absurd rfl hp, fun p proc hp => by cases hp⟩

/-- Reconciles that do not overlap. -/
lemma takes_of_run {w : Readiness}
    (hrun : Run (readinessSystem timeoutSecs False) P (Config.idle w) evs c) : Takes c :=
  hrun.invariant (fun h _ hs => h.step hs)
    ⟨fun p _ hp => absurd rfl hp, fun p proc hp => by cases hp⟩

end Turns

/-- What is so of a reconcile in a run that looks. -/
structure Looked (p : ℕ) (wl : NiphasWorkload) (w : Readiness) : Prop where
  pending : wl.Managed → Pending wl
  absent : (w.notes p).deployment = some none → 1 ≤ wl.desired

lemma Looked.op {p : ℕ} {wl : NiphasWorkload} {w w' : Readiness} (h : Looked p wl w) {o : KubeOp}
    {r : kubeInterface.Answer o} (hs : o.Acts p w r w')
    (hlooks : o.ReadsDeployment → w.deployment = none → 1 ≤ wl.desired) : Looked p wl w' := by
  refine ⟨h.pending, fun hd => ?_⟩
  rw [Readiness.notes_acts hs] at hd
  cases o with
  | getDeployment name =>
      obtain ⟨cluster, deployment, -, hdeployment, -⟩ := hs
      rcases r with e | read
      · exact h.absent hd
      · obtain rfl : read = none := Option.some.inj hd
        have hnone : Except.ok none = Except.ok w.deployment :=
          hdeployment.1.resolve_left fun ⟨e, he⟩ => by cases he
        exact hlooks trivial (Except.ok.inj hnone).symm
  | patchStatus name patch =>
      rcases r with e | ⟨⟩
      · exact h.absent hd
      · exact h.absent hd
  | _ => exact h.absent hd

/-- A run that looks. -/
lemma looked_of_run {w : Readiness} {evs : List (readinessSystem timeoutSecs overlap).Event}
    {c : (readinessSystem timeoutSecs overlap).Config}
    (hrun : Run (readinessSystem timeoutSecs overlap) Looks (Config.idle w) evs c) :
    ∀ p proc, c.procs p = some proc → Looked p proc.call c.world := by
  have hidle : ∀ p proc, (Config.idle w : (readinessSystem timeoutSecs overlap).Config).procs p
      = some proc → Looked p proc.call w := fun p proc hp => by cases hp
  refine @Run.invariant _ _ (fun c => ∀ p proc, c.procs p = some proc →
    Looked p proc.call c.world) (fun {c ev c'} hc hP hs => ?_) _ _ _ hrun hidle
  refine hs.each hc (fun p wl w hev hbegin => ?_) (fun p wl o k r w hev hp hsem => ?_)
    fun w henv q proc h => ?_
  · subst hev
    obtain ⟨-, -, rfl⟩ := hbegin
    refine ⟨⟨fun hwl => ⟨hwl.1, hwl.2, hP hwl⟩, fun hd => ?_⟩, fun q proc hqp h => ?_⟩
    · have hnotes : (c.world.began p).notes p = {} := Function.update_self _ _ _
      cases (congrArg ReconcileNotes.deployment hnotes).symm.trans hd
    · have hnotes : (c.world.began p).notes q = c.world.notes q := Function.update_of_ne hqp _ _
      exact ⟨h.pending, fun hd => h.absent (hnotes ▸ hd)⟩
  · subst hev
    refine ⟨(hc p _ hp).op hsem fun hreads hnone => hP hreads hnone _ hp, fun q proc hqp h => ?_⟩
    exact ⟨h.pending, fun hd => h.absent (Readiness.notes_acts_of_ne hqp hsem ▸ hd)⟩
  · cases henv with
    | edit _ => exact ⟨h.pending, h.absent⟩
    | deployment => exact ⟨h.pending, h.absent⟩

/-- What an outcome leaves. -/
lemma Looked.runningFresh {p : ℕ} {wl : NiphasWorkload} {w : Readiness} (h : Looked p wl w)
    (hlast : w.LastPatch p) {action : Action} (hout : Outcome wl (.ok action) (w.notes p))
    (hwl : wl.Managed) : w.RunningFresh p wl := by
  intro st hst hrunning
  rcases hout action rfl with ⟨hnot, -⟩ | ⟨-, patch, hpatch, hwritten⟩
  · exact absurd (h.pending hwl) hnot
  obtain ⟨prior, hstatus⟩ := hlast patch hpatch
  obtain rfl := Option.some.inj (hst.symm.trans hstatus)
  rcases hwritten with ⟨reason, message, now, rfl⟩ | ⟨r, deployment, now, hread, -, -, rfl⟩
  · cases hrunning
  have hphase : reportedPhase wl (Watch.readyReplicas deployment) = .running := hrunning
  have hdesired : wl.desired ≤ Watch.readyReplicas deployment := by
    by_contra hlt
    rw [reportedPhase, if_neg hlt] at hphase
    cases hphase
  cases deployment with
  | none =>
      have hpos := h.absent hread
      have hzero : Watch.readyReplicas none = 0 := rfl
      omega
  | some ready => exact ⟨ready, hread, hdesired, rfl⟩

/-- **`Running` is never stale**, in every run of reconciles that do not overlap in which none is
given a version that says `Running` for its generation, and a Deployment that is not there is not
enough. -/
theorem running_fresh {wl wl' : NiphasWorkload} {deployment : Option (Option Int)}
    {evs : List (readinessSystem timeoutSecs False).Event}
    {c : (readinessSystem timeoutSecs False).Config} {p : ℕ} {action : Action}
    (hrun : Run (readinessSystem timeoutSecs False) Looks
      (Config.idle (.found wl deployment)) evs c)
    (hp : c.procs p = some { call := wl', rest := .pure (.ok action) })
    (hwl : wl'.Managed) : c.world.RunningFresh p wl' :=
  (looked_of_run hrun p _ hp).runningFresh ((takes_of_run hrun).last p _ hp)
    (outcome_of_run hrun p _ hp) hwl

/-! ## Reconciles that run alone -/

section Alone

variable {p : ℕ} {Q : (readinessSystem timeoutSecs overlap).OpCond} {w : Readiness}

/-- A part of a reconcile runs to its end with nothing in between. -/
abbrev Acting (timeoutSecs : ℕ) (overlap : Prop) (p : ℕ)
    (Q : (readinessSystem timeoutSecs overlap).OpCond) {α : Type} (prog : OperatorM α)
    (w : Readiness) (a : α) (w' : Readiness) : Prop :=
  Solo (readinessSystem timeoutSecs overlap) Q p prog.run w (.ok a) w'

/-- `Q` asks for no more than that a Deployment is there when it is read. -/
def Readable (Q : (readinessSystem timeoutSecs overlap).OpCond) (p : ℕ) : Prop :=
  ∀ (o : KubeOp) r w, (o.ReadsDeployment → w.deployment ≠ none) → Q p o r w

/-- A call that succeeds. -/
lemma acting_op {o : KubeOp} {r : kubeInterface.Answer o} {cluster : Cluster}
    {deployment : Option (Option Int)} (hs : o.Sem w.cluster r cluster)
    (hd : o.DeploymentSem w.deployment r deployment) (hq : Q p o r w) :
    Acting timeoutSecs overlap p Q (OperatorM.op o) w r
      { cluster, deployment, notes := Function.update w.notes p ((w.notes p).note o r) } :=
  Solo.liftExcept ⟨cluster, deployment, hs, hd, rfl⟩ hq

lemma acting_publishEvent (hQ : Readable Q p) (type : EventType) (reason note : String) :
    Acting timeoutSecs overlap p Q (OperatorM.op (.publishEvent type reason note)) w ()
      { w with notes := Function.update w.notes p (w.notes p) } :=
  acting_op (o := .publishEvent type reason note) rfl rfl (hQ _ _ _ nofun)

lemma acting_patchStatus (hQ : Readable Q p) (name : String) (patch : StatusPatch) :
    Acting timeoutSecs overlap p Q
      (do OperatorM.ofKube (← OperatorM.op (.patchStatus name patch))) w ()
      { w with
        cluster := w.cluster.patchStatus patch
        notes := Function.update w.notes p { w.notes p with patch := some patch } } :=
  Solo.bindExcept (acting_op (o := .patchStatus name patch) (r := .ok ()) (.inl rfl) rfl
    (hQ _ _ _ nofun)) .pure

/-- What an update leaves: the status is patched, and it has been read that there is a Deployment
with `deployment` in its status. -/
structure Updates (p : ℕ) (patch : StatusPatch) (cluster : Cluster) (deployment : Option Int)
    (w : Readiness) : Prop where
  stored : w.cluster = cluster.patchStatus patch
  there : w.deployment = some deployment
  patched : (w.notes p).patch = some patch
  read : (w.notes p).deployment = some (some deployment)

lemma acting_updateStatus (hQ : Readable Q p) (wl : NiphasWorkload) (phase : WorkloadPhase)
    (r : EvalResult) (ready : Int) (now : String) {deployment : Option Int}
    (hd : w.deployment = some deployment)
    (hread : (w.notes p).deployment = some (some deployment)) :
    ∃ w', Acting timeoutSecs overlap p Q (updateStatus wl phase r ready wl.generation) w () w' ∧
      Updates p (statusPatch phase r ready wl.desired now wl.generation) w.cluster
        deployment w' := by
  have hself : ∀ (notes : ℕ → ReconcileNotes) s, Function.update notes p s p = s :=
    fun _ _ => Function.update_self _ _ _
  have hnoted := congrArg ReconcileNotes.deployment (hself w.notes ((w.notes p).note .now now))
  refine ⟨_, Solo.bindExcept (acting_op (o := .now) (r := now) rfl rfl (hQ _ _ _ nofun))
    (acting_patchStatus hQ _ _), rfl, hd, congrArg ReconcileNotes.patch (hself _ _), ?_⟩
  exact (congrArg ReconcileNotes.deployment (hself _ _)).trans (hnoted.trans hread)

/-- The webhook answers with a result. -/
lemma acting_evalFresh (hQ : Readable Q p) (wl : NiphasWorkload) (r : EvalResult) :
    ∃ w', Acting timeoutSecs overlap p Q (evalFresh timeoutSecs wl) w (.ok r) w' ∧
      w'.cluster = (w.cluster.patchStatus (phasePatch .evaluating)).record
        (EvalRequest.ofSpec wl.spec) (.success (.ok r)) ∧ w'.deployment = w.deployment := by
  refine ⟨_, Solo.bindExcept (acting_patchStatus hQ _ _) (Solo.bindExcept
    (acting_publishEvent hQ _ _ _) (Solo.bindExcept (acting_op
      (o := .evaluate (EvalRequest.ofSpec wl.spec)) (r := .success (.ok r)) rfl rfl
      (hQ _ _ _ nofun)) (Solo.bindExcept (acting_publishEvent hQ _ _ _) .pure))), rfl, rfl⟩

/-- The action a reconcile returns for a number of ready replicas. -/
def reportedAction (wl : NiphasWorkload) (ready : Int) : Action :=
  if wl.desired ≤ ready then .requeue 300 else .requeue 5

/-- The Deployment is read. -/
lemma acting_count (hQ : Readable Q p) (wl : NiphasWorkload) {deployment : Option Int}
    (hd : w.deployment = some deployment) :
    ∃ notes, Acting timeoutSecs overlap p Q (countReadyReplicas wl) w (deployment.getD 0)
        { w with notes } ∧ (notes p).deployment = some (some deployment) := by
  have hself : ∀ (notes : ℕ → ReconcileNotes) s, Function.update notes p s p = s :=
    fun _ _ => Function.update_self _ _ _
  have hq : Q p (.getDeployment wl.nameAny) (.ok (some deployment)) w :=
    hQ _ _ _ fun _ => by rw [hd]; exact Option.some_ne_none _
  exact ⟨_, Solo.bindExcept (acting_op (o := .getDeployment wl.nameAny)
    (r := .ok (some deployment)) rfl ⟨.inr (congrArg _ hd.symm), rfl⟩ hq)
      (Solo.bindExcept .pure .pure), congrArg ReconcileNotes.deployment (hself _ _)⟩

/-- The Deployment is read, and the status written. -/
lemma acting_reportStatus (hQ : Readable Q p) (wl : NiphasWorkload) (r : EvalResult)
    {deployment : Option Int} (hd : w.deployment = some deployment) (now : String) {ready : Int}
    (hready : deployment.getD 0 = ready) :
    ∃ w', Acting timeoutSecs overlap p Q (reportStatus wl r) w (reportedAction wl ready) w' ∧
      Updates p (statusPatch
        (reportedPhase wl ready) r ready wl.desired now wl.generation) w.cluster
        deployment w' := by
  subst hready
  obtain ⟨notes, hcount, hread⟩ := @acting_count timeoutSecs overlap p Q
    { w with notes := Function.update w.notes p (w.notes p) } hQ wl deployment hd
  rw [reportedPhase, reportedAction]
  by_cases hle : wl.desired ≤ deployment.getD 0
  · have hread' : (Function.update notes p (notes p) p).deployment = some (some deployment) := by
      rw [Function.update_self, hread]
    obtain ⟨w', hupdate, hw'⟩ := @acting_updateStatus timeoutSecs overlap p Q
      { w with notes := Function.update notes p (notes p) } hQ wl .running r (deployment.getD 0) now
      deployment hd hread'
    rw [if_pos hle, if_pos hle]
    refine ⟨w', Solo.bindExcept (acting_publishEvent hQ _ _ _) (Solo.bindExcept hcount ?_), hw'⟩
    rw [if_pos hle]
    exact Solo.bindExcept (acting_publishEvent hQ _ _ _) (Solo.bindExcept hupdate .pure)
  · obtain ⟨w', hupdate, hw'⟩ := @acting_updateStatus timeoutSecs overlap p Q { w with notes }
      hQ wl .provisioning r (deployment.getD 0) now deployment hd hread
    rw [if_neg hle, if_neg hle]
    refine ⟨w', Solo.bindExcept (acting_publishEvent hQ _ _ _) (Solo.bindExcept hcount ?_), hw'⟩
    rw [if_neg hle]
    exact Solo.bindExcept hupdate .pure

/-- Everything is applied. -/
lemma acting_provision (hQ : Readable Q p) {wl : NiphasWorkload} {r : EvalResult}
    (hlone : Rollout.Lone wl r) (now : String) {ready : Int}
    (hready : (w.deployment.getD none).getD 0 = ready) :
    ∃ w', Acting timeoutSecs overlap p Q (provision wl r) w (reportedAction wl ready) w' ∧
      Updates p (statusPatch (reportedPhase wl ready) r ready wl.desired now wl.generation)
        (w.cluster.patchStatus (phasePatch .provisioning)) (w.deployment.getD none) w' := by
  let w₁ : Readiness :=
    { w with
      cluster := w.cluster.patchStatus (phasePatch .provisioning)
      notes := Function.update w.notes p
        { w.notes p with patch := some (phasePatch .provisioning) } }
  let w₂ : Readiness :=
    { w₁ with
      deployment := some (w.deployment.getD none)
      notes := Function.update w₁.notes p (w₁.notes p) }
  have happly : Solo (readinessSystem timeoutSecs overlap) Q p
      (applyChildren (childManifests wl r)) w₁ (.ok ()) w₂ := by
    have hs : ∀ child : ChildManifest, child.kind = .deployment →
        KubeOp.Acts p (.apply child) w₁ (.ok ()) w₂ :=
      fun _ hkind => ⟨w₁.cluster, _, rfl, .inl ⟨hkind, rfl⟩, rfl⟩
    rw [hlone]
    exact .call (hs _ rfl) (hQ _ _ _ nofun) .pure
  obtain ⟨w', hreport, hw'⟩ := @acting_reportStatus timeoutSecs overlap p Q w₂ hQ wl r
    (w.deployment.getD none) rfl now ready hready
  exact ⟨w', Solo.bindExcept (acting_patchStatus hQ _ _)
    (Solo.bindExcept (Solo.bind happly .pure) hreport), hw'⟩

/-- A reconcile that evaluates. -/
lemma acting_reconcile (hQ : Readable Q p) {wl : NiphasWorkload} {r : EvalResult}
    (hpending : Pending wl) (hneeds : needsEval wl wl.observed wl.generation)
    (hlone : Rollout.Lone wl r) (now : String) {ready : Int}
    (hready : (w.deployment.getD none).getD 0 = ready) :
    ∃ w', Acting timeoutSecs overlap p Q (reconcile timeoutSecs wl) w (reportedAction wl ready) w' ∧
      Updates p (statusPatch (reportedPhase wl ready) r ready wl.desired now wl.generation)
        (((w.cluster.patchStatus (phasePatch .evaluating)).record (EvalRequest.ofSpec wl.spec)
          (.success (.ok r))).patchStatus (phasePatch .provisioning))
            (w.deployment.getD none) w' := by
  obtain ⟨w₁, heval, hcluster, hdeployment⟩ := @acting_evalFresh timeoutSecs overlap p Q w hQ
    wl r
  rw [← hdeployment] at hready
  obtain ⟨w', hprovision, hw'⟩ := @acting_provision timeoutSecs overlap p Q w₁ hQ wl r hlone now
    ready hready
  rw [hcluster, hdeployment] at hw'
  refine ⟨w', ?_, hw'⟩
  rw [hpending.reconcile_eq, if_pos hneeds]
  exact Solo.bindExcept heval hprovision

/-- A reconcile that reads the result back from the status. -/
lemma acting_reconcile_cached (hQ : Readable Q p) {wl : NiphasWorkload} {r : EvalResult}
    (hpending : Pending wl) (hneeds : ¬ needsEval wl wl.observed wl.generation)
    (hcached : EvalResult.fromStatus (wl.status.getD {}) = .ok (some r))
    (hlone : Rollout.Lone wl r) (now : String) {ready : Int}
    (hready : (w.deployment.getD none).getD 0 = ready) :
    ∃ w', Acting timeoutSecs overlap p Q (reconcile timeoutSecs wl) w (reportedAction wl ready) w' ∧
      Updates p (statusPatch (reportedPhase wl ready) r ready wl.desired now wl.generation)
        (w.cluster.patchStatus (phasePatch .provisioning)) (w.deployment.getD none) w' := by
  obtain ⟨w', hprovision, hw'⟩ := @acting_provision timeoutSecs overlap p Q w hQ wl r hlone now
    ready hready
  refine ⟨w', ?_, hw'⟩
  rw [hpending.reconcile_eq, if_neg hneeds, evalCached, hcached]
  exact Solo.bindExcept .pure hprovision

end Alone

/-! ## A Deployment that goes -/

namespace Readiness

/-- The workload has no status yet, and its Deployment has a ready replica. -/
def helloFound : Readiness := .found helloWorkload (some (some 1))

/-- The first reconcile, to its end. -/
lemma acting_helloFound {Q : (readinessSystem 300 False).OpCond} (hQ : Readable Q 0) :
    ∃ w, Acting 300 False 0 Q (reconcile 300 helloWorkload) (helloFound.began 0) (.requeue 300) w ∧
      w.cluster = helloRunning ∧ w.deployment = some (some 1) := by
  obtain ⟨w, hsolo, hw⟩ := @acting_reconcile 300 False 0 Q (helloFound.began 0) hQ helloWorkload
    helloResult Rollout.pending_hello rfl Rollout.lone_hello newYear 1 rfl
  exact ⟨w, hsolo, hw.stored, hw.there⟩

/-- The operations of a run that looks. -/
lemma readable_looks {p : ℕ} :
    Readable (fun _ (o : KubeOp) _ (w : Readiness) => o.ReadsDeployment → w.deployment ≠ none :
      (readinessSystem timeoutSecs overlap).OpCond) p := fun _ _ _ h => h

end Readiness

/-- The replica is there, and read. -/
theorem running_fresh_hello :
    ∃ evs c, Run (readinessSystem 300 False) Looks (Config.idle Readiness.helloFound) evs c ∧
      c.procs 0 = some { call := helloWorkload, rest := .pure (.ok (.requeue 300)) } ∧
      c.world.object.status.map (·.phase) = some .running ∧
        c.world.RunningFresh 0 helloWorkload := by
  obtain ⟨w, hsolo, hcluster, -⟩ := Readiness.acting_helloFound Readiness.readable_looks
  obtain ⟨evs, hrun⟩ := (Reaches.refl (P := Looks) (Config.idle Readiness.helloFound)).underWay
    (p := 0) (S := readinessSystem 300 False) (fun _ h => by cases h.2)
    ⟨.inr fun _ => rfl, rfl, rfl⟩ hsolo.goes fun _ _ _ _ hq hreads hnone => absurd hnone (hq hreads)
  have hphase : w.cluster.object.status.map (·.phase) = some .running := by
    rw [hcluster]
    rfl
  exact ⟨evs, _, hrun, Config.set_self _ _ _, hphase,
    running_fresh hrun (Config.set_self _ _ _) ⟨rfl, by decide⟩⟩

/-- **`Running` is kept when the Deployment is gone**: the reconcile that is to find this out, of
the stored version, returns as it begins. -/
theorem running_stale :
    ∃ evs c c', Run (readinessSystem 300 False) (AnyStep _)
      (Config.idle Readiness.helloFound) evs c ∧
      c.world.deployment = none ∧ c.world.object.Managed ∧
      Step (readinessSystem 300 False) c (.start 0 c.world.object) c' ∧
      c'.procs 0 = some { call := c.world.object, rest := .pure (.ok (.requeue 300)) } ∧
      c'.world.deployment = none ∧ c'.world.object.status.map (·.phase) = some .running ∧
      ¬ c'.world.RunningFresh 0 c.world.object := by
  obtain ⟨w, hsolo, hcluster, hdeployment⟩ :=
    @Readiness.acting_helloFound (fun _ _ _ _ => True) fun _ _ _ _ => trivial
  have hbegin : (readinessSystem 300 False).begins Readiness.helloFound (fun _ => none) 0
      helloWorkload (Readiness.helloFound.began 0) := ⟨.inr fun _ => rfl, rfl, rfl⟩
  obtain ⟨evs, hrun⟩ := Solo.run (P := AnyStep _) hsolo hbegin trivial (fun _ _ _ _ _ => trivial)
    trivial
  have hgone := hrun.snoc trivial (.env (@Readiness.Env.deployment _ none))
  obtain ⟨cluster, deployment, notes⟩ := w
  obtain rfl : cluster = helloRunning := hcluster
  have hmanaged : helloRunning.object.Managed := ⟨rfl, by decide⟩
  refine ⟨_, _, _, hgone, rfl, hmanaged, .start rfl ⟨.inr fun _ => rfl, .inr rfl, rfl⟩,
    Config.set_self _ _ _, rfl, rfl, fun hfresh => ?_⟩
  obtain ⟨ready, hread, -⟩ := hfresh _ rfl rfl
  have hnotes : Function.update notes 0 {} 0 = {} := Function.update_self _ _ _
  cases (congrArg ReconcileNotes.deployment hnotes).symm.trans hread

end Niphas
