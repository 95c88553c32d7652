import Mathlib.Data.Finset.Card
import Niphas.Operator.Children
import Niphas.Operator.Cluster

/-!
# Rolling out a workload

The operator's reconciles in the cluster, with the children they apply and the pods that come of
them.  Any number of reconciles work at a time, each from some version the workload has had: that is
one operator on stale snapshots as well as two operators that both take themselves for the leader.
The Deployment controller starts and stops pods at its own pace, and counts the ready ones of all
templates in the status of the Deployment.

**What the surroundings may do.**  Pods may be started from any template, become ready or not, and
go, at any time; this is more than the Deployment controller does, and leaves its strategy open.
The workload may be edited at any time, by anybody.  Its children are changed by the operator alone:
nobody else applies, edits or deletes a Deployment, a Service, an Ingress or a PodDisruptionBudget
of a workload (`Rollout.Env`).  This is an assumption about the cluster, not a fact about the code,
which would not notice: `running_stale` of `Readiness` is a run in which the Deployment is deleted
and the status stays at `Running`.

**What is remembered.**  Several properties relate what a reconcile writes to what it has applied
and read before.  Rather than look for that in the events of a run, the world remembers it, in
fields that no call reads.  They change no behaviour, and make such a property an invariant of the
state.

* `rolloutSystem` — the system.  The world also remembers what each reconcile has applied and read,
  and over which pods `Running` has been written.
* `Rollout.Base` — in every state, the versions are in order and all of one object.
* `Rollout.Rely` — what one reconcile may rely on while the others work.
-/

namespace Niphas

open System

/-! ## The world -/

/-- A pod: the template it was made from, and whether it is ready. -/
structure Pod where
  template : Json
  ready : Bool

/-- The pod template of a Deployment. -/
def podTemplate (deployment : Json) : Json := (deployment.get "spec").get "template"

/-- A status patch, and the pods there were when it was sent. -/
structure Report where
  patch : StatusPatch
  pods : ℕ → Option Pod

/-- The workload, its children, and its pods.  `counted` are the pods the status of the Deployment
counts as ready.  The rest is history: the Deployment each reconcile has applied, the pods counted
in the status it has read, and the patches that set `Running`. -/
structure Rollout where
  cluster : Cluster
  children : Children
  pods : ℕ → Option Pod
  counted : Finset ℕ
  applied : ℕ → Option Json
  read : ℕ → Finset ℕ
  reports : List Report

namespace Rollout

/-- A workload nobody has reconciled yet. -/
def created (workload : NiphasWorkload) : Rollout :=
  { cluster := .created workload, children := .empty, pods := fun _ => none, counted := ∅
    applied := fun _ => none, read := fun _ => ∅, reports := [] }

/-- The workload as it is stored. -/
abbrev object (w : Rollout) : NiphasWorkload := w.cluster.object

/-- The Deployment of the workload, as it is now. -/
def live (w : Rollout) : Option Json :=
  w.children.get .deployment w.object.nameAny w.object.ns

/-- The pods a read of the Deployment's status counts. -/
def countedNow (w : Rollout) : Finset ℕ := if w.live.isSome then w.counted else ∅

/-- What is remembered of a call of reconcile `p`. -/
def note (w : Rollout) (p : ℕ) : KubeOp → Rollout
  | .apply child =>
      if child.kind = .deployment then
        { w with applied := Function.update w.applied p (some child.manifest) }
      else w
  | .getDeployment _ => { w with read := Function.update w.read p w.countedNow }
  | .patchStatus _ patch =>
      if patch.phase = some .running then { w with reports := w.reports ++ [⟨patch, w.pods⟩] }
      else w
  | _ => w

/-- Reconcile `p` begins: it has neither applied nor read anything. -/
def began (w : Rollout) (p : ℕ) : Rollout :=
  { w with
    applied := Function.update w.applied p none
    read := Function.update w.read p ∅ }

/-- A ready pod of the template of a Deployment. -/
def ReadyFor (pods : ℕ → Option Pod) (deployment : Json) (i : ℕ) : Prop :=
  ∃ pod, pods i = some pod ∧ pod.ready = true ∧ pod.template = podTemplate deployment

/-- At least `n` pods are ready and run the template of the Deployment. -/
def AtLeast (pods : ℕ → Option Pod) (n : Int) (deployment : Json) : Prop :=
  ∃ ready : Finset ℕ, n ≤ ready.card ∧ ∀ i ∈ ready, ReadyFor pods deployment i

end Rollout

/-! ## The system -/

/-- What a read of the Deployment may answer: that there is none, or how many replicas are ready.
The field is left out where there are none. -/
def KubeOp.Answers (w : Rollout) : (o : KubeOp) → kubeInterface.Answer o → Prop
  | .getDeployment _, r => (∃ e, r = .error e) ∨ w.live = none ∧ r = .ok none ∨
      w.live.isSome ∧ ∃ ready, r = .ok (some ready) ∧ ready.getD 0 = w.counted.card
  | _, _ => True

/-- What a call of reconcile `p` does. -/
def KubeOp.Effect (p : ℕ) (o : KubeOp) (w : Rollout) (r : kubeInterface.Answer o)
    (w' : Rollout) : Prop :=
  ∃ cluster children, o.Sem w.cluster r cluster ∧ o.ChildSem w.children r children ∧
    o.Answers w r ∧ w' = { w.note p o with cluster, children }

/-- The two versions are of one object. -/
def NiphasWorkload.SameObject (wl wl' : NiphasWorkload) : Prop :=
  wl.nameAny = wl'.nameAny ∧ wl.ns = wl'.ns ∧ wl.metadata.uid = wl'.metadata.uid

/-- What happens besides the reconciles: the workload is edited, pods come, become ready or not and
go, and the status of the Deployment is brought up to date.  Nobody else changes or deletes a
child. -/
inductive Rollout.Env : Rollout → Rollout → Prop
  | edit {w : Rollout} {cluster : Cluster} : w.cluster.Edit cluster →
      cluster.object.SameObject w.object → Env w { w with cluster }
  | create {w : Rollout} {i : ℕ} {template : Json} : w.pods i = none →
      Env w { w with pods := Function.update w.pods i (some { template, ready := false }) }
  | probe {w : Rollout} {i : ℕ} {pod : Pod} {ready : Bool} : w.pods i = some pod →
      Env w { w with pods := Function.update w.pods i (some { pod with ready }) }
  | delete {w : Rollout} {i : ℕ} : Env w { w with pods := Function.update w.pods i none }
  | count {w : Rollout} {counted : Finset ℕ} :
      (∀ i, i ∈ counted ↔ ∃ pod, w.pods i = some pod ∧ pod.ready = true) →
        Env w { w with counted }

/-- The operator, the workload, its children and its pods. -/
def rolloutSystem (timeoutSecs : ℕ) : System where
  iface := kubeInterface
  World := Rollout
  Call := NiphasWorkload
  Out := Except OperatorFault Action
  program workload := (reconcile timeoutSecs workload).run
  sem := KubeOp.Effect
  begins w _ p workload w' := w.cluster.versions workload ∧ w' = w.began p
  env := Rollout.Env
  crash w w' := w' = w

/-! ## What is always so -/

namespace NiphasWorkload.SameObject

variable {wl wl' wl'' : NiphasWorkload}

lemma refl (wl : NiphasWorkload) : wl.SameObject wl := ⟨rfl, rfl, rfl⟩

lemma trans (h : wl.SameObject wl') (h' : wl'.SameObject wl'') : wl.SameObject wl'' :=
  ⟨h.1.trans h'.1, h.2.1.trans h'.2.1, h.2.2.trans h'.2.2⟩

lemma symm (h : wl.SameObject wl') : wl'.SameObject wl := ⟨h.1.symm, h.2.1.symm, h.2.2.symm⟩

/-- Versions of one object with one spec have one Deployment. -/
lemma buildDeployment_eq (h : wl.SameObject wl') (hspec : wl.spec = wl'.spec) (r : EvalResult) :
    buildDeployment wl r wl.nameAny wl.ns = buildDeployment wl' r wl'.nameAny wl'.ns := by
  simp only [buildDeployment, childMetadata, ownerReference, h.1, h.2.1, h.2.2, hspec]

end NiphasWorkload.SameObject

/-- What a call does to the versions: it adds at most one, of the same object. -/
lemma KubeOp.Sem.versions {o : KubeOp} {w w' : Cluster} {r : kubeInterface.Answer o}
    (hs : o.Sem w r w') : w.Grows w' ∧ w'.object.SameObject w.object ∧
      ∀ wl, w'.versions wl → w.versions wl ∨ wl = w'.object := by
  cases o with
  | patchStatus name patch =>
      rcases hs with rfl | ⟨-, rfl⟩
      · exact ⟨w.grows_store _, .refl _, fun _ h => h⟩
      · exact ⟨.refl _, .refl _, fun _ h => .inl h⟩
  | patchFinalizers name finalizers =>
      rcases hs with rfl | ⟨-, rfl⟩
      · exact ⟨w.grows_store _, ⟨rfl, rfl, rfl⟩, fun _ h => h⟩
      · exact ⟨.refl _, .refl _, fun _ h => .inl h⟩
  | evaluate req =>
      cases hs
      exact ⟨w.grows_record req r, .refl _, fun _ h => .inl h⟩
  | _ =>
      cases hs
      exact ⟨.refl _, .refl _, fun _ h => .inl h⟩

namespace Rollout

/-- The versions are in order, and all of one object. -/
structure Base (w : Rollout) : Prop extends w.cluster.Ordered where
  same : ∀ wl, w.cluster.versions wl → wl.SameObject w.object

lemma base_created (wl : NiphasWorkload) : (created wl).Base := by
  refine ⟨Cluster.ordered_created wl, ?_⟩
  rintro _ rfl
  exact .refl _

/-- What a process may rely on: versions and answers are only added, and what it has applied and
read is remembered. -/
structure Rely (p : ℕ) (w w' : Rollout) : Prop where
  grows : w.cluster.Grows w'.cluster
  applied : w'.applied p = w.applied p
  read : w'.read p = w.read p

lemma Rely.refl (p : ℕ) (w : Rollout) : Rely p w w := ⟨.refl _, rfl, rfl⟩

lemma Rely.trans {p : ℕ} {w₁ w₂ w₃ : Rollout} (h : Rely p w₁ w₂) (h' : Rely p w₂ w₃) :
    Rely p w₁ w₃ :=
  ⟨h.grows.trans h'.grows, h'.applied.trans h.applied, h'.read.trans h.read⟩

/-- A call is remembered of the process that makes it only. -/
lemma note_of_ne {p q : ℕ} (h : q ≠ p) (w : Rollout) (o : KubeOp) :
    (w.note p o).applied q = w.applied q ∧ (w.note p o).read q = w.read q := by
  cases o with
  | apply child =>
      rw [note]
      split
      · exact ⟨Function.update_of_ne h _ _, rfl⟩
      · exact ⟨rfl, rfl⟩
  | getDeployment name => exact ⟨rfl, Function.update_of_ne h _ _⟩
  | patchStatus name patch =>
      rw [note]
      split
      · exact ⟨rfl, rfl⟩
      · exact ⟨rfl, rfl⟩
  | _ => exact ⟨rfl, rfl⟩

/-- A call changes the history only. -/
lemma note_eq (w : Rollout) (p : ℕ) (o : KubeOp) :
    ∃ applied read reports, w.note p o = { w with applied, read, reports } := by
  cases o with
  | apply child =>
      rw [note]
      split
      · exact ⟨_, w.read, w.reports, rfl⟩
      · exact ⟨w.applied, w.read, w.reports, rfl⟩
  | getDeployment name => exact ⟨w.applied, _, w.reports, rfl⟩
  | patchStatus name patch =>
      rw [note]
      split
      · exact ⟨w.applied, w.read, _, rfl⟩
      · exact ⟨w.applied, w.read, w.reports, rfl⟩
  | _ => exact ⟨w.applied, w.read, w.reports, rfl⟩

lemma note_pods (w : Rollout) (p : ℕ) (o : KubeOp) : (w.note p o).pods = w.pods := by
  obtain ⟨_, _, _, h⟩ := w.note_eq p o
  rw [h]

lemma note_counted (w : Rollout) (p : ℕ) (o : KubeOp) : (w.note p o).counted = w.counted := by
  obtain ⟨_, _, _, h⟩ := w.note_eq p o
  rw [h]

variable {w w' : Rollout} {p : ℕ} {o : KubeOp} {r : kubeInterface.Answer o}

lemma Base.effect (hw : w.Base) (h : o.Effect p w r w') : w'.Base := by
  obtain ⟨cluster, children, hs, -, -, rfl⟩ := h
  obtain ⟨-, hsame, hversions⟩ := KubeOp.Sem.versions hs
  refine ⟨KubeOp.Sem.ordered hs hw.toOrdered, fun wl hwl => ?_⟩
  rcases hversions wl hwl with hold | rfl
  · exact (hw.same wl hold).trans hsame.symm
  · exact .refl _

/-- The other processes may rely on what one of them does. -/
lemma rely_effect {q : ℕ} (hq : q ≠ p) (h : o.Effect p w r w') : Rely q w w' := by
  obtain ⟨cluster, children, hs, -, -, rfl⟩ := h
  exact ⟨(KubeOp.Sem.versions hs).1, (note_of_ne hq w o).1, (note_of_ne hq w o).2⟩

lemma Base.env (hw : w.Base) (h : Env w w') : w'.Base ∧ ∀ p, Rely p w w' := by
  cases h with
  | edit hedit hsame =>
      obtain ⟨obj, rfl, hstatus, hfollows⟩ := hedit
      refine ⟨⟨hw.toOrdered.store hfollows, ?_⟩, fun p => ⟨w.cluster.grows_store obj, rfl, rfl⟩⟩
      rintro wl (hwl | rfl)
      · exact (hw.same wl hwl).trans hsame.symm
      · exact .refl _
  | _ => exact ⟨⟨hw.toOrdered, hw.same⟩, fun p => ⟨.refl _, rfl, rfl⟩⟩

end Rollout

end Niphas
