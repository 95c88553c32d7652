import Niphas.Lib.View
import Niphas.Operator.Provenance
import Niphas.Operator.SerialRuns

/-!
# All the workloads of a cluster

There is one controller for all workloads of all namespaces.  Reconciles of different workloads run
at the same time, in one store of objects: a reconcile addresses its workload by name in the
namespace it has been given, and so it does the Deployment, the Service, the Ingress and the
PodDisruptionBudget.  Nothing but these names keeps the workloads apart.

**The approach.**  What has been proved of a workload that is alone is not proved again.  A
reconcile only makes calls that are `About` its own workload, whatever they answer
(`about_reconcile`), and two workloads share no child, because a child has the name of its workload
(`childName_inj`).  So a call about one workload leaves the others as they are, and a run of the
fleet, seen from one workload, is a run of `rolloutSystem`: its own steps are steps there, and all
the others are not seen.  The proof is one square for each kind of step (`fleetView`); `View.run`
does the rest.

**What is assumed.**  As in `Rollout`, nobody but the operator changes or deletes a child.  And a
workload that has been created is there from then on (`Fleet.Env`): the API server removes a
workload that is being deleted once its last finalizer has gone, and its children some time later,
by their owner references, and neither is modelled.  So what follows is about clusters in which no
workload has been removed.  Where one has been, the children that are still there belong to no
workload, and one that is created under the same name finds them in its place.

* `fleetSystem` — the controller, all workloads, their children and their pods.
* `fleetView` — what is seen of one workload is the system of this workload alone.
* `Fleet.seen_alone` — so whatever is so of a workload that is alone is so of each of many.
* `Fleet.running_keeps`, `Fleet.children_apart` — a workload that runs keeps its children, and no
  child belongs to two workloads or selects the pods of another one.
-/

namespace Niphas

open System

/-! ## The objects -/

/-- Where a workload is stored. -/
structure ObjectKey where
  ns : String
  name : String
  deriving DecidableEq

/-- Where this one is. -/
def NiphasWorkload.key (wl : NiphasWorkload) : ObjectKey := ⟨wl.ns, wl.nameAny⟩

lemma NiphasWorkload.SameObject.key_eq {wl wl' : NiphasWorkload} (h : wl.SameObject wl') :
    wl.key = wl'.key := congrArg₂ ObjectKey.mk h.2.1 h.1

/-- The workloads there are, each with its versions and with what the webhook has answered to its
reconciles, the children of all of them, and the pods, each with the Deployment it was made for.
`counted` are the pods the status of a Deployment counts as ready.  `client` is the workload each
reconcile was called with, whose namespace its requests go to. -/
structure Fleet where
  workloads : ObjectKey → Option Cluster
  children : Children
  pods : ℕ → Option (ObjectKey × Pod)
  counted : ObjectKey → Finset ℕ
  client : ℕ → ObjectKey

namespace Fleet

/-- A cluster without workloads. -/
def empty : Fleet :=
  { workloads := fun _ => none, children := .empty, pods := fun _ => none, counted := fun _ => ∅
    client := fun _ => ⟨"", ""⟩ }

/-- The child of one kind of a workload. -/
def child (w : Fleet) (k : ObjectKey) (kind : ChildKind) : Option Json :=
  w.children.get kind (childName k.name kind) k.ns

/-- A pod, if it is one of the workload at `k`. -/
def podOf (k : ObjectKey) (owned : ObjectKey × Pod) : Option Pod :=
  if owned.1 = k then some owned.2 else none

/-- The pods of a workload. -/
def podsOf (w : Fleet) (k : ObjectKey) (i : ℕ) : Option Pod := (w.pods i).bind (podOf k)

end Fleet

/-! ## The calls

A call of a reconcile names an object, and the namespace is that of the client the reconcile was
made with.  For a workload that is not there, a patch is answered with an error.
-/

namespace KubeOp

/-- The object a call of a reconcile of `k` goes to. -/
def target (k : ObjectKey) : KubeOp → ObjectKey
  | .patchStatus name _ => ⟨k.ns, name⟩
  | .patchFinalizers name _ => ⟨k.ns, name⟩
  | .getDeployment name => ⟨k.ns, name⟩
  | _ => k

/-- The answer where there is no such workload. -/
def NotFound : (o : KubeOp) → kubeInterface.Answer o → Prop
  | .patchStatus _ _, r => ∃ e, r = .error e
  | .patchFinalizers _ _, r => ∃ e, r = .error e
  | _, _ => True

/-- What a call that goes to `k` does to the workloads. -/
def ObjectSem (k : ObjectKey) (o : KubeOp) (w : ObjectKey → Option Cluster)
    (r : kubeInterface.Answer o) (w' : ObjectKey → Option Cluster) : Prop :=
  w k = none ∧ o.NotFound r ∧ w' = w ∨
    ∃ cluster cluster', w k = some cluster ∧ o.Sem cluster r cluster' ∧
      w' = Function.update w k (some cluster')

/-- What a read of the Deployment at `k` may answer. -/
def FleetAnswers (w : Fleet) (k : ObjectKey) : (o : KubeOp) → kubeInterface.Answer o → Prop
  | .getDeployment _, r => (∃ e, r = .error e) ∨ w.child k .deployment = none ∧ r = .ok none ∨
      (w.child k .deployment).isSome ∧
        ∃ ready, r = .ok (some ready) ∧ ready.getD 0 = (w.counted k).card
  | _, _ => True

/-- What a call of reconcile `p` does. -/
def FleetEffect (p : ℕ) (o : KubeOp) (w : Fleet) (r : kubeInterface.Answer o) (w' : Fleet) : Prop :=
  ∃ workloads children, o.ObjectSem (o.target (w.client p)) w.workloads r workloads ∧
    o.ChildSem w.children r children ∧ o.FleetAnswers w (o.target (w.client p)) r ∧
      w' = { w with workloads, children }

end KubeOp

/-! ## The system -/

/-- What happens besides the reconciles: workloads are created, without a status, and edited, the
Deployments start and stop pods, and count those that are ready.  No workload is removed, not even
one that is being deleted and has lost its last finalizer, and nobody changes or deletes a child. -/
inductive Fleet.Env : Fleet → Fleet → Prop
  | create {w : Fleet} {wl : NiphasWorkload} : w.workloads wl.key = none → wl.status = none →
      Env w { w with workloads := Function.update w.workloads wl.key (some (.created wl)) }
  | edit {w : Fleet} {k : ObjectKey} {cluster cluster' : Cluster} :
      w.workloads k = some cluster → cluster.Edit cluster' →
        cluster'.object.SameObject cluster.object →
          Env w { w with workloads := Function.update w.workloads k (some cluster') }
  | startPod {w : Fleet} {k : ObjectKey} {i : ℕ} {template : Json} :
      (w.child k .deployment).isSome → w.pods i = none →
        Env w { w with pods := Function.update w.pods i (some (k, { template, ready := false })) }
  | probe {w : Fleet} {k : ObjectKey} {i : ℕ} {pod : Pod} {ready : Bool} :
      w.pods i = some (k, pod) →
        Env w { w with pods := Function.update w.pods i (some (k, { pod with ready })) }
  | delete {w : Fleet} {i : ℕ} : Env w { w with pods := Function.update w.pods i none }
  | count {w : Fleet} {k : ObjectKey} {counted : Finset ℕ} : (w.child k .deployment).isSome →
      (∀ i, i ∈ counted ↔ ∃ pod, w.podsOf k i = some pod ∧ pod.ready = true) →
        Env w { w with counted := Function.update w.counted k counted }

/-- The operator and all workloads. -/
def fleetSystem (timeoutSecs : ℕ) : System where
  iface := kubeInterface
  World := Fleet
  Call := NiphasWorkload
  Out := Except OperatorFault Action
  program workload := (reconcile timeoutSecs workload).run
  sem := KubeOp.FleetEffect
  begins w _ p workload w' :=
    (∃ cluster, w.workloads workload.key = some cluster ∧ cluster.versions workload) ∧
      w' = { w with client := Function.update w.client p workload.key }
  env := Fleet.Env
  crash w w' := w' = w

/-- One workload at a time does not overlap with itself. -/
def OncePerWorkload {timeoutSecs : ℕ} (c : (fleetSystem timeoutSecs).Config) :
    (fleetSystem timeoutSecs).Event → Prop
  | .start _ workload => ∀ q proc, c.procs q = some proc → proc.call.key ≠ workload.key
  | _ => True

/-! ## Whose calls they are

This is shown of the program of a reconcile, for every answer it may get, with no world in sight.
-/

/-- The call is about the workload: it goes to it, or to a child of it. -/
def KubeOp.About (wl : NiphasWorkload) : KubeOp → Prop
  | .patchStatus name _ => name = wl.nameAny
  | .patchFinalizers name _ => name = wl.nameAny
  | .getDeployment name => name = wl.nameAny
  | .apply child => child.name = childName wl.nameAny child.kind ∧ child.ns = wl.ns
  | _ => True

lemma KubeOp.About.target {wl : NiphasWorkload} {o : KubeOp} (h : o.About wl) :
    o.target wl.key = wl.key := by
  cases o with
  | patchStatus name patch => exact congrArg (ObjectKey.mk wl.ns) h
  | patchFinalizers name finalizers => exact congrArg (ObjectKey.mk wl.ns) h
  | getDeployment name => exact congrArg (ObjectKey.mk wl.ns) h
  | _ => rfl

/-- A reconcile keeps to its workload, whatever its calls answer. -/
lemma about_reconcile (timeoutSecs : ℕ) (wl : NiphasWorkload) :
    (reconcile timeoutSecs wl).run.All (KubeOp.About wl) := by
  refine (follows_reconcile timeoutSecs wl).all fun s o ho => ?_
  cases ho with
  | @apply r child rest _ _ hrest =>
      have hmem : child ∈ childManifests wl r :=
        hrest ▸ List.mem_append_right _ List.mem_cons_self
      obtain ⟨kind, manifest, -, rfl⟩ := rendered_of_mem hmem
      exact ⟨rfl, rfl⟩
  | publishEvent => exact trivial
  | now => exact trivial
  | evaluate _ => exact trivial
  | _ => exact rfl

/-! ## Two workloads -/

section Apart

variable {k k' : ObjectKey} {wl : NiphasWorkload} {o : KubeOp} {r : kubeInterface.Answer o}

/-- Children of one kind have the names of two workloads only if they are one. -/
lemma childName_inj {name name' : String} {kind : ChildKind}
    (h : childName name kind = childName name' kind) : name = name' := by
  cases kind with
  | podDisruptionBudget => exact (String.append_left_inj "-pdb").mp h
  | _ => exact h

/-- A call about one workload leaves the children of the others alone. -/
lemma KubeOp.ChildSem.apart {w w' : Children} (hs : o.ChildSem w r w') (ho : o.About wl)
    (hne : wl.key ≠ k) (kind : ChildKind) :
    w'.get kind (childName k.name kind) k.ns = w.get kind (childName k.name kind) k.ns := by
  cases o with
  | apply child =>
      rcases hs with rfl | ⟨-, rfl⟩
      · have hat : child.at kind (childName k.name kind) k.ns = none := by
          refine if_neg ?_
          rintro ⟨rfl, hname, hns⟩
          exact hne (congrArg₂ ObjectKey.mk (ho.2.symm.trans hns.symm)
            (childName_inj (ho.1.symm.trans hname.symm)))
        exact congrArg (Option.or · _) hat
      · rfl
  | _ => exact congrArg (fun c => Children.get c kind _ _) hs

/-- What a call does to some children it does to others that agree with them. -/
lemma KubeOp.ChildSem.agree {a a' b : Children} (hs : o.ChildSem a r a') (hab : ∀ kind,
      b.get kind (childName k.name kind) k.ns = a.get kind (childName k.name kind) k.ns) :
    ∃ b', o.ChildSem b r b' ∧ ∀ kind,
      b'.get kind (childName k.name kind) k.ns = a'.get kind (childName k.name kind) k.ns := by
  cases o with
  | apply child =>
      rcases hs with rfl | ⟨herror, rfl⟩
      · exact ⟨_, .inl rfl, fun kind => congrArg (Option.or _) (hab kind)⟩
      · exact ⟨_, .inr ⟨herror, rfl⟩, hab⟩
  | _ =>
      cases hs
      exact ⟨_, rfl, hab⟩

variable {w w' : ObjectKey → Option Cluster}

lemma KubeOp.ObjectSem.of_ne (hs : o.ObjectSem k' w r w') (hne : k ≠ k') : w' k = w k := by
  rcases hs with ⟨-, -, rfl⟩ | ⟨_, _, -, -, rfl⟩
  · rfl
  · exact Function.update_of_ne hne _ _

lemma KubeOp.ObjectSem.of_some {cluster : Cluster} (hs : o.ObjectSem k w r w')
    (hk : w k = some cluster) :
    ∃ cluster', o.Sem cluster r cluster' ∧ w' = Function.update w k (some cluster') := by
  rcases hs with ⟨hnone, -⟩ | ⟨cluster₀, cluster', hsome, hsem, rfl⟩
  · cases hnone.symm.trans hk
  · cases hsome.symm.trans hk
    exact ⟨cluster', hsem, rfl⟩

/-- Workloads stay. -/
lemma KubeOp.ObjectSem.isSome (hs : o.ObjectSem k' w r w') (hk : (w k).isSome) : (w' k).isSome := by
  rcases hs with ⟨-, -, rfl⟩ | ⟨_, _, -, -, rfl⟩
  · exact hk
  · by_cases hkk : k = k'
    · rw [hkk, Function.update_self]
      rfl
    · rwa [Function.update_of_ne hkk]

end Apart

/-! ## What is seen of one workload

The world of one workload has the history of its calls beside the objects, which the fleet does not
keep.  So the two are related, rather than one computed from the other: there is some `Rollout` that
shows what the fleet has of the workload.  A call that is seen moves both, and the history with it.
-/

namespace Fleet

/-- The children and the pods of the workload at `k` are those of `v`. -/
structure Around (k : ObjectKey) (w : Fleet) (v : Rollout) : Prop where
  children : ∀ kind, v.children.get kind (childName k.name kind) k.ns = w.child k kind
  pods : ∀ i, v.pods i = w.podsOf k i
  counted : v.counted = w.counted k

/-- The workload at `k`, its children and its pods are those of `v`. -/
structure Shows (k : ObjectKey) (w : Fleet) (v : Rollout) : Prop extends Around k w v where
  cluster : w.workloads k = some v.cluster
  key : v.object.key = k

section

variable {k : ObjectKey} {w w' : Fleet} {v v' : Rollout} {p : ℕ} {wl : NiphasWorkload} {o : KubeOp}
  {r : kubeInterface.Answer o}

lemma Shows.live (h : Shows k w v) : v.live = w.child k .deployment := by
  have hkey : v.live = v.children.get .deployment v.object.key.name v.object.key.ns := rfl
  rw [hkey, h.key]
  exact h.children .deployment

lemma Shows.answers_iff (h : Shows k w v) : o.FleetAnswers w k r ↔ o.Answers v r := by
  cases o with
  | getDeployment name => simp only [KubeOp.FleetAnswers, KubeOp.Answers, h.live, h.counted]
  | _ => exact Iff.rfl

/-- After a call on both sides. -/
lemma Shows.after (h : Shows k w v) {cluster : Cluster} {children children' : Children}
    (hs : o.Sem v.cluster r cluster) (hchildren : ∀ kind,
      children'.get kind (childName k.name kind) k.ns =
        children.get kind (childName k.name kind) k.ns) :
    Shows k { w with workloads := Function.update w.workloads k (some cluster), children }
      { v.note p o with cluster, children := children' } where
  children := hchildren
  pods i := (congrFun (v.note_pods p o) i).trans (h.pods i)
  counted := (v.note_counted p o).trans h.counted
  cluster := Function.update_self _ _ _
  key := (KubeOp.Sem.versions hs).2.1.key_eq.trans h.key

/-- A call of a reconcile of this workload is seen. -/
lemma Shows.call (h : Shows wl.key w v) (hclient : w.client p = wl.key) (ho : o.About wl)
    (hs : o.FleetEffect p w r w') : ∃ v', o.Effect p v r v' ∧ Shows wl.key w' v' := by
  obtain ⟨workloads, children, hobject, hchild, hanswers, rfl⟩ := hs
  rw [hclient, ho.target] at hobject hanswers
  obtain ⟨cluster', hsem, rfl⟩ := hobject.of_some h.cluster
  obtain ⟨children', hchild', hget⟩ := hchild.agree h.children
  exact ⟨_, ⟨cluster', children', hsem, hchild', h.answers_iff.mp hanswers, rfl⟩,
    h.after hsem hget⟩

/-- What such a call may do to this workload alone, it may do among the others. -/
lemma Shows.call_of_effect (h : Shows wl.key w v) (hclient : w.client p = wl.key)
    (ho : o.About wl) (hs : o.Effect p v r v') :
    ∃ w', o.FleetEffect p w r w' ∧ Shows wl.key w' v' ∧ w'.client = w.client ∧
      w'.pods = w.pods := by
  obtain ⟨cluster, children, hsem, hchild, hanswers, rfl⟩ := hs
  obtain ⟨children', hchild', hget⟩ := hchild.agree fun kind => (h.children kind).symm
  refine ⟨{ w with workloads := Function.update w.workloads wl.key (some cluster)
                   children := children' }, ⟨_, children', ?_, hchild', ?_, rfl⟩,
    h.after hsem fun kind => (hget kind).symm, rfl, rfl⟩
  · rw [hclient, ho.target]
    exact .inr ⟨v.cluster, cluster, h.cluster, hsem, rfl⟩
  · rw [hclient, ho.target]
    exact h.answers_iff.mpr hanswers

/-- A call of a reconcile of another workload is not. -/
lemma Around.call (h : Around k w v) (hclient : w.client p = wl.key) (ho : o.About wl)
    (hne : wl.key ≠ k) (hs : o.FleetEffect p w r w') :
    Around k w' v ∧ w'.workloads k = w.workloads k := by
  obtain ⟨workloads, children, hobject, hchild, -, rfl⟩ := hs
  rw [hclient, ho.target] at hobject
  refine ⟨⟨fun kind => ?_, h.pods, h.counted⟩, hobject.of_ne hne.symm⟩
  exact (h.children kind).trans (hchild.apart ho hne kind).symm

/-! ### The surroundings -/

lemma podsOf_update (w : Fleet) (k : ObjectKey) (i : ℕ) (owned : Option (ObjectKey × Pod)) :
    podsOf { w with pods := Function.update w.pods i owned } k =
      Function.update (w.podsOf k) i (owned.bind (podOf k)) := by
  funext j
  by_cases hj : j = i
  · simp only [podsOf, hj, Function.update_self]
  · simp only [podsOf, Function.update_of_ne hj]

/-- A pod changes, and is seen to. -/
lemma Around.pod (h : Around k w v) (i : ℕ) (owned : Option (ObjectKey × Pod)) :
    Around k { w with pods := Function.update w.pods i owned }
      { v with pods := Function.update v.pods i (owned.bind (podOf k)) } := by
  have hpods : v.pods = w.podsOf k := funext h.pods
  refine ⟨h.children, fun j => ?_, h.counted⟩
  rw [podsOf_update, hpods]

/-- A pod of another workload changes. -/
lemma Around.pod_hidden (h : Around k w v) {i : ℕ} {owned : Option (ObjectKey × Pod)}
    (hnone : w.podsOf k i = none) (howned : owned.bind (podOf k) = none) :
    Around k { w with pods := Function.update w.pods i owned } v := by
  refine ⟨h.children, fun j => ?_, h.counted⟩
  rw [podsOf_update, howned, ← hnone, Function.update_eq_self]
  exact h.pods j

/-- There is nothing of the workload yet. -/
def Bare (k : ObjectKey) (w : Fleet) : Prop :=
  w.child k .deployment = none ∧ ∀ i, w.podsOf k i = none

lemma not_bare_of_child (h : (w.child k .deployment).isSome) : ¬ Bare k w :=
  fun hbare => (by simp [hbare.1] at h)

lemma not_bare_of_pod {i : ℕ} {pod : Pod} (h : w.podsOf k i = some pod) : ¬ Bare k w :=
  fun hbare => (by simp [hbare.2 i] at h)

/-- What happens to the pods of a workload that has some is seen, if it is not about another. -/
lemma Around.env (h : Around k w v) (hs : Env w w') : Around k w' v ∨
    ¬ Bare k w ∧ ∃ v', Around k w' v' ∧ Rollout.Env v v' ∧ v'.cluster = v.cluster := by
  cases hs with
  | create => exact .inl ⟨h.children, h.pods, h.counted⟩
  | edit => exact .inl ⟨h.children, h.pods, h.counted⟩
  | @startPod k' i template hchild hfree =>
      have hnone : w.podsOf k i = none := congrArg (Option.bind · (podOf k)) hfree
      by_cases hk : k' = k
      · subst hk
        have haround := h.pod i (some (k', { template, ready := false }))
        rw [Option.bind_some, podOf, if_pos rfl] at haround
        exact .inr ⟨not_bare_of_child hchild, _, haround, .create ((h.pods i).trans hnone), rfl⟩
      · exact .inl (h.pod_hidden hnone (if_neg hk))
  | @probe k' i pod ready hpod =>
      have hseen : w.podsOf k i = podOf k (k', pod) := congrArg (Option.bind · (podOf k)) hpod
      by_cases hk : k' = k
      · subst hk
        have haround := h.pod i (some (k', { pod with ready }))
        rw [podOf, if_pos rfl] at hseen
        rw [Option.bind_some, podOf, if_pos rfl] at haround
        exact .inr ⟨not_bare_of_pod hseen, _, haround, .probe ((h.pods i).trans hseen), rfl⟩
      · exact .inl (h.pod_hidden (hseen.trans (if_neg hk)) (if_neg hk))
  | @delete i =>
      cases hpod : w.podsOf k i with
      | none => exact .inl (h.pod_hidden hpod rfl)
      | some pod => exact .inr ⟨not_bare_of_pod hpod, _, h.pod i none, .delete, rfl⟩
  | @count k' counted hchild hcounted =>
      by_cases hk : k' = k
      · subst hk
        refine .inr ⟨not_bare_of_child hchild, { v with counted },
          ⟨h.children, h.pods, (Function.update_self k' counted w.counted).symm⟩,
          .count fun i => ?_, rfl⟩
        rw [h.pods i]
        exact hcounted i
      · refine .inl ⟨h.children, h.pods, ?_⟩
        exact h.counted.trans (Function.update_of_ne (Ne.symm hk) _ _).symm

lemma Shows.env (h : Shows k w v) (hs : Env w w') :
    Shows k w' v ∨ ∃ v', Rollout.Env v v' ∧ Shows k w' v' := by
  have hpods : w'.workloads = w.workloads →
      Shows k w' v ∨ ∃ v', Rollout.Env v v' ∧ Shows k w' v' := by
    intro hsame
    rcases h.toAround.env hs with haround | ⟨-, v', haround, henv, hcluster⟩
    · exact .inl ⟨haround, hsame ▸ h.cluster, h.key⟩
    · refine .inr ⟨v', henv, haround, ?_, ?_⟩
      · rw [hsame, hcluster]
        exact h.cluster
      · rw [Rollout.object, hcluster]
        exact h.key
  cases hs with
  | @create wl hnone _ =>
      have hne : k ≠ wl.key := by
        rintro rfl
        cases hnone.symm.trans h.cluster
      exact .inl ⟨⟨h.children, h.pods, h.counted⟩,
        (Function.update_of_ne hne _ _).trans h.cluster, h.key⟩
  | @edit k' cluster cluster' hsome hedit hsame =>
      by_cases hk : k' = k
      · subst hk
        cases hsome.symm.trans h.cluster
        exact .inr ⟨_, .edit hedit hsame, ⟨h.children, h.pods, h.counted⟩,
          Function.update_self _ _ _, hsame.key_eq.trans h.key⟩
      · exact .inl ⟨⟨h.children, h.pods, h.counted⟩,
          (Function.update_of_ne (Ne.symm hk) _ _).trans h.cluster, h.key⟩
  | _ => exact hpods rfl

/-- The workload has not been created. -/
structure Vacant (k : ObjectKey) (w : Fleet) : Prop where
  absent : w.workloads k = none
  bare : ∀ wl, Around k w (Rollout.created wl)

lemma vacant_empty (k : ObjectKey) : Vacant k empty :=
  ⟨rfl, fun _ => ⟨fun _ => rfl, fun _ => rfl, rfl⟩⟩

lemma Vacant.env (h : Vacant k w) (hs : Env w w') :
    Vacant k w' ∨ ∃ wl, wl.key = k ∧ wl.status = none ∧ Shows k w' (Rollout.created wl) := by
  have hbare : ∀ wl, Around k w' (Rollout.created wl) := by
    intro wl
    rcases (h.bare wl).env hs with haround | ⟨hbare, -⟩
    · exact haround
    · refine absurd ⟨?_, fun i => ?_⟩ hbare
      · exact ((h.bare wl).children .deployment).symm
      · exact ((h.bare wl).pods i).symm
  have hsame : w'.workloads k = w.workloads k → Vacant k w' :=
    fun hsame => ⟨hsame.trans h.absent, hbare⟩
  cases hs with
  | @create wl hnone hstatus =>
      by_cases hk : wl.key = k
      · subst hk
        exact .inr ⟨wl, rfl, hstatus, hbare wl, Function.update_self _ _ _, rfl⟩
      · exact .inl (hsame (Function.update_of_ne (Ne.symm hk) _ _))
  | @edit k' cluster cluster' hsome _ _ =>
      have hne : k ≠ k' := by
        rintro rfl
        cases h.absent.symm.trans hsome
      exact .inl (hsame (Function.update_of_ne hne _ _))
  | _ => exact .inl (hsame rfl)

/-- Workloads stay, and nobody changes the children, or what a reconcile is about. -/
lemma Env.keeps (hs : Env w w') : w'.client = w.client ∧ w'.children = w.children ∧
    ∀ k, (w.workloads k).isSome → (w'.workloads k).isSome := by
  have hupdate : ∀ (k' : ObjectKey) (cluster : Cluster) k, (w.workloads k).isSome →
      (Function.update w.workloads k' (some cluster) k).isSome := by
    intro k' cluster k hk
    by_cases hkk : k = k'
    · rw [hkk, Function.update_self]
      rfl
    · rwa [Function.update_of_ne hkk]
  cases hs with
  | create _ _ => exact ⟨rfl, rfl, hupdate _ _⟩
  | edit _ _ _ => exact ⟨rfl, rfl, hupdate _ _⟩
  | _ => exact ⟨rfl, rfl, fun _ hk => hk⟩

end

/-! ## One of many

What ties a reconcile to its workload is an invariant of the configuration: it was begun with a
version of a workload that is there, its client is for the namespace of that workload, and what is
left of its program is about it.
-/

variable {timeoutSecs : ℕ}

/-- A reconcile under way is about its workload, which is there. -/
structure Proper (p : ℕ) (proc : (fleetSystem timeoutSecs).Process) (w : Fleet) : Prop where
  client : w.client p = proc.call.key
  about : proc.rest.All (KubeOp.About proc.call)
  known : (w.workloads proc.call.key).isSome

/-- All of them are. -/
def AllProper (c : (fleetSystem timeoutSecs).Config) : Prop :=
  ∀ p proc, c.procs p = some proc → Proper p proc c.world

lemma AllProper.step {c c' : (fleetSystem timeoutSecs).Config}
    {ev : (fleetSystem timeoutSecs).Event} (hc : AllProper c)
    (hs : Step (fleetSystem timeoutSecs) c ev c') : AllProper c' := by
  refine hs.each hc ?_ ?_ fun w henv q proc hq => ?_
  · rintro p call _ - ⟨⟨cluster, hcluster, -⟩, rfl⟩
    refine ⟨⟨Function.update_self _ _ _, about_reconcile timeoutSecs call, ?_⟩, ?_⟩
    · exact Option.isSome_iff_exists.mpr ⟨cluster, hcluster⟩
    · exact fun q proc hqp hq =>
        ⟨(Function.update_of_ne hqp _ _).trans hq.client, hq.about, hq.known⟩
  · rintro p call o k r _ - hp ⟨workloads, children, hobject, -, -, rfl⟩
    have hproper := hc p _ hp
    exact ⟨⟨hproper.client, hproper.about.2 r, hobject.isSome hproper.known⟩,
      fun q proc _ hq => ⟨hq.client, hq.about, hobject.isSome hq.known⟩⟩
  · obtain ⟨hclient, -, hknown⟩ := Env.keeps henv
    exact ⟨(congrFun hclient q).trans hq.client, hq.about, hknown _ hq.known⟩

/-- The system of one workload, with the programs of the fleet. -/
abbrev rolloutScene (timeoutSecs : ℕ) : Scene (fleetSystem timeoutSecs) where
  World := Rollout
  sem := KubeOp.Effect
  begins w _ p workload w' := w.cluster.versions workload ∧ w' = w.began p
  env := Rollout.Env
  crash w w' := w' = w

/-- Whether a reconcile is one of the workload at `k`. -/
def isOf (k : ObjectKey) (wl : NiphasWorkload) : Bool := wl.key = k

lemma isOf_eq_true {k : ObjectKey} {wl : NiphasWorkload} : isOf k wl = true ↔ wl.key = k :=
  decide_eq_true_iff

lemma isOf_eq_false {k : ObjectKey} {wl : NiphasWorkload} : isOf k wl = false ↔ wl.key ≠ k :=
  decide_eq_false_iff_not

/-- **One workload of many** is seen as if it were alone. -/
def fleetView (timeoutSecs : ℕ) (k : ObjectKey) :
    View (fleetSystem timeoutSecs) (rolloutScene timeoutSecs) where
  seen := isOf k
  rel := Shows k
  inv := AllProper
  inv_step hc hs := hc.step hs
  start {c v p call w} _ hv hbegin hseen := by
    obtain rfl := isOf_eq_true.mp hseen
    obtain ⟨⟨cluster, hcluster, hversion⟩, rfl⟩ := hbegin
    cases hcluster.symm.trans hv.cluster
    exact ⟨_, ⟨hversion, rfl⟩, ⟨hv.children, hv.pods, hv.counted⟩, hv.cluster, hv.key⟩
  start_hidden _ hv hbegin _ := by
    obtain ⟨-, rfl⟩ := hbegin
    exact ⟨⟨hv.children, hv.pods, hv.counted⟩, hv.cluster, hv.key⟩
  op hc hv hp hs hseen := by
    obtain rfl := isOf_eq_true.mp hseen
    exact hv.call (hc _ _ hp).client (hc _ _ hp).about.1 hs
  op_hidden hc hv hp hs hseen := by
    obtain ⟨haround, hsame⟩ := hv.toAround.call (hc _ _ hp).client (hc _ _ hp).about.1
      (isOf_eq_false.mp hseen) hs
    exact ⟨haround, hsame.trans hv.cluster, hv.key⟩
  env _ hv hs := hv.env hs
  crash _ hv hs := by
    cases hs
    exact ⟨_, rfl, hv⟩

/-! ## Runs -/

variable {k : ObjectKey} {evs : List (fleetSystem timeoutSecs).Event}
  {c : (fleetSystem timeoutSecs).Config}
  {P : (fleetSystem timeoutSecs).Config → (fleetSystem timeoutSecs).Event → Prop}

lemma allProper_run (hrun : Run (fleetSystem timeoutSecs) P (Config.idle empty) evs c) :
    AllProper c := hrun.invariant (fun hc _ hs => hc.step hs) fun _ _ h => by cases h

/-- No reconcile of a workload is under way that has not been created. -/
lemma Vacant.unseen (h : Vacant k c.world) (hc : AllProper c) {p : ℕ}
    {proc : (fleetSystem timeoutSecs).Process} (hp : c.procs p = some proc) :
    proc.call.key ≠ k := by
  rintro rfl
  have hknown := (hc p proc hp).known
  rw [h.absent] at hknown
  cases hknown

/-- What is seen of a workload when it is created. -/
lemma Vacant.config_eq (h : Vacant k c.world) (hc : AllProper c) (v : Rollout) :
    (rolloutScene timeoutSecs).config (isOf k) c v = Config.idle v := by
  refine Config.eq_idle fun p => ?_
  cases hp : c.procs p with
  | none => exact View.procs_of_none hp v
  | some proc =>
      obtain ⟨call, rest⟩ := proc
      exact (View.procs_of_some hp v).trans
        (View.process_hidden (isOf_eq_false.mpr (h.unseen hc hp)))

/-- **What is seen of a workload in a run** is a run of its own, from when it has been created. -/
lemma seen_run {Q : (rolloutSystem timeoutSecs).Config → (rolloutSystem timeoutSecs).Event → Prop}
    (hQ : ∀ c v ev, P c ev → Shown (isOf k) c ev →
      Q ((rolloutScene timeoutSecs).config (isOf k) c v) ((rolloutScene timeoutSecs).event ev))
    (hrun : Run (fleetSystem timeoutSecs) P (Config.idle empty) evs c) :
    Vacant k c.world ∨ ∃ wl v evs', wl.key = k ∧ wl.status = none ∧ Shows k c.world v ∧
      Run (rolloutSystem timeoutSecs) Q (Config.idle (Rollout.created wl)) evs'
        ((rolloutScene timeoutSecs).config (isOf k) c v) := by
  induction hrun with
  | nil => exact .inl (vacant_empty k)
  | @snoc c c' evs ev hrun hP hs ih =>
      have hproper := allProper_run hrun
      rcases ih with hvacant | ⟨wl, v, evs', hkey, hstatus, hv, hrun'⟩
      · cases hs with
        | @start p call w _ hbegin =>
            obtain ⟨-, rfl⟩ := hbegin
            exact .inl ⟨hvacant.absent, fun wl =>
              ⟨(hvacant.bare wl).children, (hvacant.bare wl).pods, (hvacant.bare wl).counted⟩⟩
        | @op p call o _ r w hp hs =>
            have hne := hvacant.unseen hproper hp
            have hcall := fun wl => (hvacant.bare wl).call (hproper _ _ hp).client
              (hproper _ _ hp).about.1 hne hs
            exact .inl ⟨(hcall call).2.trans hvacant.absent, fun wl => (hcall wl).1⟩
        | ret _ => exact .inl hvacant
        | env henv =>
            rcases hvacant.env henv with hvacant' | ⟨wl, hkey, hstatus, hshows⟩
            · exact .inl hvacant'
            · refine .inr ⟨wl, _, [], hkey, hstatus, hshows, ?_⟩
              have hidle := hvacant.config_eq hproper (Rollout.created wl)
              exact hidle ▸ .nil
        | crash hcrash =>
            cases hcrash
            exact .inl hvacant
      · obtain ⟨v', evs'', hv', hrun''⟩ :=
          (fleetView timeoutSecs k).run hQ (.snoc .nil hP hs) hproper hv
        exact .inr ⟨wl, v', _, hkey, hstatus, hv', hrun'.append hrun''⟩

/-- A workload that is there has been created. -/
lemma seen_of_some
    {Q : (rolloutSystem timeoutSecs).Config → (rolloutSystem timeoutSecs).Event → Prop}
    (hQ : ∀ c v ev, P c ev → Shown (isOf k) c ev →
      Q ((rolloutScene timeoutSecs).config (isOf k) c v) ((rolloutScene timeoutSecs).event ev))
    (hrun : Run (fleetSystem timeoutSecs) P (Config.idle empty) evs c)
    (hk : (c.world.workloads k).isSome) :
    ∃ wl v evs', wl.key = k ∧ wl.status = none ∧ Shows k c.world v ∧
      Run (rolloutSystem timeoutSecs) Q (Config.idle (Rollout.created wl)) evs'
        ((rolloutScene timeoutSecs).config (isOf k) c v) := by
  refine (seen_run hQ hrun).resolve_left fun hvacant => ?_
  rw [hvacant.absent] at hk
  cases hk

/-- **A workload of many is like one that is alone**: in every state of every run, a workload, its
versions, its children, its pods and its reconciles are as in a state of a run in which there is no
other one.  The runs are those in which workloads are neither removed nor created again, and in
which nobody but the operator changes or deletes the children (`Fleet.Env`). -/
theorem seen_alone (hrun : Run (fleetSystem timeoutSecs) P (Config.idle empty) evs c)
    (hk : (c.world.workloads k).isSome) :
    ∃ wl evs' d, wl.key = k ∧ wl.status = none ∧
      Run (rolloutSystem timeoutSecs) (AnyStep _) (Config.idle (Rollout.created wl)) evs' d ∧
      Shows k c.world d.world ∧ ∀ p call rest,
        d.procs p = some { call, rest } ↔ c.procs p = some { call, rest } ∧ call.key = k := by
  have hany := @seen_of_some timeoutSecs k evs c P (AnyStep (rolloutSystem timeoutSecs))
  obtain ⟨wl, v, evs', hkey, hstatus, hshows, hrun'⟩ := hany (fun _ _ _ _ _ => trivial) hrun hk
  refine ⟨wl, evs', _, hkey, hstatus, hrun', hshows, fun p call rest => ?_⟩
  exact View.procs_config_iff.trans (and_congr_right fun _ => isOf_eq_true)

/-- Where no workload is reconciled twice at a time, the reconciles that are seen do not overlap. -/
lemma serial_seen {v : Rollout} {ev : (fleetSystem timeoutSecs).Event}
    (hP : OncePerWorkload c ev) (hshown : Shown (isOf k) c ev) :
    Serial (rolloutSystem timeoutSecs) ((rolloutScene timeoutSecs).config (isOf k) c v)
      ((rolloutScene timeoutSecs).event ev) := by
  cases ev with
  | start p call =>
      intro q
      cases hq : c.procs q with
      | none => exact View.procs_of_none hq v
      | some proc =>
          obtain ⟨call', rest⟩ := proc
          have hne : call'.key ≠ k := fun heq =>
            hP q _ hq (heq.trans (isOf_eq_true.mp hshown).symm)
          exact (View.procs_of_some hq v).trans (View.process_hidden (isOf_eq_false.mpr hne))
  | _ => trivial

/-- **A workload that runs keeps its children**, whatever happens to the others: while its phase is
`Running`, its status is that of one version with a result for it and enough ready replicas, and
everything rendered from this version with this result is in the cluster.  This is so as long as no
workload is removed, and nobody but the operator changes or deletes the children (`Fleet.Env`). -/
theorem running_keeps
    (hrun : Run (fleetSystem timeoutSecs) OncePerWorkload (Config.idle empty) evs c)
    {cluster : Cluster} (hk : c.world.workloads k = some cluster)
    (hrunning : (cluster.object.status.getD {}).phase = .running) :
    ∃ rolled r, cluster.versions rolled ∧ (cluster.object.status.getD {}).Reports rolled r ∧
      ∀ kind manifest, rendered rolled r kind = some manifest →
        c.world.child k kind = some manifest := by
  obtain ⟨wl, v, evs', hkey, hstatus, hshows, hrun'⟩ :=
    seen_of_some (fun _ _ _ => serial_seen) hrun (Option.isSome_iff_exists.mpr ⟨_, hk⟩)
  cases hk.symm.trans hshows.cluster
  have hpending : (wl.status.getD {}).phase ≠ .running := by
    rw [hstatus]
    decide
  obtain ⟨rolled, r, hrolled, hreports, hlive⟩ :=
    Rollout.runningApplied_run hpending hrun' hrunning
  refine ⟨rolled, r, hrolled, hreports, fun kind manifest hrendered => ?_⟩
  have hrolledKey : rolled.key = k :=
    ((Rollout.owned_run hrun').1.same rolled hrolled).key_eq.trans hshows.key
  have hget := hlive _ (mem_of_rendered hrendered)
  rw [← hrolledKey] at hshows ⊢
  exact (hshows.children kind).symm.trans hget

/-! ### The children

Two things can go wrong with a child that is found in a namespace: it may belong to nobody, or to
somebody else.  The first is excluded by its name, which an apply takes from a workload; the second
by the owner reference and the labels the builders write.
-/

/-- Every child has the name of a workload that is there. -/
def Placed (w : Fleet) : Prop :=
  ∀ kind name ns manifest, w.children.get kind name ns = some manifest →
    ∃ k, (w.workloads k).isSome ∧ name = childName k.name kind ∧ ns = k.ns

lemma placed_run (hrun : Run (fleetSystem timeoutSecs) P (Config.idle empty) evs c) :
    Placed c.world := by
  induction hrun with
  | nil => exact fun _ _ _ _ h => by cases h
  | @snoc c c' evs ev hrun _ hs ih =>
      have hproper := allProper_run hrun
      cases hs with
      | start _ hbegin =>
          obtain ⟨-, rfl⟩ := hbegin
          exact ih
      | @op p call o _ r _ hp hs =>
          obtain ⟨workloads, children, hobject, hchild, -, rfl⟩ := hs
          have hknown := hobject.isSome (hproper _ _ hp).known
          intro kind name ns manifest hget
          have hold : c.world.children.get kind name ns = some manifest →
              ∃ k, (workloads k).isSome ∧ name = childName k.name kind ∧ ns = k.ns := by
            intro hget
            obtain ⟨k, hk, hat⟩ := ih kind name ns manifest hget
            exact ⟨k, hobject.isSome hk, hat⟩
          cases o with
          | apply child =>
              rcases hchild with rfl | ⟨-, rfl⟩
              · rcases Children.get_apply_eq_some hget with ⟨rfl, rfl, rfl, -⟩ | hget
                · exact ⟨call.key, hknown, (hproper _ _ hp).about.1⟩
                · exact hold hget
              · exact hold hget
          | _ => exact hold (hchild ▸ hget)
      | ret _ => exact ih
      | env henv =>
          obtain ⟨-, hchildren, hknown⟩ := Env.keeps henv
          intro kind name ns manifest hget
          obtain ⟨k, hk, hat⟩ := ih kind name ns manifest (hchildren ▸ hget)
          exact ⟨k, hknown k hk, hat⟩
      | crash hcrash =>
          cases hcrash
          exact ih

/-- The labels of the pods of a Deployment. -/
def podLabels (deployment : Json) : Json := ((podTemplate deployment).get "metadata").get "labels"

/-- A selector matches labels that have all of its own. -/
def Selects (selector labels : Json) : Prop :=
  ∀ key value, selector.get key = .str value → labels.get key = .str value

/-- A child of one workload selects the pods of another's Deployment only if they have one name. -/
lemma selects_iff {wl wl' : NiphasWorkload} {kind : ChildKind} {name name' ns ns' : String}
    {manifest deployment : Json} (h : Owned wl kind name ns manifest) (hkind : kind ≠ .ingress)
    (h' : Owned wl' .deployment name' ns' deployment) :
    Selects (childSelector kind manifest) (podLabels deployment) ↔ wl'.nameAny = wl.nameAny := by
  have hlabels : Selects (workloadSelector wl'.nameAny) (podLabels deployment) := h'.labels rfl
  rw [h.selector hkind]
  constructor
  · intro hselects
    have hlabel := (hlabels "niphas.io/workload" _ rfl).symm.trans
      (hselects "niphas.io/workload" _ rfl)
    exact Json.str.inj hlabel
  · intro hname
    rwa [hname] at hlabels

/-- **The children stay apart**: in every state of every run in which no workload is removed, every
child belongs to a workload that is there, by its name and its owner reference, and it selects the
pods of a Deployment of its namespace just if this is a child of the same workload.  Behind the
removal of a workload, its children stay until the garbage collector comes to them. -/
theorem children_apart (hrun : Run (fleetSystem timeoutSecs) P (Config.idle empty) evs c)
    {kind : ChildKind} {name ns : String} {manifest : Json}
    (hget : c.world.children.get kind name ns = some manifest) :
    ∃ k cluster, c.world.workloads k = some cluster ∧ cluster.object.key = k ∧
      Owned cluster.object kind name ns manifest ∧
      (kind ≠ .ingress → ∀ name' deployment,
        c.world.children.get .deployment name' ns = some deployment →
          (Selects (childSelector kind manifest) (podLabels deployment) ↔ name' = k.name)) := by
  have howned : ∀ kind name ns manifest, c.world.children.get kind name ns = some manifest →
      ∃ k cluster, c.world.workloads k = some cluster ∧ cluster.object.key = k ∧
        Owned cluster.object kind name ns manifest := by
    intro kind name ns manifest hget
    obtain ⟨k, hk, rfl, rfl⟩ := placed_run hrun kind name ns manifest hget
    have hany := @seen_of_some timeoutSecs k evs c P (AnyStep (rolloutSystem timeoutSecs))
    obtain ⟨wl, v, evs', -, -, hshows, hrun'⟩ := hany (fun _ _ _ _ _ => trivial) hrun hk
    obtain ⟨hsame, howned⟩ := (Rollout.owned_run hrun').2
    refine ⟨k, v.cluster, hshows.cluster, hshows.key, ?_⟩
    exact (howned _ _ _ _ ((hshows.children kind).trans hget)).of_sameObject hsame.symm
  obtain ⟨k, cluster, hk, hkey, h⟩ := howned kind name ns manifest hget
  refine ⟨k, cluster, hk, hkey, h, fun hkind name' deployment hdeployment => ?_⟩
  obtain ⟨k', cluster', -, hkey', h'⟩ := howned _ _ _ _ hdeployment
  have hname' : name' = cluster'.object.nameAny := h'.name_eq
  have hname : k.name = cluster.object.nameAny := congrArg ObjectKey.name hkey.symm
  rw [selects_iff h hkind h', hname', hname]

/-! ## Two workloads of one namespace

The runs of a workload that is alone are carried back into the fleet, where other workloads stay as
they are.  So one workload is rolled out after the other, and each is seen as if it were alone.
-/

/-- What happens to the workload at `k` and to the pod `i` leaves the others alone. -/
structure Spares (k : ObjectKey) (i : ℕ) (w w' : Fleet) : Prop where
  shows : ∀ k' v, k' ≠ k → Shows k' w v → Shows k' w' v
  client : w'.client = w.client
  pods : ∀ j, j ≠ i → w'.pods j = w.pods j

lemma Spares.trans {i : ℕ} {w₁ w₂ w₃ : Fleet} (h : Spares k i w₁ w₂) (h' : Spares k i w₂ w₃) :
    Spares k i w₁ w₃ :=
  ⟨fun k' v hk hv => h'.shows k' v hk (h.shows k' v hk hv), h'.client.trans h.client,
    fun j hj => (h'.pods j hj).trans (h.pods j hj)⟩

/-- What a reconcile does to a workload that is alone, it can do among others. -/
lemma goes_fleet {Q : (rolloutSystem timeoutSecs).OpCond} {p : ℕ} {wl : NiphasWorkload}
    {prog prog' : Prog (rolloutSystem timeoutSecs).iface (rolloutSystem timeoutSecs).Out}
    {v v' : (rolloutSystem timeoutSecs).World}
    (hgo : Goes (rolloutSystem timeoutSecs) Q p prog v prog' v') {w : Fleet}
    (hw : Shows wl.key w v) (hclient : w.client p = wl.key) (ho : prog.All (KubeOp.About wl)) :
    ∃ w', Goes (fleetSystem timeoutSecs) (fun _ _ _ _ => True) p prog w prog' w' ∧
      Shows wl.key w' v' ∧ prog'.All (KubeOp.About wl) ∧ ∀ i, Spares wl.key i w w' := by
  induction hgo generalizing w with
  | refl => exact ⟨w, .refl, hw, ho, fun i => ⟨fun _ _ _ h => h, rfl, fun _ _ => rfl⟩⟩
  | call hs _ _ ih =>
      obtain ⟨w₁, hs', hw₁, hsame, hpods⟩ := hw.call_of_effect hclient ho.1 hs
      obtain ⟨w', hgo, hw', ho', hspares⟩ := ih hw₁ ((congrFun hsame p).trans hclient) (ho.2 _)
      refine ⟨w', .call hs' trivial hgo, hw', ho', fun i => .trans ?_ (hspares i)⟩
      refine ⟨fun k' v hk hv => ?_, hsame, fun j _ => congrFun hpods j⟩
      obtain ⟨haround, hworkload⟩ := hv.toAround.call hclient ho.1 hk.symm hs'
      exact ⟨haround, hworkload.trans hv.cluster, hv.key⟩

/-- A pod of the workload at `k` is started, becomes ready, and is counted. -/
def startPod (w : Fleet) (k : ObjectKey) (i : ℕ) (template : Json) : Fleet :=
  { w with
    pods := Function.update w.pods i (some (k, { template, ready := true }))
    counted := Function.update w.counted k {i} }

section StartPod

variable {w : Fleet} {v : Rollout} {i : ℕ} (template : Json)

lemma podsOf_startPod (hv : Shows k w v) :
    (w.startPod k i template).podsOf k =
      Function.update v.pods i (some { template, ready := true }) := by
  have hpods : v.pods = w.podsOf k := funext hv.pods
  rw [hpods]
  exact (podsOf_update w k i _).trans (congrArg _ (if_pos rfl))

/-- This is seen. -/
lemma Shows.startPod (hv : Shows k w v) :
    Shows k (w.startPod k i template) (v.startPod i template) :=
  ⟨⟨hv.children, fun j => (congrFun (podsOf_startPod template hv) j).symm,
    (Function.update_self k {i} w.counted).symm⟩, hv.cluster, hv.key⟩

lemma spares_startPod (hfree : w.pods i = none) : Spares k i w (w.startPod k i template) := by
  refine ⟨fun k' v' hk hv' => ?_, rfl, fun j hj => Function.update_of_ne hj _ _⟩
  have hnone : w.podsOf k' i = none := congrArg (Option.bind · (podOf k')) hfree
  have howned : (some (k, ({ template, ready := true } : Pod))).bind (podOf k') = none :=
    if_neg hk.symm
  have hpods := (hv'.toAround.pod_hidden hnone howned).pods
  exact ⟨⟨hv'.children, hpods, hv'.counted.trans (Function.update_of_ne hk _ _).symm⟩,
    hv'.cluster, hv'.key⟩

/-- The Deployment controller does it. -/
lemma reaches_startPod {c c' : (fleetSystem timeoutSecs).Config}
    (h : Reaches (fleetSystem timeoutSecs) OncePerWorkload c c') (hworld : c'.world = w)
    (hv : Shows k w v) (hlive : v.live.isSome) (hpods : ∀ j, v.pods j = none)
    (hfree : w.pods i = none) :
    Reaches (fleetSystem timeoutSecs) OncePerWorkload c
      { c' with world := w.startPod k i template } := by
  subst hworld
  have hchild : (child c'.world k .deployment).isSome := hv.live ▸ hlive
  have hstarted := h.env trivial (@Env.startPod _ k i template hchild hfree)
  have hprobed := hstarted.env trivial (@Env.probe _ k i _ true (Function.update_self i _ _))
  rw [Function.update_idem] at hprobed
  refine hprobed.env trivial (@Env.count _ k {i} hchild fun j => ?_)
  have hpodsOf := congrFun (podsOf_startPod (i := i) template hv) j
  rw [Finset.mem_singleton]
  constructor
  · rintro rfl
    exact ⟨_, hpodsOf.trans (Function.update_self _ _ _), rfl⟩
  · rintro ⟨pod, hpod, -⟩
    by_contra hne
    cases (hpods j).symm.trans ((Function.update_of_ne hne _ _).symm.trans
      (hpodsOf.symm.trans hpod))

end StartPod

/-- A workload with one replica has been rolled out by reconcile `p`. -/
def rolledOut (p : ℕ) (wl : NiphasWorkload) (r : EvalResult) (i : ℕ) : Rollout :=
  ((((((Rollout.created wl).began p).evaluated wl r).deployed p wl r).startPod i
    (podTemplate (buildDeployment wl r wl.nameAny wl.ns))).counting p).patched p wl.nameAny
      (statusPatch .running r 1 wl.desired newYear wl.generation)

/-- A reconcile that begins. -/
abbrev beginning (timeoutSecs : ℕ) (wl : NiphasWorkload) : (fleetSystem timeoutSecs).Process :=
  { call := wl, rest := (reconcile timeoutSecs wl).run }

/-- A reconcile that is about to return. -/
abbrev returning (timeoutSecs : ℕ) (wl : NiphasWorkload) : (fleetSystem timeoutSecs).Process :=
  { call := wl, rest := .pure (.ok (.requeue 300)) }

/-- The reconcile of a workload rolls it out among the others. -/
lemma reaches_rolledOut {c c' : (fleetSystem timeoutSecs).Config} {p i : ℕ} {wl : NiphasWorkload}
    {r : EvalResult} (h : Reaches (fleetSystem timeoutSecs) OncePerWorkload c c')
    (hp : c'.procs p = some (beginning timeoutSecs wl)) (hclient : c'.world.client p = wl.key)
    (hv : Shows wl.key c'.world ((Rollout.created wl).began p)) (hfree : c'.world.pods i = none)
    (hpending : Pending wl) (hneeds : needsEval wl wl.observed wl.generation)
    (hlone : Rollout.Lone wl r) (hdesired : wl.desired ≤ 1) :
    ∃ w, Reaches (fleetSystem timeoutSecs) OncePerWorkload c
        ({ c' with world := w }.set p (some (returning timeoutSecs wl))) ∧
      Shows wl.key w (rolledOut p wl r i) ∧ Spares wl.key i c'.world w := by
  let template := podTemplate (buildDeployment wl r wl.nameAny wl.ns)
  let v := (((Rollout.created wl).began p).evaluated wl r).deployed p wl r
  have hany := @Rollout.modest_anyCall timeoutSecs p
  have hlive : v.live.isSome :=
    Option.isSome_iff_exists.mpr ⟨_, Rollout.live_deployed (.refl wl) p r⟩
  -- up to the read, then the pod, then up to the end
  obtain ⟨w₁, hgo₁, hw₁, ho₁, hspares₁⟩ := goes_fleet
    ((Rollout.goes_toApply hany hpending hneeds r _).trans
      (Rollout.goes_toRead hany hlone fun _ _ => trivial)) hv hclient (about_reconcile _ wl)
  have h₁ := h.goes hgo₁ hp fun _ _ _ _ _ => trivial
  have hfree₁ := ((hspares₁ (i + 1)).pods i (Nat.ne_of_lt i.lt_succ_self)).trans hfree
  have h₂ := reaches_startPod template h₁ rfl hw₁ hlive (fun _ => rfl) hfree₁
  have hspares₂ := spares_startPod (k := wl.key) template hfree₁
  obtain ⟨w₃, hgo₃, hw₃, -, hspares₃⟩ := goes_fleet
    ((Rollout.goes_toWrite (w := v.startPod i template) hany r hlive hdesired).trans
      (Rollout.rolls_write hany trivial).goes) (hw₁.startPod template)
    ((congrFun (hspares₂.client.trans (hspares₁ i).client) p).trans hclient) ho₁
  have h₃ := h₂.goes hgo₃ (Config.set_self _ _ _) fun _ _ _ _ _ => trivial
  have hset := Config.set_set { c' with world := w₁ } w₃ p
    (some { call := wl, rest := (countReadyReplicas wl >>= reportReady wl r).run })
    (some (returning timeoutSecs wl))
  exact ⟨w₃, hset ▸ h₃, hw₃, ((hspares₁ i).trans hspares₂).trans (hspares₃ i)⟩

/-- Another workload of the namespace. -/
def worldWorkload : NiphasWorkload :=
  { helloWorkload with metadata := { helloWorkload.metadata with name := some "world" } }

/-- A cluster in which a workload has been created. -/
def add (w : Fleet) (wl : NiphasWorkload) : Fleet :=
  { w with workloads := Function.update w.workloads wl.key (some (.created wl)) }

/-- Both have been created, and each of them has a reconcile. -/
def bothBegun : Fleet :=
  { (empty.add helloWorkload).add worldWorkload with
    client := Function.update (Function.update empty.client 0 helloWorkload.key) 1
      worldWorkload.key }

/-- They begin. -/
lemma reaches_bothBegun :
    Reaches (fleetSystem 300) OncePerWorkload (Config.idle empty)
      (((Config.idle bothBegun).set 0 (some (beginning 300 helloWorkload))).set 1
        (some (beginning 300 worldWorkload))) := by
  have hinit : Reaches (fleetSystem 300) OncePerWorkload (Config.idle empty) (Config.idle empty) :=
    .refl _
  have hhello : Env empty (empty.add helloWorkload) := .create rfl rfl
  have hworld : Env (empty.add helloWorkload) ((empty.add helloWorkload).add worldWorkload) :=
    .create rfl rfl
  have hfirst := ((hinit.env trivial hhello).env trivial hworld).start (p := 0)
    (fun _ _ h => by cases h) rfl
    (show (fleetSystem 300).begins _ _ 0 helloWorkload _ from ⟨⟨_, rfl, rfl⟩, rfl⟩)
  refine hfirst.start (p := 1) ?_ rfl
    (show (fleetSystem 300).begins _ _ 1 worldWorkload _ from ⟨⟨_, rfl, rfl⟩, rfl⟩)
  rintro (_ | q) proc hq
  · cases hq
    decide
  · cases hq

/-- Both have been rolled out, and their reconciles are about to return. -/
lemma reaches_both : ∃ w, Shows helloWorkload.key w (rolledOut 0 helloWorkload helloResult 0) ∧
    Shows worldWorkload.key w (rolledOut 1 worldWorkload helloResult 1) ∧
    Reaches (fleetSystem 300) OncePerWorkload (Config.idle empty)
      (((Config.idle w).set 0 (some (returning 300 helloWorkload))).set 1
        (some (returning 300 worldWorkload))) := by
  have hne : worldWorkload.key ≠ helloWorkload.key := by decide
  have hhello : Shows helloWorkload.key bothBegun ((Rollout.created helloWorkload).began 0) :=
    ⟨⟨fun _ => rfl, fun _ => rfl, rfl⟩, rfl, rfl⟩
  have hworld : Shows worldWorkload.key bothBegun ((Rollout.created worldWorkload).began 1) :=
    ⟨⟨fun _ => rfl, fun _ => rfl, rfl⟩, rfl, rfl⟩
  obtain ⟨w₁, h₁, hhello₁, hspares₁⟩ := reaches_rolledOut (i := 0) (p := 0) (r := helloResult)
    reaches_bothBegun rfl rfl hhello rfl Rollout.pending_hello rfl Rollout.lone_hello (by decide)
  obtain ⟨w₂, h₂, hworld₂, hspares₂⟩ := reaches_rolledOut (i := 1) (p := 1) (r := helloResult)
    h₁ rfl (congrFun hspares₁.client 1) (hspares₁.shows _ _ hne hworld)
    (hspares₁.pods 1 (by decide)) ⟨rfl, by decide, fun h => by cases h.2⟩ rfl rfl (by decide)
  refine ⟨w₂, hspares₂.shows _ _ hne.symm hhello₁, hworld₂, ?_⟩
  refine (congrArg (Reaches (fleetSystem 300) OncePerWorkload (Config.idle empty)) ?_).mp h₂
  refine congrArg (Config.mk (S := fleetSystem 300) w₂) (funext fun q => ?_)
  rcases q with _ | _ | q
  · rfl
  · rfl
  · rfl

/-- One of them is as if it were alone. -/
theorem seen_alone_both :
    ∃ evs c, Run (fleetSystem 300) OncePerWorkload (Config.idle empty) evs c ∧
      (c.world.workloads helloWorkload.key).isSome ∧
      (c.world.workloads worldWorkload.key).isSome ∧
      ∃ wl evs' d, wl.key = helloWorkload.key ∧ wl.status = none ∧
        Run (rolloutSystem 300) (AnyStep _) (Config.idle (Rollout.created wl)) evs' d ∧
        Shows helloWorkload.key c.world d.world ∧ ∀ p call rest,
          d.procs p = some { call, rest } ↔
            c.procs p = some { call, rest } ∧ call.key = helloWorkload.key := by
  obtain ⟨w, hhello, hworld, evs, hrun⟩ := reaches_both
  have hk : (w.workloads helloWorkload.key).isSome :=
    Option.isSome_iff_exists.mpr ⟨_, hhello.cluster⟩
  exact ⟨evs, _, hrun, hk, Option.isSome_iff_exists.mpr ⟨_, hworld.cluster⟩, seen_alone hrun hk⟩

/-- It runs. -/
theorem running_keeps_both :
    ∃ evs c cluster, Run (fleetSystem 300) OncePerWorkload (Config.idle empty) evs c ∧
      c.world.workloads helloWorkload.key = some cluster ∧
      (cluster.object.status.getD {}).phase = .running ∧
      ∃ rolled r, cluster.versions rolled ∧ (cluster.object.status.getD {}).Reports rolled r ∧
        ∀ kind manifest, rendered rolled r kind = some manifest →
          c.world.child helloWorkload.key kind = some manifest := by
  obtain ⟨w, hhello, -, evs, hrun⟩ := reaches_both
  exact ⟨evs, _, _, hrun, hhello.cluster, rfl, running_keeps hrun hhello.cluster rfl⟩

/-- Its Deployment is its own, and there is another one in the namespace. -/
theorem children_apart_both :
    ∃ evs c manifest other, Run (fleetSystem 300) OncePerWorkload (Config.idle empty) evs c ∧
      c.world.children.get .deployment "hello" "apps" = some manifest ∧
      c.world.children.get .deployment "world" "apps" = some other ∧
      ∃ k cluster, c.world.workloads k = some cluster ∧ cluster.object.key = k ∧
        Owned cluster.object .deployment "hello" "apps" manifest ∧
        (ChildKind.deployment ≠ .ingress → ∀ name' deployment,
          c.world.children.get .deployment name' "apps" = some deployment →
            (Selects (childSelector .deployment manifest) (podLabels deployment) ↔
              name' = k.name)) := by
  obtain ⟨w, hhello, hworld, evs, hrun⟩ := reaches_both
  have hget : w.children.get .deployment "hello" "apps" = _ := (hhello.children .deployment).symm
  have hother : w.children.get .deployment "world" "apps" = _ := (hworld.children .deployment).symm
  exact ⟨evs, _, _, _, hrun, hget, hother, children_apart hrun hget⟩

end Fleet

end Niphas
