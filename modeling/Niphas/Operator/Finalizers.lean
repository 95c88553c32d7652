import Mathlib.Data.Set.Insert
import Niphas.Operator.StatusHistory

/-!
# Finalizers of other controllers

Other controllers put finalizers on a workload too, to be asked before it is deleted.
`add_finalizer` and `remove_finalizer` send the whole list, computed from the version their
reconcile was given, and the API server puts it in place of the one it has by then.

That a finalizer is *lost* cannot be seen from the workload alone, as other controllers take theirs
off as well.  So the world knows which finalizers the others have put on and not taken off again
(`Shared.held`), and the property is that the object has just these, beside the operator's own.  It
fails in both directions: a list from an earlier version may leave out what has been added since,
and bring back what has been removed.

`kept_iff` is about one write, and an equivalence.  The run theorem has its right side as the
condition on the steps, which compares the version a reconcile works from with the stored object in
front of the write.

* `finalizerSystem` — any number of reconciles, and other controllers that add and remove finalizers
  in between.
* `kept_iff` — a list that is sent keeps the finalizers of the others just when the version it was
  computed from has the same ones as the stored object.
* `finalizers_kept` — so they are kept in every run in which every such version has.
* `finalizers_lost` — a finalizer that is added in between is lost.
-/

namespace Niphas

open System

/-! ## The system -/

/-- The finalizers in a list, without the operator's own. -/
def foreign (finalizers : Option (List String)) : Set String :=
  { f | f ≠ finalizer ∧ f ∈ finalizers.getD [] }

/-- The finalizers other controllers have on a workload. -/
def NiphasWorkload.foreign (wl : NiphasWorkload) : Set String :=
  Niphas.foreign wl.metadata.finalizers

/-- The workload, and the finalizers other controllers have put on it and not taken off again. -/
structure Shared where
  cluster : Cluster
  held : Set String

namespace Shared

/-- A workload nobody has reconciled yet. -/
def created (workload : NiphasWorkload) : Shared :=
  { cluster := .created workload, held := workload.foreign }

/-- The workload as it is stored. -/
abbrev object (w : Shared) : NiphasWorkload := w.cluster.object

/-- What happens besides the reconciles: the workload is edited, which may add or remove a finalizer
of another controller. -/
inductive Env : Shared → Shared → Prop
  | edit {w : Shared} {cluster : Cluster} : w.cluster.Edit cluster →
      cluster.object.foreign = w.object.foreign → Env w { w with cluster }
  | add {w : Shared} {cluster : Cluster} {f : String} : w.cluster.Edit cluster →
      cluster.object.foreign = insert f w.object.foreign →
        Env w { cluster, held := insert f w.held }
  | remove {w : Shared} {cluster : Cluster} {f : String} : w.cluster.Edit cluster →
      cluster.object.foreign = w.object.foreign \ {f} → Env w { cluster, held := w.held \ {f} }

/-- The finalizers of the other controllers are those they have put on the workload and not taken
off: none is lost, and none is back. -/
def Kept (w : Shared) : Prop := w.object.foreign = w.held

end Shared

/-- The operator, the workload, and the other controllers. -/
def finalizerSystem (timeoutSecs : ℕ) : System where
  iface := kubeInterface
  World := Shared
  Call := NiphasWorkload
  Out := Except OperatorFault Action
  program workload := (reconcile timeoutSecs workload).run
  sem _ o w r w' := ∃ cluster, o.Sem w.cluster r cluster ∧ w' = { w with cluster }
  begins w _ _ workload w' := w.cluster.versions workload ∧ w' = w
  env := Shared.Env
  crash w w' := w' = w

/-! ## What is sent -/

/-- A list that is sent has the finalizers the version `wl` has of the others. -/
def KubeOp.Sends (wl : NiphasWorkload) : KubeOp → Prop
  | .patchFinalizers _ finalizers => foreign finalizers = wl.foreign
  | _ => True

/-- An operation that sends no list of finalizers. -/
def KubeOp.SendsNone : KubeOp → Prop
  | .patchFinalizers _ _ => False
  | _ => True

lemma KubeOp.SendsNone.sends {o : KubeOp} (ho : o.SendsNone) (wl : NiphasWorkload) :
    o.Sends wl := by
  cases o with
  | patchFinalizers name finalizers => exact ho.elim
  | _ => trivial

/-- A part of a reconcile that sends no list of finalizers. -/
abbrev SendsNone {α : Type} (prog : OperatorM α) : Prop := prog.run.All KubeOp.SendsNone

lemma sendsNone_op {o : KubeOp} (ho : o.SendsNone) : SendsNone (OperatorM.op o) :=
  ⟨ho, fun _ => trivial⟩

lemma sendsNone_ofKube {α : Type} (r : Except String α) : SendsNone (OperatorM.ofKube r) := by
  cases r <;> trivial

lemma sendsNone_setPhase (wl : NiphasWorkload) (phase : WorkloadPhase) :
    SendsNone (setPhase wl phase) :=
  .bindExcept (sendsNone_op trivial) sendsNone_ofKube

lemma sendsNone_setFailed (wl : NiphasWorkload) (reason message : String) (generation : Int) :
    SendsNone (setFailed wl reason message generation) :=
  .bindExcept (sendsNone_op trivial) fun _ =>
    .bindExcept (sendsNone_op trivial) sendsNone_ofKube

lemma sendsNone_updateStatus (wl : NiphasWorkload) (phase : WorkloadPhase) (r : EvalResult)
    (ready generation : Int) : SendsNone (updateStatus wl phase r ready generation) :=
  .bindExcept (sendsNone_op trivial) fun _ =>
    .bindExcept (sendsNone_op trivial) sendsNone_ofKube

lemma sendsNone_evalFresh (timeoutSecs : ℕ) (wl : NiphasWorkload) :
    SendsNone (evalFresh timeoutSecs wl) := by
  refine .bindExcept (sendsNone_setPhase wl _) fun _ => ?_
  refine .bindExcept (sendsNone_op trivial) fun _ => ?_
  refine .bindExcept (sendsNone_op trivial) fun reply => ?_
  split
  · exact .bindExcept (sendsNone_op trivial) fun _ => trivial
  · refine .bindExcept (sendsNone_op trivial) fun _ => ?_
    exact .bindExcept (sendsNone_setFailed wl _ _ _) fun _ => trivial

lemma sendsNone_evalUncached (timeoutSecs : ℕ) (wl : NiphasWorkload) :
    SendsNone (evalUncached timeoutSecs wl) := by
  refine .bindExcept (sendsNone_setPhase wl _) fun _ => ?_
  refine .bindExcept (sendsNone_op trivial) fun reply => ?_
  split
  · trivial
  · exact .bindExcept (sendsNone_setFailed wl _ _ _) fun _ => trivial

lemma sendsNone_evalCached (timeoutSecs : ℕ) (wl : NiphasWorkload) :
    SendsNone (evalCached timeoutSecs wl) := by
  rw [evalCached]
  split
  · trivial
  · exact sendsNone_evalUncached timeoutSecs wl
  · trivial

lemma sendsNone_applyChildren (children : List ChildManifest) :
    (applyChildren children).All KubeOp.SendsNone := by
  induction children with
  | nil => trivial
  | cons child rest ih =>
      refine ⟨trivial, fun r => ?_⟩
      rcases r with e | ⟨⟩
      · trivial
      · exact ih

lemma sendsNone_countReadyReplicas (wl : NiphasWorkload) : SendsNone (countReadyReplicas wl) := by
  have hread : SendsNone (OperatorM.op (.getDeployment wl.nameAny)) := sendsNone_op trivial
  refine .bindExcept hread fun answer => .bindExcept (sendsNone_ofKube answer) fun deployment => ?_
  cases deployment <;> trivial

lemma sendsNone_reportStatus (wl : NiphasWorkload) (r : EvalResult) :
    SendsNone (reportStatus wl r) := by
  refine .bindExcept (sendsNone_op trivial) fun _ => ?_
  refine .bindExcept (sendsNone_countReadyReplicas wl) fun ready => ?_
  split
  · refine .bindExcept (sendsNone_op trivial) fun _ => ?_
    exact .bindExcept (sendsNone_updateStatus wl _ r ready _) fun _ => trivial
  · exact .bindExcept (sendsNone_updateStatus wl _ r ready _) fun _ => trivial

lemma sendsNone_provision (wl : NiphasWorkload) (r : EvalResult) : SendsNone (provision wl r) := by
  refine .bindExcept (sendsNone_setPhase wl _) fun _ => ?_
  refine .bindExcept (.bind (sendsNone_applyChildren _) fun _ => trivial) fun applied => ?_
  split
  · exact sendsNone_reportStatus wl r
  · exact .bindExcept (sendsNone_setFailed wl _ _ _) fun _ => trivial

/-- `add_finalizer` leaves the others in its list. -/
lemma sends_addFinalizer (wl : NiphasWorkload) : (addFinalizer wl).run.All (KubeOp.Sends wl) := by
  refine .bindExcept ⟨?_, fun _ => trivial⟩ fun r => (sendsNone_ofKube r).imp fun _ h => h.sends wl
  ext f
  simp only [foreign, NiphasWorkload.foreign, Set.mem_ofPred_eq, Option.getD_some]
  refine and_congr_right fun hf => ?_
  split
  · exact Iff.rfl
  · simp [hf]

/-- So does `remove_finalizer`. -/
lemma sends_removeFinalizer (wl : NiphasWorkload) :
    (removeFinalizer wl).run.All (KubeOp.Sends wl) := by
  refine .bindExcept ⟨?_, fun _ => trivial⟩ fun r => (sendsNone_ofKube r).imp fun _ h => h.sends wl
  have hlist : ∀ fs : List String, (if fs = [] then none else some fs).getD [] = fs := by
    intro fs
    split
    next hnil => exact hnil.symm
    next => rfl
  ext f
  simp only [foreign, NiphasWorkload.foreign, Set.mem_ofPred_eq, hlist, List.mem_filter,
    decide_eq_true_eq]
  exact ⟨fun h => ⟨h.1, h.2.1⟩, fun h => ⟨h.1, h.2, h.1⟩⟩

/-- **Every list a reconcile sends** has the finalizers of the others that its version has. -/
lemma sends_reconcile (timeoutSecs : ℕ) (wl : NiphasWorkload) :
    (reconcile timeoutSecs wl).run.All (KubeOp.Sends wl) := by
  have hnone : ∀ {α : Type} {prog : OperatorM α}, SendsNone prog →
      prog.run.All (KubeOp.Sends wl) := fun h => h.imp fun _ ho => ho.sends wl
  rw [reconcile]
  split
  · refine .bindExcept (hnone (sendsNone_op trivial)) fun _ => ?_
    exact .bindExcept (sends_removeFinalizer wl) fun _ => trivial
  split
  · exact .bindExcept (sends_addFinalizer wl) fun _ => trivial
  split
  · trivial
  have hrest : ∀ outcome, SendsNone (afterEval wl outcome) := by
    rintro (action | r)
    · trivial
    · exact sendsNone_provision wl r
  split
  · exact .bindExcept (hnone (sendsNone_evalFresh timeoutSecs wl)) fun r => hnone (hrest r)
  · exact .bindExcept (hnone (sendsNone_evalCached timeoutSecs wl)) fun r => hnone (hrest r)

/-! ## Runs -/

section Runs

variable {timeoutSecs : ℕ} {wl : NiphasWorkload}
  {P : (finalizerSystem timeoutSecs).Config → (finalizerSystem timeoutSecs).Event → Prop}
  {evs : List (finalizerSystem timeoutSecs).Event} {c c' : (finalizerSystem timeoutSecs).Config}

/-- The version a reconcile works from has the same finalizers of the others as the object has when
the reconcile sends its list. -/
def UpToDate (c : (finalizerSystem timeoutSecs).Config) :
    (finalizerSystem timeoutSecs).Event → Prop
  | .op p o _ => ¬ KubeOp.SendsNone o →
      ∀ proc, c.procs p = some proc → proc.call.foreign = c.world.object.foreign
  | _ => True

/-- A list that takes the place of the stored one **keeps the finalizers of the others just when**
the version it was computed from has the same ones as the object. -/
lemma kept_iff (hrun : Run (finalizerSystem timeoutSecs) P (Config.idle (Shared.created wl)) evs c)
    (hkept : c.world.Kept) {p : ℕ} {name : String} {finalizers : Option (List String)}
    {r : Except String Unit}
    (hs : Step (finalizerSystem timeoutSecs) c
      (.op p (KubeOp.patchFinalizers name finalizers) r) c')
    (hstored : c'.world.cluster = c.world.cluster.patchFinalizers finalizers) :
    c'.world.Kept ↔ UpToDate c (.op p (KubeOp.patchFinalizers name finalizers) r) := by
  obtain ⟨call, k, w, hp, ⟨cluster, -, rfl⟩, rfl⟩ := hs.of_op
  have hsends : foreign finalizers = call.foreign :=
    (hrun.rest_all (Q := KubeOp.Sends) (sends_reconcile timeoutSecs) hp).1
  have hforeign : cluster.object.foreign = foreign finalizers := congrArg (·.object.foreign) hstored
  have hnew : Shared.Kept { c.world with cluster } ↔ call.foreign = c.world.object.foreign := by
    rw [Shared.Kept, hforeign, hsends, hkept]
  refine hnew.trans ⟨fun h _ proc hproc => ?_, fun h => h not_false _ hp⟩
  obtain rfl := Option.some.inj (hp.symm.trans hproc)
  exact h

/-- **The finalizers of other controllers are kept**, in every run in which a reconcile sends a list
only while the version it works from has the same ones as the object. -/
theorem finalizers_kept
    (hrun : Run (finalizerSystem timeoutSecs) UpToDate (Config.idle (Shared.created wl)) evs c) :
    c.world.Kept := by
  induction hrun with
  | nil => rfl
  | @snoc c c' evs ev hrun hP hs ih =>
      cases hs with
      | start _ hbegin =>
          obtain ⟨-, rfl⟩ := hbegin
          exact ih
      | @op p call o k r w hp hsem =>
          obtain ⟨cluster, hcluster, rfl⟩ := hsem
          cases o with
          | patchFinalizers name finalizers =>
              rcases hcluster with rfl | ⟨-, rfl⟩
              · exact (kept_iff hrun ih (.op hp ⟨_, .inl rfl, rfl⟩) rfl).mpr hP
              · exact ih
          | patchStatus name patch =>
              rcases hcluster with rfl | ⟨-, rfl⟩
              · exact ih
              · exact ih
          | _ =>
              cases hcluster
              exact ih
      | ret _ => exact ih
      | env henv =>
          cases henv with
          | edit _ hforeign => exact hforeign.trans ih
          | add _ hforeign => exact hforeign.trans (congrArg _ ih)
          | remove _ hforeign => exact hforeign.trans (congrArg (· \ _) ih)
      | crash hcrash =>
          cases hcrash
          exact ih

end Runs

/-! ## Adding the finalizer -/

/-- The finalizer of another controller. -/
def backupFinalizer : String := "example.com/backup"

/-- The other controller has added it. -/
def backedUp : Cluster :=
  (Cluster.created bareWorkload).patchFinalizers (some [backupFinalizer])

/-- The workload with that finalizer. -/
def backedUpWorld : Shared :=
  { cluster := backedUp, held := insert backupFinalizer bareWorkload.foreign }

/-- The other controller adds it. -/
lemma env_backedUp : Shared.Env (Shared.created bareWorkload) backedUpWorld := by
  refine .add (f := backupFinalizer) ⟨backedUp.object, rfl, rfl, .inl ⟨rfl, rfl⟩⟩ ?_
  ext f
  simp [NiphasWorkload.foreign, foreign, backedUp, Shared.created, Cluster.created, bareWorkload,
    Cluster.patchFinalizers, Cluster.store]
  rintro rfl
  decide

/-- A first reconcile of the version `wl`, from the state in which it sends its list. -/
lemma reaches_added {P : (finalizerSystem 300).Config → (finalizerSystem 300).Event → Prop}
    {c : (finalizerSystem 300).Config} {evs : List (finalizerSystem 300).Event}
    {wl : NiphasWorkload} {finalizers : Option (List String)}
    {k : Except String Unit → Prog kubeInterface (Except OperatorFault Action)}
    (hrun : Run (finalizerSystem 300) P (Config.idle (Shared.created bareWorkload)) evs c)
    (hp : c.procs 0 = some { call := wl, rest := (reconcile 300 wl).run })
    (hsends : (reconcile 300 wl).run = .call (.patchFinalizers "hello" finalizers) k)
    (hP : P c (.op 0 (KubeOp.patchFinalizers "hello" finalizers) (.ok ()))) :
    ∃ evs' c', Run (finalizerSystem 300) P (Config.idle (Shared.created bareWorkload)) evs' c' ∧
      c'.world = { c.world with cluster := c.world.cluster.patchFinalizers finalizers } := by
  rw [hsends] at hp
  exact ⟨_, _, .snoc hrun hP (.op hp ⟨_, .inl rfl, rfl⟩), rfl⟩

/-- **A finalizer that is there when the operator adds its own** stays: the reconcile works from the
version that has it. -/
theorem finalizers_kept_backup :
    ∃ evs c, Run (finalizerSystem 300) UpToDate (Config.idle (Shared.created bareWorkload)) evs c ∧
      backupFinalizer ∈ c.world.held ∧
        c.world.object.metadata.finalizers = some [backupFinalizer, finalizer] ∧
          c.world.Kept := by
  have hadded : Run (finalizerSystem 300) UpToDate (Config.idle (Shared.created bareWorkload))
      [.env] (Config.idle backedUpWorld) := .snoc .nil trivial (.env env_backedUp)
  have hbegun : Run (finalizerSystem 300) UpToDate (Config.idle (Shared.created bareWorkload))
      [.env, .start 0 backedUp.object] ((Config.idle backedUpWorld).set 0
        (some { call := backedUp.object, rest := (reconcile 300 backedUp.object).run })) :=
    .snoc hadded trivial (.start rfl ⟨.inr rfl, rfl⟩)
  obtain ⟨evs, c, hrun, hw⟩ := reaches_added hbegun rfl rfl fun _ proc hproc => by
    cases hproc
    rfl
  refine ⟨evs, c, hrun, ?_, ?_, finalizers_kept hrun⟩
  · rw [hw]
    exact Set.mem_insert _ _
  · rw [hw]
    rfl

/-- **A finalizer that is added behind the version a reconcile works from is lost.** -/
theorem finalizers_lost :
    ∃ evs c, Run (finalizerSystem 300) (AnyStep _)
      (Config.idle (Shared.created bareWorkload)) evs c ∧
      backupFinalizer ∈ c.world.held ∧
        backupFinalizer ∉ c.world.object.metadata.finalizers.getD [] ∧ ¬ c.world.Kept := by
  have hbegun : Run (finalizerSystem 300) (AnyStep _) (Config.idle (Shared.created bareWorkload))
      [.start 0 bareWorkload] ((Config.idle (Shared.created bareWorkload)).set 0
        (some { call := bareWorkload, rest := (reconcile 300 bareWorkload).run })) :=
    .snoc .nil trivial (.start rfl ⟨rfl, rfl⟩)
  have hadded := hbegun.snoc trivial (.env env_backedUp)
  obtain ⟨evs, c, hrun, hw⟩ := reaches_added hadded rfl rfl trivial
  have hheld : backupFinalizer ∈ c.world.held := by
    rw [hw]
    exact Set.mem_insert _ _
  have hgone : backupFinalizer ∉ c.world.object.metadata.finalizers.getD [] := by
    rw [hw]
    decide
  refine ⟨evs, c, hrun, hheld, hgone, fun hkept => hgone ?_⟩
  have hmem : backupFinalizer ∈ c.world.object.foreign := hkept.symm ▸ hheld
  exact hmem.2

end Niphas
