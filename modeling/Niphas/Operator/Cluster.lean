import Niphas.Operator.Reconciler

/-!
# The workload in the cluster

What the reconciler works on: the stored workload, all versions it has had, and what the webhook has
answered.  Three merge patches write the status, each a different part of it; the API server applies
them to the version it has by then.

A reconcile reads its workload from a cache of the controller, which may lag behind.  So a reconcile
may begin with any version there has been, and the system has to keep them all (`versions`).  It
also keeps what the webhook has answered to which request (`answers`), because a result in a status
means something only together with the spec it was computed for.  A write that is answered with an
error may or may not have been carried out.  Nothing is said about which reconciles work at a time,
so the results hold for one controller, for two that take themselves for the leader, and behind a
crash.

A patch does not name the version it was computed from, and there is no precondition in it: this is
what makes a status possible that has its parts from several reconciles.  `StatusOk` says what is
right about it nevertheless.

* `clusterSystem` — any number of reconciles, each from some version the workload has had, while the
  spec changes, writes fail with or without effect, and the operator crashes.
* `Cluster.Inv` — the result in a status is one for the generation it names.
* `StatusOk.phasePatch`, `StatusOk.failedPatch`, `statusOk_statusPatch` — what each patch needs to
  keep it so.
-/

namespace Niphas

open System

/-! ## The cluster -/

/-- The workload as it is stored, the versions it has had, and what the webhook has answered. -/
structure Cluster where
  object : NiphasWorkload
  versions : NiphasWorkload → Prop
  evaluated : EvalRequest → EvalResult → Prop

namespace Cluster

/-- A workload nobody has reconciled yet. -/
def created (workload : NiphasWorkload) : Cluster :=
  { object := workload, versions := fun wl => wl = workload, evaluated := fun _ _ => False }

/-- A new version is stored. -/
def store (w : Cluster) (obj : NiphasWorkload) : Cluster :=
  { w with object := obj, versions := fun wl => w.versions wl ∨ wl = obj }

/-- The status is patched. -/
def patchStatus (w : Cluster) (patch : StatusPatch) : Cluster :=
  w.store { w.object with status := some (patch.apply (w.object.status.getD {})) }

/-- The finalizers are replaced. -/
def patchFinalizers (w : Cluster) (finalizers : Option (List String)) : Cluster :=
  w.store { w.object with metadata := { w.object.metadata with finalizers } }

/-- The webhook has answered. -/
def record (w : Cluster) (req : EvalRequest) (reply : WebhookReply) : Cluster :=
  { w with evaluated := fun req' r => w.evaluated req' r ∨ req' = req ∧ reply = .success (.ok r) }

/-- `obj` follows the stored version: a change of the spec has raised the generation. -/
def Follows (w : Cluster) (obj : NiphasWorkload) : Prop :=
  obj.generation = w.object.generation ∧ obj.spec = w.object.spec ∨
    w.object.generation < obj.generation

/-- Somebody else edits the workload: its metadata, or its spec, which raises the generation. -/
def Edit (w w' : Cluster) : Prop :=
  ∃ obj, w' = w.store obj ∧ obj.status = w.object.status ∧ w.Follows obj

end Cluster

/-- What the operations may answer and leave.  A write that fails may have had its effect. -/
def KubeOp.Sem : (o : KubeOp) → Cluster → kubeInterface.Answer o → Cluster → Prop
  | .patchStatus _ patch, w, r, w' =>
      w' = w.patchStatus patch ∨ (∃ e, r = .error e) ∧ w' = w
  | .patchFinalizers _ finalizers, w, r, w' =>
      w' = w.patchFinalizers finalizers ∨ (∃ e, r = .error e) ∧ w' = w
  | .evaluate req, w, reply, w' => w' = w.record req reply
  | _, w, _, w' => w' = w

/-- The operator and the workload.  A reconcile begins with any version the workload has had. -/
def clusterSystem (timeoutSecs : ℕ) : System where
  iface := kubeInterface
  World := Cluster
  Call := NiphasWorkload
  Out := Except OperatorFault Action
  program workload := (reconcile timeoutSecs workload).run
  sem _ := KubeOp.Sem
  begins w _ _ workload w' := w.versions workload ∧ w' = w
  env := Cluster.Edit
  crash w w' := w' = w

/-! ## The invariant -/

namespace Cluster

/-- `storePath` and `closurePaths` are the result of an evaluation of the spec of generation
`g`. -/
def Resolved (w : Cluster) (g : Int) (storePath : String) (closurePaths : List String) : Prop :=
  ∃ wl r, w.versions wl ∧ wl.generation = g ∧ w.evaluated (EvalRequest.ofSpec wl.spec) r ∧
    storePath = r.storePath ∧ closurePaths = r.closurePaths

/-- What is right about a status of an object of generation `gen`. -/
structure StatusOk (w : Cluster) (gen : Int) (st : NiphasWorkloadStatus) : Prop where
  seen : ∀ g, st.observedGeneration = some g → g ≤ gen
  dated : st.storePath.isSome → st.observedGeneration.isSome
  running : st.phase = .running → ∃ g storePath closurePaths, st.observedGeneration = some g ∧
    st.storePath = some storePath ∧ st.closurePaths = some closurePaths ∧
      w.Resolved g storePath closurePaths
  resolved : st.observedGeneration = some gen → ∀ storePath, st.storePath = some storePath →
    ∃ closurePaths, st.closurePaths = some closurePaths ∧ w.Resolved gen storePath closurePaths

/-- What holds of the versions: the stored one is of the last generation, and a generation has one
spec. -/
structure Ordered (w : Cluster) : Prop where
  current : w.versions w.object
  latest : ∀ wl, w.versions wl → wl.generation ≤ w.object.generation
  oneSpec : ∀ wl wl', w.versions wl → w.versions wl' → wl.generation = wl'.generation →
    wl.spec = wl'.spec

/-- What holds of the cluster in every state. -/
structure Inv (w : Cluster) : Prop extends w.Ordered where
  status : ∀ wl st, w.versions wl → wl.status = some st → w.StatusOk wl.generation st

/-- Versions and answers are only added. -/
structure Grows (w w' : Cluster) : Prop where
  versions : ∀ wl, w.versions wl → w'.versions wl
  evaluated : ∀ req r, w.evaluated req r → w'.evaluated req r

lemma Grows.refl (w : Cluster) : w.Grows w := ⟨fun _ h => h, fun _ _ h => h⟩

lemma Grows.trans {w₁ w₂ w₃ : Cluster} (h : w₁.Grows w₂) (h' : w₂.Grows w₃) : w₁.Grows w₃ :=
  ⟨fun wl hwl => h'.versions wl (h.versions wl hwl),
    fun req r hr => h'.evaluated req r (h.evaluated req r hr)⟩

lemma grows_store (w : Cluster) (obj : NiphasWorkload) : w.Grows (w.store obj) :=
  ⟨fun _ h => .inl h, fun _ _ h => h⟩

lemma grows_record (w : Cluster) (req : EvalRequest) (reply : WebhookReply) :
    w.Grows (w.record req reply) :=
  ⟨fun _ h => h, fun _ _ h => .inl h⟩

lemma Resolved.mono {w w' : Cluster} {g : Int} {storePath : String} {closurePaths : List String}
    (h : w.Resolved g storePath closurePaths) (hw : w.Grows w') :
    w'.Resolved g storePath closurePaths := by
  obtain ⟨wl, r, hwl, hg, hr, heq⟩ := h
  exact ⟨wl, r, hw.versions wl hwl, hg, hw.evaluated _ _ hr, heq⟩

lemma StatusOk.mono {w w' : Cluster} {gen : Int} {st : NiphasWorkloadStatus}
    (h : w.StatusOk gen st) (hw : w.Grows w') : w'.StatusOk gen st := by
  refine ⟨h.seen, h.dated, fun hphase => ?_, fun hgen storePath hpath => ?_⟩
  · obtain ⟨g, storePath, closurePaths, hg, hpath, hclosure, hres⟩ := h.running hphase
    exact ⟨g, storePath, closurePaths, hg, hpath, hclosure, hres.mono hw⟩
  · obtain ⟨closurePaths, hclosure, hres⟩ := h.resolved hgen storePath hpath
    exact ⟨closurePaths, hclosure, hres.mono hw⟩

lemma statusOk_default (w : Cluster) (gen : Int) : w.StatusOk gen {} :=
  ⟨nofun, nofun, nofun, nofun⟩

/-- A status stays right when the generation is raised. -/
lemma StatusOk.raise {w : Cluster} {gen gen' : Int} {st : NiphasWorkloadStatus}
    (h : w.StatusOk gen st) (hlt : gen < gen') : w.StatusOk gen' st := by
  refine ⟨fun g hg => le_of_lt (lt_of_le_of_lt (h.seen g hg) hlt), h.dated, h.running, ?_⟩
  intro hgen
  exact absurd (h.seen gen' hgen) (not_le_of_gt hlt)

lemma Ordered.store {w : Cluster} (hw : w.Ordered) {obj : NiphasWorkload}
    (hgen : w.Follows obj) : (w.store obj).Ordered := by
  have hlatest : ∀ wl, w.versions wl → wl.generation ≤ obj.generation := by
    intro wl hwl
    have hle := hw.latest wl hwl
    rcases hgen with ⟨heq, -⟩ | hlt <;> omega
  have hspec : ∀ wl, w.versions wl → wl.generation = obj.generation → wl.spec = obj.spec := by
    intro wl hwl heq
    rcases hgen with ⟨heq', hspec⟩ | hlt
    · rw [hspec]
      exact hw.oneSpec wl _ hwl hw.current (heq.trans heq')
    · have hle := hw.latest wl hwl
      omega
  refine ⟨.inr rfl, ?_, ?_⟩
  · rintro wl (hwl | rfl)
    · exact hlatest wl hwl
    · exact le_refl _
  · rintro wl wl' (hwl | rfl) (hwl' | rfl) heq
    · exact hw.oneSpec wl wl' hwl hwl' heq
    · exact hspec wl hwl heq
    · exact (hspec wl' hwl' heq.symm).symm
    · rfl

lemma Ordered.record {w : Cluster} (hw : w.Ordered) (req : EvalRequest) (reply : WebhookReply) :
    (w.record req reply).Ordered := ⟨hw.current, hw.latest, hw.oneSpec⟩

/-- Storing a version with the right status. -/
lemma Inv.store {w : Cluster} (hw : w.Inv) {obj : NiphasWorkload} (hgen : w.Follows obj)
    (hstatus : ∀ st, obj.status = some st → w.StatusOk obj.generation st) :
    (w.store obj).Inv := by
  refine ⟨hw.toOrdered.store hgen, ?_⟩
  rintro wl st (hwl | rfl) hst
  · exact (hw.status wl st hwl hst).mono (w.grows_store obj)
  · exact (hstatus st hst).mono (w.grows_store wl)

lemma Inv.record {w : Cluster} (hw : w.Inv) (req : EvalRequest) (reply : WebhookReply) :
    (w.record req reply).Inv :=
  ⟨hw.toOrdered.record req reply,
    fun wl st hwl hst => (hw.status wl st hwl hst).mono (w.grows_record req reply)⟩

/-- The status of the stored object. -/
lemma Inv.statusOk {w : Cluster} (hw : w.Inv) :
    w.StatusOk w.object.generation (w.object.status.getD {}) := by
  cases hst : w.object.status with
  | none => exact w.statusOk_default _
  | some st => exact hw.status _ st hw.current hst

/-- A patch that leaves nothing wrong. -/
lemma Inv.patchStatus {w : Cluster} (hw : w.Inv) {patch : StatusPatch}
    (hpatch : w.StatusOk w.object.generation (patch.apply (w.object.status.getD {}))) :
    (w.patchStatus patch).Inv := by
  refine hw.store (.inl ⟨rfl, rfl⟩) ?_
  rintro _ ⟨⟩
  exact hpatch

lemma Inv.patchFinalizers {w : Cluster} (hw : w.Inv) (finalizers : Option (List String)) :
    (w.patchFinalizers finalizers).Inv :=
  hw.store (.inl ⟨rfl, rfl⟩) fun st hst => hw.status w.object st hw.current hst

lemma Inv.edit {w w' : Cluster} (hw : w.Inv) (h : w.Edit w') : w'.Inv ∧ w.Grows w' := by
  obtain ⟨obj, rfl, hstatus, hgen⟩ := h
  refine ⟨hw.store hgen fun st hst => ?_, w.grows_store obj⟩
  rw [hstatus] at hst
  have hok := hw.status _ st hw.current hst
  rcases hgen with ⟨heq, -⟩ | hlt
  · rwa [heq]
  · exact hok.raise hlt

/-- A workload without a status. -/
lemma ordered_created (wl : NiphasWorkload) : (created wl).Ordered := by
  refine ⟨rfl, ?_, ?_⟩
  · rintro _ rfl
    exact le_refl _
  · rintro _ _ rfl rfl _
    rfl

lemma inv_created {wl : NiphasWorkload} (hwl : wl.status = none) :
    (created wl).Inv := by
  refine ⟨ordered_created wl, ?_⟩
  rintro _ st rfl hst
  rw [hwl] at hst
  cases hst

/-! ## The patches -/

/-- A phase other than `Running` may always be set. -/
lemma StatusOk.phasePatch {w : Cluster} {gen : Int} {st : NiphasWorkloadStatus}
    (h : w.StatusOk gen st) {phase : WorkloadPhase} (hphase : phase ≠ .running) :
    w.StatusOk gen ((phasePatch phase).apply st) :=
  ⟨h.seen, h.dated, fun heq => absurd heq hphase, h.resolved⟩

/-- A failure may be recorded for a generation that is not the last one, where there is no result
yet, and over the result of the same generation. -/
lemma StatusOk.failedPatch {w : Cluster} {gen g : Int} {st : NiphasWorkloadStatus}
    (h : w.StatusOk gen st) (hg : g ≤ gen)
    (hkept : g ≠ gen ∨ st.storePath = none ∨ st.observedGeneration = some g)
    (reason message now : String) :
    w.StatusOk gen ((failedPatch reason message now g).apply st) := by
  refine ⟨?_, fun _ => rfl, nofun, fun hgen storePath hpath => ?_⟩
  · rintro _ ⟨⟩
    exact hg
  · cases hgen
    rcases hkept with hne | hnone | hsame
    · exact absurd rfl hne
    · exact absurd (hnone.symm.trans hpath) nofun
    · exact h.resolved hsame storePath hpath

/-- The result of an evaluation may always be recorded. -/
lemma statusOk_statusPatch {w : Cluster} {gen g : Int} {r : EvalResult} (hg : g ≤ gen)
    (hres : w.Resolved g r.storePath r.closurePaths) (st : NiphasWorkloadStatus)
    (phase : WorkloadPhase) (ready desired : Int) (now : String) :
    w.StatusOk gen ((statusPatch phase r ready desired now g).apply st) := by
  refine ⟨?_, fun _ => rfl, fun _ => ⟨g, _, _, rfl, rfl, rfl, hres⟩, ?_⟩
  · rintro _ ⟨⟩
    exact hg
  · rintro ⟨⟩ _ ⟨⟩
    exact ⟨_, rfl, hres⟩

end Cluster

/-- The patch does not record a failure for the generation of the object over the result of another
generation. -/
def StatusPatch.KeepsResult (patch : StatusPatch) (obj : NiphasWorkload) : Prop :=
  patch.phase = some .failed → patch.observedGeneration ≠ some obj.generation ∨
    (obj.status.getD {}).storePath = none ∨
      (obj.status.getD {}).observedGeneration = patch.observedGeneration

/-- The operation is not such a patch. -/
def KubeOp.KeepsResult : KubeOp → Cluster → Prop
  | .patchStatus _ patch, w => patch.KeepsResult w.object
  | _, _ => True

/-- What an operation does to the versions. -/
lemma KubeOp.Sem.ordered {o : KubeOp} {w w' : Cluster} {r : kubeInterface.Answer o}
    (hs : o.Sem w r w') (hw : w.Ordered) : w'.Ordered := by
  cases o with
  | patchStatus name patch =>
      rcases hs with rfl | ⟨-, rfl⟩
      · exact hw.store (.inl ⟨rfl, rfl⟩)
      · exact hw
  | patchFinalizers name finalizers =>
      rcases hs with rfl | ⟨-, rfl⟩
      · exact hw.store (.inl ⟨rfl, rfl⟩)
      · exact hw
  | evaluate req =>
      cases hs
      exact hw.record req r
  | _ =>
      cases hs
      exact hw

end Niphas
