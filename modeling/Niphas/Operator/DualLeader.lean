import Niphas.Operator.RolloutRuns

/-!
# Two leaders at a time

Two operators that both take themselves for the leader reconcile one workload, from versions of
their own.  Each applies its Deployment and then writes its status, and neither looks at what the
other has done.

A workload that runs is to have the Deployment of its generation, with the result in its status
(`RunningLive`).  Two steps can break this.  A forced apply replaces the Deployment of a workload
that runs already, and a status patch sets `Running` for a Deployment that has been replaced since
it was applied.  `KubeOp.Undisturbed` excludes just these two, as a condition on the state in front
of the step: it compares the Deployment that is live with the one that is applied, or that this
reconcile has applied before.  It does not mention the status the step leaves.  Reconciles of any
versions may overlap otherwise, and the writes of both may fail.

The invariant is watched along the calls that are justified (`Watch`), so no part of `reconcile` is
looked at again here; what is new is one lemma about the patches and one about the applies.

* `running_live` — as long as no reconcile writes `Running` over the Deployment of another one, and
  none applies another Deployment where the status says `Running`, a workload that runs has the
  Deployment of its generation and of the result in its status.
* `running_overwritten` — a reconcile of an earlier generation can apply its Deployment between the
  other's apply and the other's status, and nothing repairs it: `reconcile` returns early on a
  status that says `Running`.
-/

namespace Niphas

open System

/-! ## What a running workload has -/

/-- The status has the result `r`. -/
def NiphasWorkloadStatus.Records (st : NiphasWorkloadStatus) (r : EvalResult) : Prop :=
  st.storePath = some r.storePath ∧ st.resolvedCommand = some r.resolvedCommand ∧
    st.closurePaths = some r.closurePaths

/-- The status says `Running` for the generation the workload has. -/
def NiphasWorkload.Runs (wl : NiphasWorkload) (st : NiphasWorkloadStatus) : Prop :=
  wl.status = some st ∧ st.phase = .running ∧ st.observedGeneration = some wl.generation

namespace Rollout

/-- If the workload runs, the live Deployment is the one rendered from its spec and the result in
its status. -/
def RunningLive (w : Rollout) : Prop :=
  ∀ st, w.object.Runs st → ∃ r, st.Records r ∧
    w.live = some (buildDeployment w.object r w.object.nameAny w.object.ns)

/-- The status is not ahead of the workload. -/
def Seen (w : Rollout) : Prop :=
  ∀ st g, w.object.status = some st → st.observedGeneration = some g → g ≤ w.object.generation

end Rollout

/-- No reconcile comes in between: `Running` is written for the workload's generation while the live
Deployment is the one that this reconcile has applied, and where the status says `Running` for that
generation, no other Deployment than the live one is applied. -/
def KubeOp.Undisturbed (w : Rollout) (p : ℕ) : KubeOp → Prop
  | .patchStatus _ patch => patch.phase = some .running →
      patch.observedGeneration = some w.object.generation → w.live = w.applied p
  | .apply child => child.kind = .deployment →
      (∃ st, w.object.Runs st) → w.live = some child.manifest
  | _ => True

/-! ## The steps -/

namespace Rollout

variable {w : Rollout} {p : ℕ}

/-- The status that has been patched. -/
lemma runs_patchStatus {wl : NiphasWorkload} {patch : StatusPatch} {st : NiphasWorkloadStatus}
    (h : NiphasWorkload.Runs { wl with status := some (patch.apply (wl.status.getD {})) } st) :
    st = patch.apply (wl.status.getD {}) ∧ (patch.apply (wl.status.getD {})).phase = .running ∧
      (patch.apply (wl.status.getD {})).observedGeneration = some wl.generation := by
  obtain ⟨hst, hphase, hgen⟩ := h
  obtain rfl := Option.some.inj hst
  exact ⟨rfl, hphase, hgen⟩

/-- A patch moves the status no further than to the generation of a version. -/
lemma Seen.patchStatus (hbase : w.Base) (hseen : w.Seen) {patch : StatusPatch}
    (hjust : patch.Justified w p) {g : Int}
    (hg : (patch.apply (w.object.status.getD {})).observedGeneration = some g) :
    g ≤ w.object.generation := by
  cases hjust with
  | phase _ =>
      cases hst : w.object.status with
      | none =>
          rw [hst] at hg
          cases hg
      | some st =>
          rw [hst] at hg
          exact hseen st g hst hg
  | failed hwl =>
      cases hg
      exact hbase.latest _ hwl
  | status hwl _ =>
      cases hg
      exact hbase.latest _ hwl

/-- `Running` is written over the Deployment of the version it is about. -/
lemma RunningLive.patchStatus (hbase : w.Base) {name : String} {patch : StatusPatch}
    (hjust : patch.Justified w p) (hallowed : (KubeOp.patchStatus name patch).Undisturbed w p)
    (hphase : (patch.apply (w.object.status.getD {})).phase = .running)
    (hgen : (patch.apply (w.object.status.getD {})).observedGeneration
      = some w.object.generation) :
    ∃ r, (patch.apply (w.object.status.getD {})).Records r ∧
      w.live = some (buildDeployment w.object r w.object.nameAny w.object.ns) := by
  cases hjust with
  | phase hne => exact absurd hphase hne
  | failed _ => cases hphase
  | @status wl r phase ready now hwl hrunning =>
      obtain rfl : phase = .running := hphase
      obtain ⟨happlied, -, -⟩ := hrunning rfl
      have hwlgen : wl.generation = w.object.generation := Option.some.inj hgen
      have hspec : wl.spec = w.object.spec := hbase.oneSpec wl _ hwl hbase.current hwlgen
      have hlive := (hallowed rfl hgen).trans happlied
      rw [(hbase.same wl hwl).buildDeployment_eq hspec] at hlive
      exact ⟨r, ⟨rfl, rfl, rfl⟩, hlive⟩

/-- The Deployment that has been applied is the live one. -/
lemma live_apply {wl : NiphasWorkload} {r : EvalResult} {child : ChildManifest}
    (hsame : wl.SameObject w.object) (hmem : child ∈ childManifests wl r) :
    (w.children.apply child).get .deployment w.object.nameAny w.object.ns =
      if child.kind = .deployment then some child.manifest else w.live := by
  obtain ⟨rest, hchildren, hrest⟩ := childManifests_cons wl r
  rw [hchildren] at hmem
  rcases List.mem_cons.mp hmem with rfl | hmem
  · rw [if_pos rfl, ← hsame.1, ← hsame.2.1]
    simp [Children.apply, ChildManifest.at]
  · have hne := hrest child hmem
    rw [if_neg hne]
    simp [Children.apply, ChildManifest.at, hne.symm, live]

/-- Status and generation, as they are. -/
structure SameVersion (w w' : Rollout) : Prop where
  status : w'.object.status = w.object.status
  generation : w'.object.generation = w.object.generation
  spec : w'.object.spec = w.object.spec
  object : w'.object.SameObject w.object

lemma SameVersion.of_eq {w' : Rollout} (h : w'.object = w.object) : SameVersion w w' := by
  refine ⟨?_, ?_, ?_, ?_⟩ <;> rw [h]
  exact .refl _

lemma Seen.same {w' : Rollout} (h : w.Seen) (hsame : SameVersion w w') : w'.Seen := by
  intro st g hst hg
  rw [hsame.status] at hst
  rw [hsame.generation]
  exact h st g hst hg

/-- A running workload keeps its Deployment. -/
lemma RunningLive.same {w' : Rollout} (h : w.RunningLive) (hsame : SameVersion w w')
    (hlive : (∃ st, w.object.Runs st) → w'.children.get .deployment w.object.nameAny w.object.ns
      = w.live) : w'.RunningLive := by
  rintro st ⟨hst, hphase, hgen⟩
  have hruns : w.object.Runs st :=
    ⟨hsame.status.symm.trans hst, hphase, hgen.trans (congrArg some hsame.generation)⟩
  obtain ⟨r, hr, hw⟩ := h st hruns
  refine ⟨r, hr, ?_⟩
  rw [live, hsame.object.1, hsame.object.2.1, hlive ⟨st, hruns⟩, hw,
    ← hsame.object.buildDeployment_eq hsame.spec, hsame.object.1, hsame.object.2.1]

/-- What is watched: a running workload has its Deployment, and the status is not ahead. -/
structure Leads (w : Rollout) : Prop where
  seen : w.Seen
  live : w.RunningLive

lemma Leads.op {w' : Rollout} {o : KubeOp} {r : kubeInterface.Answer o} (hbase : w.Base)
    (h : w.Leads) (hjust : o.Justified w p) (hallowed : o.Undisturbed w p)
    (heffect : o.Effect p w r w') : w'.Leads := by
  obtain ⟨cluster, children, hs, hc, -, rfl⟩ := heffect
  cases o with
  | patchStatus name patch =>
      cases hc
      rcases hs with rfl | ⟨-, rfl⟩
      · refine ⟨?_, fun st hruns => ?_⟩
        · rintro st g ⟨⟩ hg
          exact Seen.patchStatus hbase h.seen hjust hg
        · obtain ⟨rfl, hphase, hgen⟩ := runs_patchStatus hruns
          exact RunningLive.patchStatus hbase hjust hallowed hphase hgen
      · exact ⟨h.seen.same (.of_eq rfl), h.live.same (.of_eq rfl) fun _ => rfl⟩
  | patchFinalizers name finalizers =>
      cases hc
      rcases hs with rfl | ⟨-, rfl⟩
      · have hsame : SameVersion w { w with cluster := w.cluster.patchFinalizers finalizers } :=
          ⟨rfl, rfl, rfl, rfl, rfl, rfl⟩
        exact ⟨h.seen.same hsame, h.live.same hsame fun _ => rfl⟩
      · exact ⟨h.seen.same (.of_eq rfl), h.live.same (.of_eq rfl) fun _ => rfl⟩
  | apply child =>
      cases hs
      obtain ⟨wl, r, hwl, hmem⟩ := hjust
      refine ⟨h.seen.same (.of_eq rfl), h.live.same (.of_eq rfl) fun hruns => ?_⟩
      rcases hc with rfl | ⟨-, rfl⟩
      · rw [live_apply (hbase.same wl hwl) hmem]
        split
        next hkind => exact (hallowed hkind hruns).symm
        next => rfl
      · rfl
  | evaluate req =>
      cases hc
      cases hs
      exact ⟨h.seen.same (.of_eq rfl), h.live.same (.of_eq rfl) fun _ => rfl⟩
  | _ =>
      cases hc
      cases hs
      exact ⟨h.seen.same (.of_eq rfl), h.live.same (.of_eq rfl) fun _ => rfl⟩

lemma Leads.env {w' : Rollout} (h : w.Leads) (henv : Env w w') : w'.Leads := by
  cases henv with
  | edit hedit hsame =>
      obtain ⟨obj, rfl, hstatus, ⟨hgen, hspec⟩ | hlt⟩ := hedit
      · have hversion : SameVersion w { w with cluster := w.cluster.store obj } :=
          ⟨hstatus, hgen, hspec, hsame⟩
        exact ⟨h.seen.same hversion, h.live.same hversion fun _ => rfl⟩
      · refine ⟨fun st g hst hg => ?_, ?_⟩
        · exact le_of_lt (lt_of_le_of_lt (h.seen st g (hstatus.symm.trans hst) hg) hlt)
        -- the status names an earlier generation
        · rintro st ⟨hst, -, hgen⟩
          exact absurd (h.seen st _ (hstatus.symm.trans hst) hgen) (not_le_of_gt hlt)
  | _ => exact ⟨h.seen.same (.of_eq rfl), h.live.same (.of_eq rfl) fun _ => rfl⟩

lemma leads_created {wl : NiphasWorkload} (hwl : wl.status = none) : (created wl).Leads := by
  refine ⟨fun st g hst _ => ?_, fun st hruns => ?_⟩
  · rw [created, Cluster.created, hwl] at hst
    cases hst
  · rw [created, Cluster.created, NiphasWorkload.Runs, hwl] at hruns
    cases hruns.1

end Rollout

/-! ## Whole runs -/

/-- Reconciles that are not disturbed. -/
def leaderWatch (timeoutSecs : ℕ) : Watch timeoutSecs where
  inv := Rollout.Leads
  allowed p o _ w := o.Undisturbed w p
  begin_ok _ h := ⟨h.seen, h.live⟩
  op_ok hbase h hjust hallowed heffect := h.op hbase hjust hallowed heffect
  env_ok _ h henv := h.env henv

lemma Rollout.modest_leaderWatch {timeoutSecs p : ℕ} :
    Modest (leaderWatch timeoutSecs).allowed p := by
  intro o r w ho
  cases o with
  | patchStatus name patch => exact fun hphase => absurd hphase ho
  | apply child => exact ho.elim
  | _ => trivial

/-- **A workload that runs has its Deployment**, in every state of every run in which no reconcile
comes between the apply and the status of another one. -/
theorem running_live {timeoutSecs : ℕ} {wl : NiphasWorkload} (hwl : wl.status = none)
    {evs : List (rolloutSystem timeoutSecs).Event} {c : (rolloutSystem timeoutSecs).Config}
    (hrun : Run (rolloutSystem timeoutSecs) (leaderWatch timeoutSecs).Allows
      (Config.idle (Rollout.created wl)) evs c) : c.world.RunningLive :=
  (Watch.run _ (Rollout.base_created wl) (Rollout.leads_created hwl) hrun).2.live

/-- A reconcile that nothing comes between. -/
theorem running_live_hello :
    ∃ evs c, Run (rolloutSystem 300) (leaderWatch 300).Allows
        (Config.idle (Rollout.created helloWorkload)) evs c ∧
      (∃ st, c.world.object.Runs st) ∧ c.world.RunningLive := by
  obtain ⟨evs, hrun⟩ := Rollout.reaches_helloRolled (Rollout.free_allows (leaderWatch 300))
    Rollout.modest_leaderWatch trivial
    (fun child _ _ hruns => by
      obtain ⟨st, ⟨⟩, hphase, -⟩ := hruns
      cases hphase)
    (fun _ _ => Rollout.live_deployed ⟨rfl, rfl, rfl⟩ 0 helloResult)
  exact ⟨evs, _, hrun, ⟨_, rfl, rfl, rfl⟩, running_live rfl hrun⟩

/-! ## Two leaders in each other's way -/

namespace Rollout

/-- The first reconcile is about to apply its Deployment when the workload is changed. -/
def raceEdited : Rollout :=
  let w := ((created helloWorkload).began 0).evaluated helloWorkload helloResult
  { w with cluster := w.cluster.store (recommanded w.object) }

/-- The second reconcile has applied its own, and a pod has been started from it. -/
def raceReady : Rollout :=
  (((raceEdited.began 1).evaluated raceEdited.object helloResult).deployed 1 raceEdited.object
    helloResult).startPod 0
      (podTemplate (buildDeployment raceEdited.object helloResult "hello" "apps"))

/-- The first reconcile applies the Deployment of the first version, and writes its status. -/
def raceOverwritten : Rollout :=
  (((raceReady.counting 1).deployed 0 helloWorkload helloResult).counting 0).patched 0 "hello"
    (statusPatch .running helloResult 1 1 newYear 1)

/-- The second one writes its status. -/
def raceOver : Rollout :=
  raceOverwritten.patched 1 "hello" (statusPatch .running helloResult 1 1 newYear 2)

lemma lone_raceEdited : Lone raceEdited.object helloResult := rfl

/-- It is the Deployment of the first version that is live. -/
lemma live_raceOver :
    raceOver.live = some (buildDeployment helloWorkload helloResult "hello" "apps") := by
  have hsame : helloWorkload.SameObject (raceReady.counting 1).object := ⟨rfl, rfl, rfl⟩
  exact live_deployed hsame 0 helloResult

lemma not_runningLive_raceOver : ¬ raceOver.RunningLive := by
  intro h
  obtain ⟨r, -, hlive⟩ := h _ ⟨rfl, rfl, rfl⟩
  rw [live_raceOver] at hlive
  have hspec : raceOver.object.spec = (recommanded helloWorkload).spec := rfl
  exact podTemplate_recommanded hspec (congrArg podTemplate (Option.some.inj hlive))

lemma pending_raceEdited : Pending raceEdited.object :=
  ⟨rfl, by decide, fun h => absurd h.1 (by decide)⟩

lemma reaches_raceOver :
    ∃ c, Reaches (rolloutSystem 300) (AnyStep _) (Config.idle (created helloWorkload)) c ∧
      c.world = raceOver ∧ ∀ p, c.procs p = none := by
  have hinit : Reaches (rolloutSystem 300) (AnyStep _) (Config.idle (created helloWorkload))
      (Config.idle (created helloWorkload)) := .refl _
  have hP := @free_anyStep 300
  -- the first reconcile, up to its apply
  have h₁ := reaches_start (p := 0) trivial hinit (show _ from rfl) rfl
  have h₂ := reaches_goes (p := 0) hP h₁ rfl
    (goes_toApply modest_anyCall pending_hello rfl helloResult _)
  have h₃ := reaches_edit hP h₂ raceEdited.object rfl (.inr (by decide)) ⟨rfl, rfl, rfl⟩
  -- the second one, up to its status
  have h₄ := reaches_start (p := 1) trivial h₃ (.inr rfl) rfl
  have h₅ := reaches_goes (p := 1) hP h₄ rfl
    (goes_toApply modest_anyCall pending_raceEdited rfl helloResult _)
  have h₆ := reaches_goes (p := 1) hP h₅ rfl
    (goes_toRead modest_anyCall lone_raceEdited fun _ _ => trivial)
  have h₇ := reaches_startPod hP h₆ (fun _ => rfl) 0
    (podTemplate (buildDeployment raceEdited.object helloResult "hello" "apps"))
  have h₈ := reaches_goes (p := 1) hP h₇ rfl (goes_toWrite modest_anyCall helloResult rfl
    (by decide))
  -- the rest of the first one
  have h₉ := reaches_goes (p := 0) hP h₈ rfl
    (goes_toRead modest_anyCall lone_hello fun _ _ => trivial)
  have h₁₀ := reaches_goes (p := 0) hP h₉ rfl (goes_toWrite modest_anyCall helloResult rfl
    (by decide))
  have h₁₁ := reaches_end (p := 0) hP h₁₀ rfl (rolls_write modest_anyCall trivial)
  -- the rest of the second one
  have h₁₂ := reaches_end (p := 1) hP h₁₁ rfl (rolls_write modest_anyCall trivial)
  refine ⟨_, h₁₂, rfl, fun p => ?_⟩
  rcases p with _ | _ | p
  · rfl
  · rfl
  · rfl

end Rollout

/-- **Two leaders are not safe**: when all reconciles have ended, the workload runs by its status,
and the live Deployment is that of an earlier generation. -/
theorem running_overwritten :
    ∃ evs c, Run (rolloutSystem 300) (AnyStep _) (Config.idle (Rollout.created helloWorkload))
        evs c ∧ (∀ p, c.procs p = none) ∧ ¬ c.world.RunningLive := by
  obtain ⟨c, ⟨evs, hrun⟩, hw, hidle⟩ := Rollout.reaches_raceOver
  refine ⟨evs, c, hrun, hidle, ?_⟩
  rw [hw]
  exact Rollout.not_runningLive_raceOver

end Niphas
