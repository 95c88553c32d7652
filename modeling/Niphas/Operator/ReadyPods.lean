import Niphas.Operator.RolloutRuns

/-!
# Ready pods of which template

The Deployment's status counts the ready pods of all templates, and is brought up to date behind the
Deployment.  A reconcile reads it right after it has applied a new template.

The claim that a status makes is about pods, and pods come and go after it has been written.  So it
is judged at the time of the write: the world keeps each patch that has set `Running` together with
the pods there were (`Report`), and the property is that every such report was right.  A pod counts
if it is ready and was made from the template of the Deployment that is rendered for the generation
and the result in the patch.

What the read counts are the pods in `counted`, which the Deployment controller has found ready at
some earlier time, of whatever template.  `KubeOp.CountsNew` is the condition that at the time of
the write these are ready pods of the new template.  That is what the source would have to wait for,
and does not: it looks neither at `observedGeneration` nor at `updatedReplicas` of the Deployment.

* `reports_ready` — `Running` is written over enough ready pods of the new template, as long as the
  pods counted in the read are ready pods of that template.
* `reports_stale` — the pods of the last template are counted as well, so a change is reported
  `Running` before there is a pod of it.
-/

namespace Niphas

open System

/-! ## What `Running` is written over -/

/-- The patch has the result `r`. -/
def StatusPatch.Records (patch : StatusPatch) (r : EvalResult) : Prop :=
  patch.storePath = some r.storePath ∧ patch.resolvedCommand = some r.resolvedCommand ∧
    patch.closurePaths = some r.closurePaths

namespace Rollout

/-- Over at least as many ready pods as were asked for, of the template that is rendered for the
generation the patch names, from the result it has. -/
def ReportOk (w : Rollout) (report : Report) : Prop :=
  ∃ wl r, w.cluster.versions wl ∧ report.patch.observedGeneration = some wl.generation ∧
    report.patch.Records r ∧
      AtLeast report.pods wl.desired (buildDeployment wl r wl.nameAny wl.ns)

/-- `Running` has only been written over enough pods. -/
def ReportsReady (w : Rollout) : Prop := ∀ report ∈ w.reports, w.ReportOk report

end Rollout

/-- The pods counted in the read are ready pods of the Deployment that has been applied. -/
def KubeOp.CountsNew (w : Rollout) (p : ℕ) : KubeOp → Prop
  | .patchStatus _ patch => patch.phase = some .running → ∀ i ∈ w.read p,
      ∃ deployment, w.applied p = some deployment ∧ Rollout.ReadyFor w.pods deployment i
  | _ => True

/-! ## The steps -/

namespace Rollout

variable {w w' : Rollout} {p : ℕ}

lemma ReportOk.mono {report : Report} (h : w.ReportOk report) (hw : w.cluster.Grows w'.cluster) :
    w'.ReportOk report := by
  obtain ⟨wl, r, hwl, hrest⟩ := h
  exact ⟨wl, r, hw.versions wl hwl, hrest⟩

/-- The number that has been read is that of the ready pods of the new template. -/
lemma reportOk_of_justified {name : String} {patch : StatusPatch} (hjust : patch.Justified w p)
    (hallowed : (KubeOp.patchStatus name patch).CountsNew w p)
    (hphase : patch.phase = some .running) : w.ReportOk ⟨patch, w.pods⟩ := by
  cases hjust with
  | phase hne => exact absurd (Option.some.inj hphase) hne
  | failed _ => cases hphase
  | @status wl r phase ready now hwl hrunning =>
      obtain ⟨happlied, hread, hdesired⟩ := hrunning (Option.some.inj hphase)
      refine ⟨wl, r, hwl, rfl, ⟨rfl, rfl, rfl⟩, w.read p, hread ▸ hdesired, fun i hi => ?_⟩
      obtain ⟨deployment, hdeployment, hpod⟩ := hallowed hphase i hi
      obtain rfl := Option.some.inj (happlied.symm.trans hdeployment)
      exact hpod

lemma ReportsReady.op {o : KubeOp} {r : kubeInterface.Answer o} (h : w.ReportsReady)
    (hjust : o.Justified w p) (hallowed : o.CountsNew w p) (heffect : o.Effect p w r w') :
    w'.ReportsReady := by
  obtain ⟨cluster, children, hs, -, -, rfl⟩ := heffect
  have hgrows := (KubeOp.Sem.versions hs).1
  have hold : ∀ report ∈ w.reports, ReportOk { w.note p o with cluster, children } report :=
    fun report hmem => (h report hmem).mono hgrows
  intro report hmem
  cases o with
  | patchStatus name patch =>
      rw [note] at hmem
      split at hmem
      next hphase =>
        rcases List.mem_append.mp hmem with hmem | hmem
        · exact hold report hmem
        · obtain rfl := List.mem_singleton.mp hmem
          exact (reportOk_of_justified hjust hallowed hphase).mono hgrows
      next => exact hold report hmem
  | apply child =>
      rw [note] at hmem
      split at hmem
      · exact hold report hmem
      · exact hold report hmem
  | _ => exact hold report hmem

lemma ReportsReady.env (hbase : w.Base) (h : w.ReportsReady) (henv : Env w w') :
    w'.ReportsReady := by
  have hgrows := ((hbase.env henv).2 0).grows
  cases henv with
  | _ => exact fun report hmem => (h report hmem).mono hgrows

end Rollout

/-! ## Whole runs -/

/-- Reads that count the new pods. -/
def readyWatch (timeoutSecs : ℕ) : Watch timeoutSecs where
  inv := Rollout.ReportsReady
  allowed p o _ w := o.CountsNew w p
  begin_ok _ h := h
  op_ok _ h hjust hallowed heffect := h.op hjust hallowed heffect
  env_ok hbase h henv := h.env hbase henv

/-- **`Running` means that enough pods of the new template are ready**, in every run in which the
pods counted in the read are ready pods of that template when `Running` is written. -/
theorem reports_ready {timeoutSecs : ℕ} {wl : NiphasWorkload}
    {evs : List (rolloutSystem timeoutSecs).Event} {c : (rolloutSystem timeoutSecs).Config}
    (hrun : Run (rolloutSystem timeoutSecs) (readyWatch timeoutSecs).Allows
      (Config.idle (Rollout.created wl)) evs c) : c.world.ReportsReady :=
  (Watch.run _ (Rollout.base_created wl) (fun _ hmem => by cases hmem) hrun).2

lemma Rollout.modest_readyWatch {timeoutSecs p : ℕ} :
    Modest (readyWatch timeoutSecs).allowed p := by
  intro o r w ho
  cases o with
  | patchStatus name patch => exact fun hphase => absurd hphase ho
  | apply child => exact ho.elim
  | _ => trivial

/-- The first rollout. -/
theorem reports_ready_hello :
    ∃ evs c, Run (rolloutSystem 300) (readyWatch 300).Allows
        (Config.idle (Rollout.created helloWorkload)) evs c ∧
      c.world.reports ≠ [] ∧ c.world.ReportsReady := by
  obtain ⟨evs, hrun⟩ := Rollout.reaches_helloRolled (Rollout.free_allows (readyWatch 300))
    Rollout.modest_readyWatch trivial (fun _ _ => trivial) (fun _ i hi => by
      obtain rfl := Finset.mem_singleton.mp hi
      exact ⟨_, rfl, _, rfl, rfl, rfl⟩)
  exact ⟨evs, _, hrun, List.cons_ne_nil _ _, reports_ready hrun⟩

/-! ## The pods of the last template -/

namespace Rollout

/-- The workload is changed. -/
def helloEdited : Rollout :=
  { helloRolled with cluster := helloRolled.cluster.store (recommanded helloRolled.object) }

/-- The new Deployment has been applied and its status read, before there is a pod of it. -/
def staleCounted : Rollout :=
  (((helloEdited.began 0).evaluated helloEdited.object helloResult).deployed 0 helloEdited.object
    helloResult).counting 0

/-- The status has been written. -/
def staleRolled : Rollout :=
  staleCounted.patched 0 "hello" (statusPatch .running helloResult 1 1 newYear 2)

lemma pending_helloEdited : Pending helloEdited.object :=
  ⟨rfl, by decide, fun h => absurd h.1 (by decide)⟩

lemma lone_helloEdited : Lone helloEdited.object helloResult := rfl

lemma reaches_staleRolled :
    Reaches (rolloutSystem 300) (AnyStep _) (Config.idle (created helloWorkload))
      (Config.idle staleRolled) := by
  have hP := @free_anyStep 300
  have h₀ := reaches_helloRolled hP modest_anyCall trivial (fun _ _ => trivial) trivial
  have h₁ := reaches_edit hP h₀ helloEdited.object rfl (.inr (by decide)) ⟨rfl, rfl, rfl⟩
  have h₂ := reaches_start (p := 0) trivial h₁ (.inr rfl) rfl
  have h₃ := reaches_goes (p := 0) hP h₂ rfl
    (goes_toApply modest_anyCall pending_helloEdited rfl helloResult _)
  have h₄ := reaches_goes (p := 0) hP h₃ rfl
    (goes_toRead modest_anyCall lone_helloEdited fun _ _ => trivial)
  have h₅ := reaches_goes (p := 0) hP h₄ rfl
    (goes_toWrite modest_anyCall helloResult rfl (by decide))
  exact (reaches_end (p := 0) hP h₅ rfl (rolls_write modest_anyCall trivial)).idle fun p => by
    rcases p with _ | p <;> rfl

/-- The only pod is of the last template. -/
lemma template_staleCounted {i : ℕ} {pod : Pod} (hpod : staleCounted.pods i = some pod) :
    pod.template = helloTemplate := by
  have hpods : staleCounted.pods =
      Function.update (fun _ => none) 0 (some { template := helloTemplate, ready := true }) := rfl
  rw [hpods] at hpod
  by_cases hi : i = 0
  · subst hi
    rw [Function.update_self] at hpod
    obtain rfl := Option.some.inj hpod
    rfl
  · rw [Function.update_of_ne hi] at hpod
    cases hpod

end Rollout

/-- **A change is reported `Running` over the pods of the last template.** -/
theorem reports_stale :
    ∃ evs c, Run (rolloutSystem 300) (AnyStep _) (Config.idle (Rollout.created helloWorkload))
        evs c ∧ ¬ c.world.ReportsReady := by
  obtain ⟨evs, hrun⟩ := Rollout.reaches_staleRolled
  refine ⟨evs, _, hrun, fun h => ?_⟩
  have hmem : (⟨statusPatch .running helloResult 1 1 newYear 2, Rollout.staleCounted.pods⟩ : Report)
      ∈ Rollout.staleRolled.reports := List.mem_append_right _ (List.mem_singleton.mpr rfl)
  obtain ⟨wl, r, hwl, hgen, -, ready, hcard, hready⟩ := h _ hmem
  -- generation 2 has one spec
  have hspec : wl.spec = Rollout.staleRolled.object.spec :=
    (Watch.run_base hrun).oneSpec wl _ hwl (.inr rfl) (Option.some.inj hgen).symm
  have hdesired : wl.desired = 1 := by rw [NiphasWorkload.desired, hspec]; rfl
  rw [hdesired] at hcard
  obtain ⟨i, hi⟩ : ready.Nonempty := Finset.card_pos.mp (by omega)
  obtain ⟨pod, hpod, -, htemplate⟩ := hready i hi
  rw [Rollout.template_staleCounted hpod] at htemplate
  exact Rollout.podTemplate_recommanded hspec htemplate

end Niphas
