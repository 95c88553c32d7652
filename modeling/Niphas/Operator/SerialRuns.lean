import Niphas.Operator.Provenance

/-!
# One reconcile at a time

A controller does not reconcile an object twice at a time.  Then what a reconcile has written stays
until it writes again, and what it has applied stays until the next one applies, whatever version it
works from, and although writes fail with or without effect, the operator crashes, and the spec is
edited in between.

Without overlapping, the notes of a reconcile (`ReconcileScript`) are not only true when they are
taken, they stay true: `Told` relates them to the stored object and to the children that are there.
It is an account in the sense of `Account`, so there is one step lemma about the calls
(`Rollout.Told.call`), one about the surroundings (`Rollout.Env.same`), and the runs follow.

As in `Rollout`, only the operator changes or deletes the children.  In particular `running_applied`
does not say that the operator puts back a child that somebody has deleted: it does not, as long as
the status says `Running` for the generation at hand (`running_stale` of `Readiness`).

* `WorkloadPhase.Turns` — how the phase may change, and `phase_machine`: it does so in every step.
* `running_applied` — while the phase is `Running`, the status is that of one version and of a
  result for it, and all children of this version are there, with this result.
* `returned_phase` — what a reconcile returns goes with the phase it leaves behind.
-/

namespace Niphas

open System

/-! ## Phases -/

/-- How the phase may change: to `Failed` from the two phases in which something can fail, and to
`Running` behind the provisioning.  Nothing leads back to `Pending`. -/
inductive WorkloadPhase.Turns : WorkloadPhase → WorkloadPhase → Prop
  | stays {phase : WorkloadPhase} : Turns phase phase
  | evaluates {phase : WorkloadPhase} : Turns phase .evaluating
  | provisions {phase : WorkloadPhase} : Turns phase .provisioning
  | fails {phase : WorkloadPhase} : phase = .evaluating ∨ phase = .provisioning →
      Turns phase .failed
  | runs : Turns .provisioning .running

/-- The status says that the version `wl` runs with the result `r`. -/
structure NiphasWorkloadStatus.Reports (st : NiphasWorkloadStatus) (wl : NiphasWorkload)
    (r : EvalResult) : Prop where
  observedGeneration : st.observedGeneration = some wl.generation
  storePath : st.storePath = some r.storePath
  resolvedCommand : st.resolvedCommand = some r.resolvedCommand
  closurePaths : st.closurePaths = some r.closurePaths
  readyReplicas : ∃ ready, st.readyReplicas = some ready ∧ wl.desired ≤ ready

/-! ## The children of one version

The phase and the children are written by different calls, so an invariant about both has to hold in
between, too.  While a reconcile applies its children the phase is `Provisioning`, and nothing is
said about the children but that those applied so far are there.
-/

/-- There is at most one child of a kind. -/
lemma nodup_kinds (wl : NiphasWorkload) (r : EvalResult) :
    ((childManifests wl r).map ChildManifest.kind).Nodup := by
  have hkind : ∀ kind, ((renderedManifest wl r kind).toList.map ChildManifest.kind).Sublist
      [kind] := by
    intro kind
    rw [renderedManifest]
    cases rendered wl r kind with
    | none => exact List.nil_sublist _
    | some manifest => exact List.Sublist.refl _
  have hall := (((hkind .deployment).append (hkind .service)).append (hkind .ingress)).append
    (hkind .podDisruptionBudget)
  rw [childManifests_eq, List.map_append, List.map_append, List.map_append]
  exact hall.nodup (by decide)

/-- What is rendered of a kind is a child of the workload. -/
lemma mem_of_rendered {wl : NiphasWorkload} {r : EvalResult} {kind : ChildKind} {manifest : Json}
    (h : rendered wl r kind = some manifest) :
    { kind, name := childName wl.nameAny kind, ns := wl.ns, manifest } ∈ childManifests wl r := by
  have hmem : { kind, name := childName wl.nameAny kind, ns := wl.ns, manifest } ∈
      (renderedManifest wl r kind).toList := by
    rw [renderedManifest, h]
    exact List.mem_singleton.mpr rfl
  rw [childManifests_eq]
  simp only [List.mem_append]
  cases kind with
  | deployment => exact .inl (.inl (.inl hmem))
  | service => exact .inl (.inl (.inr hmem))
  | ingress => exact .inl (.inr hmem)
  | podDisruptionBudget => exact .inr hmem

namespace Children

variable {w : Children} {child : ChildManifest}

lemma get_apply_self (w : Children) (child : ChildManifest) :
    (w.apply child).get child.kind child.name child.ns = some child.manifest := by
  simp [apply, ChildManifest.at]

lemma get_apply_of_ne {kind : ChildKind} (h : kind ≠ child.kind) (name ns : String) :
    (w.apply child).get kind name ns = w.get kind name ns := by
  simp [apply, ChildManifest.at, h]

end Children

namespace Rollout

/-- The phase in the status. -/
def phase (w : Rollout) : WorkloadPhase := (w.object.status.getD {}).phase

/-- These children are there. -/
def Live (w : Rollout) (children : List ChildManifest) : Prop :=
  ∀ child ∈ children, w.children.get child.kind child.name child.ns = some child.manifest

/-- While the phase is `Running`, the status is that of a version, and all its children are
there. -/
def RunningApplied (w : Rollout) : Prop :=
  w.phase = .running → ∃ wl r, w.cluster.versions wl ∧
    (w.object.status.getD {}).Reports wl r ∧ w.Live (childManifests wl r)

/-- What the notes of a reconcile tell while no other one is under way. -/
structure Told (w : Rollout) (wl : NiphasWorkload) (s : Script) : Prop where
  version : w.cluster.versions wl
  phase : ∀ phase, s.phase = some phase → w.phase = phase
  applied : w.Live s.applied

variable {w w' : Rollout} {wl : NiphasWorkload} {s : Script}

/-! ## The calls -/

/-- An apply leaves alone what has been applied before. -/
lemma Live.apply {child : ChildManifest} {applied rest : List ChildManifest} {r : EvalResult}
    (hall : childManifests wl r = applied ++ child :: rest) {children : Children}
    (hw : ∀ c ∈ applied, children.get c.kind c.name c.ns = some c.manifest) :
    ∀ c ∈ applied, (children.apply child).get c.kind c.name c.ns = some c.manifest := by
  intro c hc
  have hnodup := nodup_kinds wl r
  rw [hall, List.map_append, List.map_cons] at hnodup
  have hne : c.kind ≠ child.kind := fun heq =>
    (List.nodup_append.mp hnodup).2.2 c.kind (List.mem_map_of_mem hc) child.kind
      List.mem_cons_self heq
  rw [Children.get_apply_of_ne hne]
  exact hw c hc

/-- How a patch of the script turns the phase. -/
lemma Told.turns (h : w.Told wl s) {name : String} {patch : StatusPatch}
    (hnext : Script.Next wl s (.patchStatus name patch)) :
    w.phase.Turns (patch.phase.getD w.phase) := by
  cases hnext with
  | evaluating => exact .evaluates
  | provisioning => exact .provisions
  | failed hphase => exact .fails (hphase.imp (h.phase _) (h.phase _))
  | @status r ready now hr hphase happlied =>
      rw [h.phase _ hphase]
      change WorkloadPhase.Turns .provisioning (reportedPhase wl ready)
      rw [reportedPhase]
      split
      · exact .runs
      · exact .provisions

/-- What it leaves. -/
lemma Told.runningApplied (h : w.Told wl s) {name : String} {patch : StatusPatch}
    (hnext : Script.Next wl s (.patchStatus name patch)) {w' : Rollout}
    (hcluster : w'.cluster = w.cluster.patchStatus patch) (hchildren : w'.children = w.children) :
    w'.RunningApplied := by
  have hobject : w'.object.status = some (patch.apply (w.object.status.getD {})) := by
    rw [object, hcluster]
    rfl
  intro hrunning
  rw [Rollout.phase, hobject] at hrunning
  cases hnext with
  | evaluating | provisioning | failed => cases hrunning
  | @status r ready now hr hphase happlied =>
      have hready : wl.desired ≤ ready := by
        by_contra hnot
        have hprovisioning : reportedPhase wl ready = .provisioning := if_neg hnot
        cases hprovisioning.symm.trans hrunning
      refine ⟨wl, r, ?_, ?_, ?_⟩
      · rw [hcluster]
        exact (w.cluster.grows_store _).versions wl h.version
      · rw [hobject]
        exact ⟨rfl, rfl, rfl, rfl, ready, rfl, hready⟩
      · rw [← happlied, Live, hchildren]
        exact h.applied

/-- What is told stays so where the status and the children do. -/
lemma Told.mono (h : w.Told wl s) (hgrows : w.cluster.Grows w'.cluster)
    (hstatus : w'.object.status = w.object.status) (hchildren : w'.children = w.children) :
    w'.Told wl s := by
  refine ⟨hgrows.versions wl h.version, fun phase hphase => ?_, ?_⟩
  · rw [Rollout.phase, hstatus]
    exact h.phase phase hphase
  · rw [Live, hchildren]
    exact h.applied

lemma RunningApplied.mono (h : w.RunningApplied) (hgrows : w.cluster.Grows w'.cluster)
    (hstatus : w'.object.status = w.object.status) (hchildren : w'.children = w.children) :
    w'.RunningApplied := by
  intro hrunning
  rw [phase, hstatus] at hrunning
  obtain ⟨wl, r, hwl, hreports, hlive⟩ := h hrunning
  refine ⟨wl, r, hgrows.versions wl hwl, ?_, ?_⟩
  · rwa [hstatus]
  · rwa [Live, hchildren]

/-- **Step lemma.** -/
lemma Told.call (h : w.Told wl s) {p : ℕ} {o : KubeOp} (hnext : Script.Next wl s o)
    {r : kubeInterface.Answer o} (heffect : o.Effect p w r w') :
    w'.Told wl (s.note o r) ∧ w.phase.Turns w'.phase ∧
      (w.RunningApplied → w'.RunningApplied) := by
  obtain ⟨cluster, children, hs, hc, -, rfl⟩ := heffect
  have hgrows := (KubeOp.Sem.versions hs).1
  cases o with
  | patchStatus name patch =>
      obtain rfl : children = w.children := hc
      rcases hs with rfl | ⟨⟨e, rfl⟩, rfl⟩
      · refine ⟨?_, h.turns hnext, fun _ => h.runningApplied hnext rfl rfl⟩
        refine ⟨hgrows.versions wl ?_, fun phase hphase => ?_, ?_⟩
        · rcases r with e | ⟨⟩
          · exact h.version
          · exact h.version
        · rcases r with e | ⟨⟩
          · cases hphase
          · have hpatch : patch.phase = some phase := hphase
            change patch.phase.getD w.phase = phase
            rw [hpatch, Option.getD_some]
        · rcases r with e | ⟨⟩
          · exact h.applied
          · exact h.applied
      · exact ⟨⟨h.version, nofun, h.applied⟩, .stays, fun hw => hw.mono (.refl _) rfl rfl⟩
  | apply child =>
      obtain rfl : cluster = w.cluster := hs
      cases hnext with
      | @apply result _ rest hr hphase hall =>
          have hidle : w.phase ≠ .running := by
            rw [h.phase _ hphase]
            exact nofun
          refine ⟨⟨?_, ?_, ?_⟩, .stays, fun _ hrunning => absurd hrunning hidle⟩
          · rcases r with e | ⟨⟩
            · exact h.version
            · exact h.version
          · rcases r with e | ⟨⟩
            · exact h.phase
            · exact h.phase
          · have hold : ∀ c ∈ s.applied, children.get c.kind c.name c.ns = some c.manifest := by
              rcases hc with rfl | ⟨-, rfl⟩
              · exact Live.apply hall h.applied
              · exact h.applied
            rcases r with e | ⟨⟩
            · exact hold
            · rcases hc with rfl | ⟨⟨_, he⟩, -⟩
              · intro c hmem
                rcases List.mem_append.mp hmem with hmem | hmem
                · exact hold c hmem
                · obtain rfl := List.mem_singleton.mp hmem
                  exact Children.get_apply_self _ _
              · cases he
  | evaluate req =>
      obtain rfl : children = w.children := hc
      cases hs
      refine ⟨?_, .stays, fun hw => hw.mono hgrows rfl rfl⟩
      have htold : Told { w.note p (.evaluate req) with
          cluster := w.cluster.record req r, children := w.children } wl s :=
        h.mono hgrows rfl rfl
      rcases r with ⟨_, _⟩ | (_ | r) | ⟨_, _, _⟩
      · exact htold
      · exact htold
      · exact ⟨htold.version, htold.phase, htold.applied⟩
      · exact htold
  | patchFinalizers name finalizers =>
      obtain rfl : children = w.children := hc
      have hstatus : cluster.object.status = w.object.status := by
        rcases hs with rfl | ⟨-, rfl⟩
        · rfl
        · rfl
      refine ⟨h.mono hgrows hstatus rfl, ?_, fun hw => hw.mono hgrows hstatus rfl⟩
      change w.phase.Turns (cluster.object.status.getD {}).phase
      rw [hstatus]
      exact .stays
  | _ =>
      obtain rfl : children = w.children := hc
      cases hs
      exact ⟨h.mono hgrows rfl rfl, .stays, fun hw => hw.mono hgrows rfl rfl⟩

/-- The surroundings leave the status and the children alone. -/
lemma Env.same (h : Env w w') : w.cluster.Grows w'.cluster ∧
    w'.object.status = w.object.status ∧ w'.children = w.children := by
  cases h with
  | edit hedit _ =>
      obtain ⟨obj, rfl, hstatus, -⟩ := hedit
      exact ⟨w.cluster.grows_store obj, hstatus, rfl⟩
  | _ => exact ⟨.refl _, rfl, rfl⟩

/-! ## Whole runs

Only configurations with one call under way are looked at, so there is no other reconcile whose
knowledge would have to be spared.
-/

/-- What is shown of the reconciles of runs in which they do not overlap. -/
def serialTerms (timeoutSecs : ℕ) : Monitor.Terms (rolloutSystem timeoutSecs) scriptMonitor where
  ok := Script.Next
  post := Script.Ends
  config := Config.Single
  step := Serial (rolloutSystem timeoutSecs)

/-- The account of what a reconcile leaves. -/
def serialAccount (timeoutSecs : ℕ) :
    Monitor.Account (S := rolloutSystem timeoutSecs) scriptMonitor (serialTerms timeoutSecs) where
  inv _ := True
  knows w _ wl s := w.Told wl s
  start {c p call w'} _ hserial _ _ hbegin := by
    obtain ⟨hwl, rfl⟩ := hbegin
    refine ⟨trivial, ⟨hwl, nofun, nofun⟩, fun q proc _ _ hq => ?_⟩
    rw [hserial q] at hq
    cases hq
  op hsingle _ hp _ htold hnext heffect :=
    ⟨trivial, (htold.call hnext heffect).1, hsingle.spares hp _⟩
  env _ henv := by
    obtain ⟨hgrows, hstatus, hchildren⟩ := henv.same
    exact ⟨trivial, fun _ _ _ h => h.mono hgrows hstatus hchildren⟩
  crash _ _ := trivial

variable {timeoutSecs : ℕ} {evs : List (rolloutSystem timeoutSecs).Event}
  {c c' : (rolloutSystem timeoutSecs).Config}

/-- In every such run, the notes of a reconcile tell what is there. -/
lemma told_run
    (hrun : Run (rolloutSystem timeoutSecs) (Serial _) (Config.idle (created wl)) evs c) :
    (serialAccount timeoutSecs).Holds c :=
  (serialAccount timeoutSecs).run (fun hsingle hev hs => hsingle.step hev hs)
    (follows_reconcile timeoutSecs) (Config.single_idle _) trivial hrun

/-- A step of a run. -/
lemma serial_step (hholds : (serialAccount timeoutSecs).Holds c)
    {ev : (rolloutSystem timeoutSecs).Event} (hs : Step (rolloutSystem timeoutSecs) c ev c') :
    c.world.phase.Turns c'.world.phase ∧
      (c.world.RunningApplied → c'.world.RunningApplied) := by
  cases hs with
  | @start p call w _ hbegin =>
      obtain ⟨-, rfl⟩ := hbegin
      exact ⟨.stays, fun h => h⟩
  | @op p call o k r w hp heffect =>
      obtain ⟨s, hnext, htold⟩ := hholds.ok hp
      exact (htold.call hnext heffect).2
  | ret _ => exact ⟨.stays, fun h => h⟩
  | env henv =>
      obtain ⟨hgrows, hstatus, hchildren⟩ := henv.same
      have hphase := congrArg (fun st => (Option.getD st {}).phase) hstatus
      refine ⟨?_, fun h => h.mono hgrows hstatus hchildren⟩
      rw [← show _ = c.world.phase from hphase]
      exact .stays
  | crash hcrash =>
      cases hcrash
      exact ⟨.stays, fun h => h⟩

/-- **The phases of a workload**: every step of every run leaves the phase, or turns it as the
reconciles may. -/
theorem phase_machine
    (hrun : Run (rolloutSystem timeoutSecs) (Serial _) (Config.idle (created wl)) evs c)
    {ev : (rolloutSystem timeoutSecs).Event} (hs : Step (rolloutSystem timeoutSecs) c ev c') :
    c.world.phase.Turns c'.world.phase := (serial_step (told_run hrun) hs).1

/-- While it runs, it has its children. -/
lemma runningApplied_run (hwl : (wl.status.getD {}).phase ≠ .running)
    (hrun : Run (rolloutSystem timeoutSecs) (Serial _) (Config.idle (created wl)) evs c) :
    c.world.RunningApplied := by
  induction hrun with
  | nil => exact fun h => absurd h hwl
  | snoc hrun _ hs ih => exact (serial_step (told_run hrun) hs).2 ih

/-- **A workload that runs has all its children**: in every state of every such run with the phase
`Running`, the status is that of one version with a result for it and enough ready replicas, and
everything rendered from this version with this result is there.  In these runs nobody but the
operator changes or deletes a child (`Rollout.Env`). -/
theorem running_applied (hwl : (wl.status.getD {}).phase ≠ .running)
    (hrun : Run (rolloutSystem timeoutSecs) (Serial _) (Config.idle (created wl)) evs c)
    (hrunning : c.world.phase = .running) :
    ∃ rolled r, c.world.cluster.versions rolled ∧
      (c.world.object.status.getD {}).Reports rolled r ∧
      ∀ kind manifest, rendered rolled r kind = some manifest →
        c.world.children.get kind (childName rolled.nameAny kind) rolled.ns = some manifest := by
  obtain ⟨rolled, r, hrolled, hreports, hlive⟩ := runningApplied_run hwl hrun hrunning
  refine ⟨rolled, r, hrolled, hreports, fun kind manifest hrendered => ?_⟩
  exact hlive _ (mem_of_rendered hrendered)

/-- The phase a reconcile of `wl` that has returned an action leaves. -/
inductive Leaves (wl : NiphasWorkload) : Action → WorkloadPhase → Prop
  | deleted {phase : WorkloadPhase} : wl.metadata.deletionTimestamp.isSome →
      Leaves wl .awaitChange phase
  | bare {phase : WorkloadPhase} : wl.metadata.deletionTimestamp = none → wl.hasFinalizer = false →
      Leaves wl (.requeue 0) phase
  | settled {phase : WorkloadPhase} : wl.generation ≤ wl.observed →
      wl.status.map (·.phase) = some .running → Leaves wl (.requeue 300) phase
  | unevaluated : Pending wl → Leaves wl (.requeue 30) .failed
  | unprovisioned : Pending wl → Leaves wl (.requeue 10) .failed
  | provisioning : Pending wl → Leaves wl (.requeue 5) .provisioning
  | running : Pending wl → Leaves wl (.requeue 300) .running

/-- **What is returned goes with the phase**: a reconcile that has written a status comes back after
a while that depends on the phase; otherwise the version it works from has said that there is
nothing to do.  An error is one of the API server, or a panic over the version's own store path. -/
theorem returned_phase
    (hrun : Run (rolloutSystem timeoutSecs) (Serial _) (Config.idle (created wl)) evs c) {p : ℕ}
    {version : NiphasWorkload} {out : Except OperatorFault Action}
    (hp : c.procs p = some { call := version, rest := .pure out }) :
    (∀ action, out = .ok action → Leaves version action c.world.phase) ∧
      (∀ e, out = .error (.err e) → errorPolicy e = .requeue 10) ∧
      (out = .error .panic → ∃ f, EvalResult.fromStatus (version.status.getD {}) = .error f) := by
  obtain ⟨s, hends, htold⟩ := (told_run hrun).post hp
  refine ⟨?_, ?_, ?_⟩
  · rintro action rfl
    cases hends with
    | deleted hdeleted _ => exact .deleted hdeleted
    | bare hlive hbare _ => exact .bare hlive hbare
    | settled _ hobserved hphase _ => exact .settled hobserved hphase
    | unevaluated h hphase => exact htold.phase _ hphase ▸ .unevaluated h
    | unprovisioned h hphase => exact htold.phase _ hphase ▸ .unprovisioned h
    | running h hphase => exact htold.phase _ hphase ▸ .running h
    | provisioning h hphase => exact htold.phase _ hphase ▸ .provisioning h
  · rintro e rfl
    cases hends with
    | kube => rfl
  · rintro rfl
    cases hends with
    | @panic _ f hpanic => exact ⟨f, hpanic⟩

/-! ## A workload with one replica -/

/-- Its pod is ready: the write that sets `Running`. -/
theorem phase_machine_hello :
    ∃ evs c c' ev, Run (rolloutSystem 300) (Serial (rolloutSystem 300))
        (Config.idle (created helloWorkload)) evs c ∧ Step (rolloutSystem 300) c ev c' ∧
      c.world.phase = .provisioning ∧ c'.world.phase = .running ∧
      c.world.phase.Turns c'.world.phase := by
  let patch := statusPatch .running helloResult 1 1 newYear 1
  let rest : OperatorM Action := do
    OperatorM.ofKube (← OperatorM.op (.patchStatus "hello" patch))
    return .requeue 300
  let c : (rolloutSystem 300).Config :=
    (Config.idle helloCounted).set 0 (some { call := helloWorkload, rest := rest.run })
  have hclock : Goes (rolloutSystem 300) (AnyCall 300) 0
      (writeStatus helloWorkload helloResult .running 1 (.requeue 300)).run helloCounted rest.run
      helloCounted :=
    .call (r := newYear) ⟨_, _, rfl, rfl, trivial, rfl⟩ trivial .refl
  have hreaches : Reaches (rolloutSystem 300) (Serial (rolloutSystem 300))
      (Config.idle (created helloWorkload)) c := by
    refine ((reaches_helloCounted free_serial modest_anyCall (fun _ => rfl)
      fun _ _ => trivial).goes hclock (Config.set_self _ _ _) fun _ _ _ _ _ => trivial).lone ?_
    intro q hq
    exact (Config.set_of_ne _ _ hq).trans (Config.set_of_ne _ _ hq)
  obtain ⟨evs, hrun⟩ := hreaches
  have hwrite : KubeOp.Effect 0 (.patchStatus "hello" patch) c.world (.ok ()) helloRolled :=
    ⟨_, _, .inl rfl, rfl, trivial, rfl⟩
  have hstep := Step.op (S := rolloutSystem 300) (c := c) (p := 0) rfl hwrite
  exact ⟨evs, c, _, _, hrun, hstep, rfl, rfl, phase_machine hrun hstep⟩

/-- It runs. -/
theorem running_applied_hello :
    ∃ evs c, Run (rolloutSystem 300) (Serial (rolloutSystem 300))
        (Config.idle (created helloWorkload)) evs c ∧ c.world.phase = .running ∧
      ∃ rolled r, c.world.cluster.versions rolled ∧
        (c.world.object.status.getD {}).Reports rolled r ∧
        ∀ kind manifest, rendered rolled r kind = some manifest →
          c.world.children.get kind (childName rolled.nameAny kind) rolled.ns = some manifest := by
  obtain ⟨evs, hrun⟩ := reaches_helloReturns free_serial modest_anyCall (fun _ => rfl)
    (fun _ _ => trivial) trivial
  exact ⟨evs, _, hrun, rfl, running_applied (by decide) hrun rfl⟩

/-- It will be looked at again after five minutes. -/
theorem returned_phase_hello :
    ∃ evs c, Run (rolloutSystem 300) (Serial (rolloutSystem 300))
        (Config.idle (created helloWorkload)) evs c ∧
      c.procs 0 = some { call := helloWorkload, rest := .pure (.ok (.requeue 300)) } ∧
      Leaves helloWorkload (.requeue 300) c.world.phase := by
  obtain ⟨evs, hrun⟩ := reaches_helloReturns free_serial modest_anyCall (fun _ => rfl)
    (fun _ _ => trivial) trivial
  exact ⟨evs, _, hrun, Config.set_self _ _ _,
    (returned_phase hrun (Config.set_self _ _ _)).1 _ rfl⟩

end Rollout

end Niphas
