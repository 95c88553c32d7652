import Niphas.Operator.CachedEval
import Niphas.Operator.Readiness

/-!
# Whether the status settles

A reconcile that has nothing new to say writes the whole status again, each condition with the time
of the write.  The operator watches what it writes.

There are two ways to say that nothing new is written.  One looks at two updates: the second, of the
same generation and with the same readiness, leaves the status as the first one did.  The other
looks at one step: `lastTransitionTime` moves only where the status of the condition does, as the
conventions of Kubernetes have it.  `reconcile_idempotent` settles both, each with the exact
condition: the clock has to stand.  In the first there is one more condition, which has nothing to
do with time.  The second update works from a result that is read back from the status, and not all
of the command comes back (`CachedEval`).

A time is the text the clock shows.  Nothing is assumed about its format, or about its order.

* `reported_status` — what the status is after an update.
* `reported_again` — a second update of the same generation that reads the same readiness leaves the
  same status just when the clock shows the same time, and the program of the command has no `/`.
* `timesKept_iff` — a write leaves the times of the conditions whose status stays just when they are
  what the clock has shown.
* `reconcile_idempotent` — the two together.
* `reconcile_restamps` — five seconds later, the status is another one.
-/

namespace Niphas

open System

/-! ## A second update -/

variable {timeoutSecs : ℕ} {overlap : Prop}

/-- Reconcile `p` of the version `wl` has come to its end, and has written the status by
`update_status`, with the result `r` and the time `now`. -/
structure Reported (c : (readinessSystem timeoutSecs overlap).Config) (p : ℕ) (wl : NiphasWorkload)
    (r : EvalResult) (now : String) : Prop where
  ended : ∃ action, c.procs p = some { call := wl, rest := .pure (.ok action) }
  updated : ∃ phase ready desired generation, (c.world.notes p).patch =
    some (statusPatch phase r ready desired now generation)

/-- What a patch of `update_status` tells of its arguments. -/
lemma statusPatch_inj {phase phase' : WorkloadPhase} {r r' : EvalResult}
    {ready ready' desired desired' generation generation' : Int} {now now' : String}
    (h : statusPatch phase r ready desired now generation =
      statusPatch phase' r' ready' desired' now' generation') :
    r.storePath = r'.storePath ∧ r.resolvedCommand = r'.resolvedCommand ∧
      r.closurePaths = r'.closurePaths ∧ now = now' := by
  simp only [statusPatch, StatusPatch.mk.injEq, Option.some.injEq] at h
  obtain ⟨-, -, hpath, hcommand, hclosure, -, hconditions⟩ := h
  have htime := congrArg (fun cs => (List.head? cs).map NiphasCondition.lastTransitionTime)
    hconditions
  exact ⟨hpath, hcommand, hclosure, Option.some.inj htime⟩

/-- The status a reconcile leaves that has brought it up to date. -/
lemma reported_status {P : (readinessSystem timeoutSecs False).Config →
      (readinessSystem timeoutSecs False).Event → Prop} {w : Readiness}
    {evs : List (readinessSystem timeoutSecs False).Event}
    {c : (readinessSystem timeoutSecs False).Config}
    (hrun : Run (readinessSystem timeoutSecs False) P (Config.idle w) evs c) {p : ℕ}
    {wl : NiphasWorkload} {r : EvalResult} {now : String} (h : Reported c p wl r now) :
    ∃ r' deployment, (c.world.notes p).deployment = some deployment ∧ Uses wl r' ∧
      r.storePath = r'.storePath ∧ r.resolvedCommand = r'.resolvedCommand ∧
      c.world.object.status =
        some ((statusPatch (reportedPhase wl (Watch.readyReplicas deployment)) r'
          (Watch.readyReplicas deployment) wl.desired now wl.generation).apply {}) := by
  obtain ⟨⟨action, hp⟩, phase, ready, desired, generation, hpatch⟩ := h
  have hout : Outcome wl (.ok action) (c.world.notes p) := outcome_of_run hrun p _ hp
  obtain ⟨prior, hstatus⟩ := (takes_of_run hrun).last p _ hp _ hpatch
  rcases hout action rfl with ⟨-, hnone⟩ | ⟨-, patch, hpatch', hwritten⟩
  · cases hnone.symm.trans hpatch
  obtain rfl := Option.some.inj (hpatch.symm.trans hpatch')
  rcases hwritten with ⟨reason, message, t, hfailed⟩ | ⟨r', deployment, t, hread, -, huses, heq⟩
  · cases congrArg StatusPatch.storePath hfailed
  · obtain ⟨hpath, hcommand, -, rfl⟩ := statusPatch_inj heq
    rw [heq] at hstatus
    exact ⟨r', deployment, hread, huses, hpath, hcommand, hstatus⟩

/-- What is read back of the command is its last piece. -/
lemma resolvedCommand_of_fromStatus {st : NiphasWorkloadStatus} {r cached : EvalResult}
    (hpath : st.storePath = some r.storePath)
    (hcommand : st.resolvedCommand = some r.resolvedCommand)
    (h : EvalResult.fromStatus st = .ok (some cached)) :
    cached.resolvedCommand = r.resolvedCommand ↔ '/' ∉ r.program.toList := by
  have hcached : cached.storePath = r.storePath ∧ cached.program = lastPiece r.program := by
    rw [EvalResult.fromStatus, hpath, hcommand] at h
    simp only [Option.map_some, r.resolvedCommand_eq, lastPiece_append] at h
    split at h
    · cases h
      exact ⟨rfl, rfl⟩
    · cases h
      exact ⟨rfl, rfl⟩
    · cases h
  rw [EvalResult.resolvedCommand_inj hcached.1, hcached.2, lastPiece_eq_self_iff]

/-- A status that is written again from what is read back is the same one just when the time and the
command are. -/
lemma apply_statusPatch_eq_iff {phase : WorkloadPhase} {r cached : EvalResult}
    {ready desired generation : Int} {now now' : String} (hpath : cached.storePath = r.storePath)
    (hclosure : cached.closurePaths = r.closurePaths) :
    (statusPatch phase cached ready desired now' generation).apply {} =
        (statusPatch phase r ready desired now generation).apply {} ↔
      now' = now ∧ cached.resolvedCommand = r.resolvedCommand := by
  constructor
  · intro h
    have hcommand := congrArg NiphasWorkloadStatus.resolvedCommand h
    have htime := congrArg (fun st => st.conditions.bind fun cs =>
      (List.head? cs).map NiphasCondition.lastTransitionTime) h
    exact ⟨Option.some.inj htime, Option.some.inj hcommand⟩
  · rintro ⟨rfl, hcommand⟩
    simp only [statusPatch, statusConditions, hpath, hclosure, hcommand]

/-- **A second update** of the generation, by a reconcile that is given the status of the first and
reads the same readiness. -/
lemma reported_again {w : Readiness} {evs evs' : List (readinessSystem timeoutSecs False).Event}
    {c c' : (readinessSystem timeoutSecs False).Config} {p q : ℕ} {wl wl' : NiphasWorkload}
    {r r' : EvalResult} {now now' : String}
    (hrun : Run (readinessSystem timeoutSecs False) (AnyStep _) (Config.idle w) evs c)
    (hfirst : Reported c p wl r now)
    (hrun' : Run (readinessSystem timeoutSecs False) (AnyStep _) c evs' c')
    (hsecond : Reported c' q wl' r' now')
    (hstatus : wl'.status = c.world.object.status) (hgeneration : wl'.generation = wl.generation)
    (hspec : wl'.spec = wl.spec)
    (hready : (c'.world.notes q).deployment = (c.world.notes p).deployment) :
    c'.world.object.status = c.world.object.status ↔ now' = now ∧ '/' ∉ r.program.toList := by
  obtain ⟨r₁, d, hread, -, hpath, hcommand, hst⟩ := reported_status hrun hfirst
  obtain ⟨cached, d', hread', huses, -, -, hst'⟩ := reported_status (hrun.append hrun') hsecond
  obtain rfl : d' = d := Option.some.inj (hread'.symm.trans (hready.trans hread))
  have hdesired : wl'.desired = wl.desired := by rw [NiphasWorkload.desired, hspec]; rfl
  have hphase : ∀ ready, reportedPhase wl' ready = reportedPhase wl ready := fun ready => by
    rw [reportedPhase, hdesired]
    rfl
  rw [hphase, hdesired, hgeneration] at hst'
  -- the second one does not evaluate
  have hneeds : needsEval wl' wl'.observed wl'.generation = false := by
    rw [needsEval, NiphasWorkload.observed, hstatus, hst, hgeneration]
    exact if_neg (lt_irrefl _)
  have hcached := huses hneeds
  rw [hstatus, hst, Option.getD_some] at hcached
  have hprogram : r.program = r₁.program :=
    (EvalResult.resolvedCommand_inj hpath).mp hcommand
  rcases hcached with hcached | hnone
  · obtain ⟨hpath', hclosure'⟩ := EvalResult.fromStatus_eq_some hcached
    rw [hst, hst', Option.some.injEq,
      apply_statusPatch_eq_iff (Option.some.inj hpath').symm hclosure',
      resolvedCommand_of_fromStatus rfl rfl hcached, hprogram]
  · unfold EvalResult.fromStatus at hnone
    split at hnone
    next h => cases h
    next => split at hnone <;> cases hnone

/-! ## Times of transition -/

/-- The condition of a type in a list. -/
def conditionOf (conditions : Option (List NiphasCondition)) (type : String) :
    Option NiphasCondition :=
  (conditions.getD []).find? fun condition => condition.type = type

/-- The condition of a type in the status. -/
def NiphasWorkload.condition (wl : NiphasWorkload) (type : String) : Option NiphasCondition :=
  conditionOf (wl.status.bind (·.conditions)) type

/-- From one version to the other, a condition's time changes only where its status does. -/
def TimesKept (wl wl' : NiphasWorkload) : Prop :=
  ∀ type a b, wl.condition type = some a → wl'.condition type = some b → a.status = b.status →
    b.lastTransitionTime = a.lastTransitionTime

/-- The status patch an operation sends. -/
def KubeOp.statusPatch? : KubeOp → Option StatusPatch
  | .patchStatus _ patch => some patch
  | _ => none

/-- Where a status patch takes effect, a condition that is there already with the status the patch
has for it has the time the reconcile has read off the clock. -/
def ClockStands (c c' : (readinessSystem timeoutSecs overlap).Config) :
    (readinessSystem timeoutSecs overlap).Event → Prop
  | .op p o _ => ∀ patch, KubeOp.statusPatch? o = some patch →
      c'.world.cluster = c.world.cluster.patchStatus patch →
        ∀ type a b, c.world.object.condition type = some a →
          conditionOf patch.conditions type = some b → a.status = b.status →
            (c.world.notes p).time = some a.lastTransitionTime
  | _ => True

/-- An operation that sends no status patch changes no times. -/
lemma clockStands_op {c c' : (readinessSystem timeoutSecs overlap).Config} {p : ℕ} {o : KubeOp}
    {r : kubeInterface.Answer o} (h : KubeOp.statusPatch? o = none) :
    ClockStands c c' (.op p o r) := by
  intro patch hpatch
  rw [h] at hpatch
  cases hpatch

lemma TimesKept.of_eq {wl wl' : NiphasWorkload} (h : wl'.status = wl.status) :
    TimesKept wl wl' := by
  intro type a b ha hb _
  rw [NiphasWorkload.condition, h] at hb
  obtain rfl := Option.some.inj (ha.symm.trans hb)
  rfl

/-- What a patch makes of the conditions. -/
lemma condition_patchStatus (w : Cluster) (patch : StatusPatch) (type : String) :
    (w.patchStatus patch).object.condition type =
      if patch.conditions.isSome then conditionOf patch.conditions type
      else w.object.condition type := by
  have hconditions : (w.patchStatus patch).object.status.bind (·.conditions) =
      (patch.conditions <|> (w.object.status.getD {}).conditions) := rfl
  rw [NiphasWorkload.condition, NiphasWorkload.condition, hconditions]
  cases hp : patch.conditions with
  | some conditions => rfl
  | none => cases w.object.status <;> rfl

/-- A patch leaves the times just when the clock shows them. -/
lemma timesKept_patchStatus {w : Cluster} {s : ReconcileNotes} {name : String} {patch : StatusPatch}
    (hstamped : Stamped s (.patchStatus name patch)) :
    TimesKept w.object (w.patchStatus patch).object ↔
      ∀ type a b, w.object.condition type = some a → conditionOf patch.conditions type = some b →
        a.status = b.status → s.time = some a.lastTransitionTime := by
  have hpatch := condition_patchStatus w patch
  have htime : ∀ type b, conditionOf patch.conditions type = some b →
      s.time = some b.lastTransitionTime := fun type b hb =>
    hstamped b (List.mem_of_find?_eq_some hb)
  constructor
  · intro hkept type a b ha hb hab
    have hsome : patch.conditions.isSome := by
      cases hp : patch.conditions with
      | some conditions => rfl
      | none =>
          rw [hp] at hb
          cases hb
    rw [htime type b hb, hkept type a b ha (by rw [hpatch, if_pos hsome, hb]) hab]
  · intro hclock type a b ha hb hab
    rw [hpatch] at hb
    split at hb
    · exact Option.some.inj ((htime type b hb).symm.trans (hclock type a b ha hb hab))
    · obtain rfl := Option.some.inj (ha.symm.trans hb)
      rfl

/-- **A step keeps the times just when the clock stands**, in every run. -/
lemma timesKept_iff {w : Readiness} {evs : List (readinessSystem timeoutSecs overlap).Event}
    {c c' : (readinessSystem timeoutSecs overlap).Config}
    {ev : (readinessSystem timeoutSecs overlap).Event}
    (hrun : Run (readinessSystem timeoutSecs overlap) (AnyStep _) (Config.idle w) evs c)
    (hs : Step (readinessSystem timeoutSecs overlap) c ev c') :
    TimesKept c.world.object c'.world.object ↔ ClockStands c c' ev := by
  have hquiet : c'.world.object.status = c.world.object.status → ClockStands c c' ev →
      (TimesKept c.world.object c'.world.object ↔ ClockStands c c' ev) :=
    fun hstatus hstands => iff_of_true (.of_eq hstatus) hstands
  cases hs with
  | start _ hbegin =>
      obtain ⟨-, -, rfl⟩ := hbegin
      exact hquiet rfl trivial
  | ret _ => exact hquiet rfl trivial
  | env henv =>
      cases henv with
      | edit hedit =>
          obtain ⟨obj, rfl, hstatus, -⟩ := hedit
          exact hquiet hstatus trivial
      | deployment => exact hquiet rfl trivial
  | crash hcrash =>
      cases hcrash
      exact hquiet rfl trivial
  | @op p wl o k r w hp hsem =>
      have hstamped : Stamped (c.world.notes p) o := (outcome_of_run hrun p _ hp).1
      obtain ⟨cluster, deployment, hcluster, -, rfl⟩ := hsem
      cases o with
      | patchStatus name patch =>
          have hiff := @timesKept_patchStatus c.world.cluster _ name patch hstamped
          by_cases heffect : cluster = c.world.cluster.patchStatus patch
          · subst heffect
            refine hiff.trans ⟨fun h patch' hpatch' _ => ?_, fun h => h patch rfl rfl⟩
            obtain rfl := Option.some.inj hpatch'
            exact h
          · have hsame := (hcluster.resolve_left heffect).2
            subst hsame
            refine hquiet rfl fun patch' hpatch' heffect' => absurd heffect' ?_
            obtain rfl := Option.some.inj hpatch'
            exact heffect
      | patchFinalizers name finalizers =>
          refine hquiet ?_ (clockStands_op rfl)
          rcases hcluster with rfl | ⟨-, rfl⟩
          · rfl
          · rfl
      | evaluate req =>
          cases hcluster
          exact hquiet rfl (clockStands_op rfl)
      | _ =>
          cases hcluster
          exact hquiet rfl (clockStands_op rfl)

/-! ## The two together -/

/-- **Reconciliation is idempotent just when the clock stands.**  A second update of a generation
that reads the same readiness leaves the same status just when the clock shows the same time, and no
`/` is in the program of the command; and in every run, a step changes the time only of conditions
whose status it changes just when what it writes of the others has the time the clock shows. -/
theorem reconcile_idempotent (timeoutSecs : ℕ) :
    (∀ {w : Readiness} {evs evs' : List (readinessSystem timeoutSecs False).Event}
        {c c' : (readinessSystem timeoutSecs False).Config} {p q : ℕ} {wl wl' : NiphasWorkload}
        {r r' : EvalResult} {now now' : String},
      Run (readinessSystem timeoutSecs False) (AnyStep _) (Config.idle w) evs c →
      Reported c p wl r now →
      Run (readinessSystem timeoutSecs False) (AnyStep _) c evs' c' → Reported c' q wl' r' now' →
      wl'.status = c.world.object.status → wl'.generation = wl.generation → wl'.spec = wl.spec →
      (c'.world.notes q).deployment = (c.world.notes p).deployment →
      (c'.world.object.status = c.world.object.status ↔ now' = now ∧ '/' ∉ r.program.toList)) ∧
    ∀ {overlap : Prop} {w : Readiness} {evs : List (readinessSystem timeoutSecs overlap).Event}
      {c c' : (readinessSystem timeoutSecs overlap).Config}
      {ev : (readinessSystem timeoutSecs overlap).Event},
      Run (readinessSystem timeoutSecs overlap) (AnyStep _) (Config.idle w) evs c →
      Step (readinessSystem timeoutSecs overlap) c ev c' →
      (TimesKept c.world.object c'.world.object ↔ ClockStands c c' ev) :=
  ⟨reported_again, timesKept_iff⟩

/-! ## A replica that takes its time -/

namespace Readiness

/-- The workload has no status, and there is no Deployment yet. -/
def helloWaiting : Readiness := .found helloWorkload none

/-- The status of a workload whose replica is not ready. -/
def waitingStatus (r : EvalResult) (now : String) : NiphasWorkloadStatus :=
  (statusPatch .provisioning r 0 1 now 1).apply {}

/-- What is read back. -/
def helloCached : EvalResult :=
  { helloResult with name := "hello-2.12.1", mainProgram := some "hello" }

/-- The cluster after the first reconcile. -/
def helloReported (now : String) : Cluster :=
  ((((Cluster.created helloWorkload).patchStatus (phasePatch .evaluating)).record
    (EvalRequest.ofSpec helloWorkload.spec) (.success (.ok helloResult))).patchStatus
      (phasePatch .provisioning)).patchStatus (statusPatch .provisioning helloResult 0 1 now 1)

/-- A reconcile that ends, of a workload that is stored. -/
lemma reaches_acting {p : ℕ} {w w' : Readiness} {wl : NiphasWorkload} {action : Action}
    (hversion : w.cluster.versions wl)
    (hsolo : Acting 300 False p (fun _ _ _ _ => True) (reconcile 300 wl) (w.began p) action w') :
    Reaches (readinessSystem 300 False) (AnyStep _) (Config.idle w)
      ((Config.idle w').set p (some { call := wl, rest := .pure (.ok action) })) :=
  (Reaches.refl _).underWay trivial ⟨.inr fun _ => rfl, hversion, rfl⟩ hsolo.goes
    fun _ _ _ _ _ => trivial

/-- Two reconciles one after the other, at the times `now` and `now'`. -/
lemma run_twice (now now' : String) :
    ∃ evs c evs' c',
      Run (readinessSystem 300 False) (AnyStep _) (Config.idle helloWaiting) evs c ∧
      Reported c 0 helloWorkload helloResult now ∧
      c.world.object.status = some (waitingStatus helloResult now) ∧
      Run (readinessSystem 300 False) (AnyStep _) c evs' c' ∧
      Reported c' 0 c.world.object helloCached now' ∧
      c.world.object.spec = helloWorkload.spec ∧
      c.world.object.generation = helloWorkload.generation ∧
      (c'.world.notes 0).deployment = (c.world.notes 0).deployment ∧
      c'.world.object.status = some (waitingStatus helloCached now') := by
  have hQ : @Readable 300 False (fun _ _ _ _ => True) 0 := fun _ _ _ _ => trivial
  obtain ⟨w, hsolo, hw⟩ := @acting_reconcile 300 False 0 _ (helloWaiting.began 0) hQ helloWorkload
    helloResult Rollout.pending_hello rfl Rollout.lone_hello now 0 rfl
  have hstored : w.cluster = helloReported now := hw.stored
  have hcluster : (w.began 0).cluster = helloReported now := hstored
  have hobject : w.object = (helloReported now).object := congrArg Cluster.object hstored
  have hstatus : w.object.status = some (waitingStatus helloResult now) := by
    rw [hobject]
    rfl
  have hpending : Pending w.object := by
    rw [hobject]
    exact ⟨rfl, Rollout.pending_hello.finalized, fun h => by cases h.2⟩
  have hneeds : ¬ needsEval w.object w.object.observed w.object.generation = true := by
    rw [hobject]
    exact fun h => by cases h
  have hcached : EvalResult.fromStatus (w.object.status.getD {}) = .ok (some helloCached) := by
    rw [hstatus]
    rfl
  have hlone : Rollout.Lone w.object helloCached := by
    rw [hobject]
    rfl
  have hgone : (w.began 0).deployment = some none := hw.there
  obtain ⟨w', hsolo', hw'⟩ := @acting_reconcile_cached 300 False 0 _ (w.began 0) hQ w.object
    helloCached hpending hneeds hcached hlone now' 0 (by rw [hgone]; rfl)
  have hversion : w.cluster.versions w.object := by
    rw [hobject, hstored]
    exact .inr rfl
  obtain ⟨evs, hrun⟩ := reaches_acting (p := 0) rfl hsolo
  have hret := @Reaches.lastRet (readinessSystem 300 False) (AnyStep _) 0 _ helloWorkload
    (Except.ok (reportedAction helloWorkload 0)) w (.refl _) trivial
  obtain ⟨evs', hrun'⟩ := hret.trans (reaches_acting hversion hsolo')
  have hfirst : Reported ((Config.idle w : (readinessSystem 300 False).Config).set 0 (some
      { call := helloWorkload, rest := .pure (.ok (reportedAction helloWorkload 0)) }))
      0 helloWorkload helloResult now :=
    ⟨⟨_, Config.set_self _ _ _⟩, _, _, _, _, hw.patched⟩
  have hsecond : Reported ((Config.idle w' : (readinessSystem 300 False).Config).set 0 (some
      { call := w.object, rest := .pure (.ok (reportedAction w.object 0)) }))
      0 w.object helloCached now' :=
    ⟨⟨_, Config.set_self _ _ _⟩, _, _, _, _, hw'.patched⟩
  refine ⟨evs, _, evs', _, hrun, hfirst, hstatus, hrun', hsecond, ?_, ?_, ?_, ?_⟩
  · rw [Config.set_world]
    exact congrArg (fun cluster => cluster.object.spec) hstored
  · rw [Config.set_world]
    exact congrArg (fun cluster => cluster.object.generation) hstored
  · have hread := hw'.read
    rw [hgone] at hread
    exact hread.trans hw.read.symm
  · have hstored' := hw'.stored
    rw [hcluster, hobject] at hstored'
    exact congrArg (fun cluster => cluster.object.status) hstored'

end Readiness

open Readiness in
/-- At the same time, the status stays. -/
theorem reconcile_idempotent_hello :
    ∃ evs c evs' c',
      Run (readinessSystem 300 False) (AnyStep _) (Config.idle Readiness.helloWaiting) evs c ∧
      Run (readinessSystem 300 False) (AnyStep _) c evs' c' ∧
      Reported c' 0 c.world.object Readiness.helloCached "2026-01-01T00:00:00Z" ∧
      c'.world.object.status = c.world.object.status := by
  obtain ⟨evs, c, evs', c', hrun, hfirst, -, hrun', hsecond, hspec, hgeneration, hdeployment, -⟩ :=
    Readiness.run_twice "2026-01-01T00:00:00Z" "2026-01-01T00:00:00Z"
  refine ⟨evs, c, evs', c', hrun, hrun', hsecond, ?_⟩
  exact ((reconcile_idempotent 300).1 hrun hfirst hrun' hsecond rfl hgeneration hspec
    hdeployment).mpr
    ⟨rfl, by decide⟩

/-- **The status never settles**: a reconcile that finds everything as the one before it did writes
another status, in which the times of all conditions are new. -/
theorem reconcile_restamps :
    ∃ evs c evs' c',
      Run (readinessSystem 300 False) (AnyStep _) (Config.idle Readiness.helloWaiting) evs c ∧
      Reported c 0 helloWorkload helloResult "2026-01-01T00:00:00Z" ∧
      Run (readinessSystem 300 False) (AnyStep _) c evs' c' ∧
      Reported c' 0 c.world.object Readiness.helloCached "2026-01-01T00:00:05Z" ∧
      c.world.object.spec = helloWorkload.spec ∧
      c.world.object.generation = helloWorkload.generation ∧
      (c'.world.notes 0).deployment = (c.world.notes 0).deployment ∧
      c'.world.object.status ≠ c.world.object.status ∧
      ¬ TimesKept c.world.object c'.world.object := by
  obtain ⟨evs, c, evs', c', hrun, hfirst, hstatus, hrun', hsecond, hspec, hgeneration, hdeployment,
    hstatus'⟩ := Readiness.run_twice "2026-01-01T00:00:00Z" "2026-01-01T00:00:05Z"
  refine ⟨evs, c, evs', c', hrun, hfirst, hrun', hsecond, hspec, hgeneration, hdeployment, ?_, ?_⟩
  · rw [hstatus, hstatus']
    decide
  · intro hkept
    have hevaluated : ∀ (wl : NiphasWorkload) (r : EvalResult) (now : String),
        wl.status = some (Readiness.waitingStatus r now) →
          wl.condition "Evaluated" = (statusConditions .provisioning r 0 1 now 1).head? := by
      intro wl r now h
      rw [NiphasWorkload.condition, h]
      rfl
    have htimes := hkept _ _ _ (hevaluated _ _ _ hstatus) (hevaluated _ _ _ hstatus') rfl
    revert htimes
    decide

end Niphas
