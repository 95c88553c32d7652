import Niphas.Lib.Triple
import Niphas.Operator.Cluster

/-!
# What the status says over time

The reconcile of a later version reads back from the status what earlier ones have written, to
decide whether it evaluates again.  `needs_eval` asks for two things: is there a store path in the
status, and is `observedGeneration` the generation at hand?  It takes the two together for a result
of this generation.

They are written together by `update_status`, but not by `set_failed`, which moves the generation
and leaves the store path.  So the invariant of the cluster is not kept by every patch, and the run
theorem has a condition: that no failure is recorded for the generation of the stored object over
the result of another one (`StatusPatch.KeepsResult`).  It is a condition on the state before the
write and on the generation in the patch.

Every part of `reconcile` gets one triple, from `setPhase` up to `does_reconcile`, with conditions
that stay true as versions and answers are added (`Lasting`); what other reconciles do in between is
dealt with once, by the rules of `Triple`.

* `does_reconcile` — every reconcile keeps the invariant of the cluster, from whatever version it
  works, as long as no failure is recorded over the result of another generation.
* `running_resolved` — so in every such run, a status that says `Running` for a generation has the
  store path and the closure of an evaluation of that generation's spec.
* `running_superseded` — `set_failed` moves `observedGeneration` and leaves `storePath`, so the next
  reconcile takes the old result for that of the new generation.
-/

namespace Niphas

open System

/-! ## One reconcile -/

/-- The rules of the cluster: every process keeps the invariant, and only adds versions and
answers. -/
def statusRules (timeoutSecs : ℕ) : RelyGuarantee (clusterSystem timeoutSecs) where
  inv := Cluster.Inv
  allowed _ o _ w := KubeOp.KeepsResult o w
  rely _ := Cluster.Grows
  guar _ := Cluster.Grows
  rely_refl _ := Cluster.Grows.refl
  rely_trans := Cluster.Grows.trans
  guar_rely _ _ h := h
  env_ok hw h := ⟨(hw.edit h).1, fun _ => (hw.edit h).2⟩
  crash_ok hw h := by
    cases h
    exact hw

section Reconcile

variable {timeoutSecs p : ℕ} {α : Type} {pre : Cluster → Prop}

/-- A condition that stays true as versions and answers are added. -/
def Lasting (φ : Cluster → Prop) : Prop := ∀ w w', φ w → w.Grows w' → φ w'

lemma Lasting.stable (h : Lasting pre) : (statusRules timeoutSecs).Stable p pre :=
  fun w w' _ hpre hw _ => h w w' hpre hw

lemma lasting_versions (wl : NiphasWorkload) : Lasting fun w => w.versions wl :=
  fun _ _ h hw => hw.versions wl h

/-- Begun with `pre`, a part of a reconcile is safe, and `post` holds of what it returns. -/
abbrev Does (timeoutSecs p : ℕ) (pre : Cluster → Prop) (prog : OperatorM α)
    (post : α → Cluster → Prop) : Prop :=
  (statusRules timeoutSecs).TripleExcept p pre prog post fun _ _ => True

/-- One part after the other. -/
lemma Does.bind {β : Type} {prog : OperatorM α} {f : α → OperatorM β} {mid : α → Cluster → Prop}
    {post : β → Cluster → Prop} (h : Does timeoutSecs p pre prog mid)
    (hf : ∀ a, Does timeoutSecs p (mid a) (f a) post) :
    Does timeoutSecs p pre (prog >>= f) post :=
  RelyGuarantee.TripleExcept.bind (fun _ => RelyGuarantee.stable_true) h hf

lemma does_ofResult {r : Except OperatorFault α} {post : α → Cluster → Prop}
    (hpost : ∀ a, Lasting (post a)) (h : ∀ w, w.Inv → pre w → ∀ a, r = .ok a → post a w) :
    Does timeoutSecs p pre (OperatorM.ofResult r) post := by
  refine RelyGuarantee.TripleExcept.ofExcept (fun a _ => (hpost a).stable)
    (fun _ => RelyGuarantee.stable_true) fun w hi hw => ?_
  cases r with
  | error e => trivial
  | ok a => exact h w hi hw a rfl

lemma does_pure {a : α} {post : α → Cluster → Prop} (hpost : Lasting (post a))
    (h : ∀ w, w.Inv → pre w → post a w) : Does timeoutSecs p pre (pure a) post :=
  RelyGuarantee.Triple.pure hpost.stable h

lemma does_ofKube (hpre : Lasting pre) (r : Except String α) :
    Does timeoutSecs p pre (OperatorM.ofKube r) fun _ => pre := by
  cases r with
  | ok a => exact does_ofResult (fun _ => hpre) fun _ _ hw _ _ => hw
  | error e => exact does_ofResult (fun _ => hpre) fun _ _ hw _ _ => hw

lemma does_op {o : KubeOp} {post : kubeInterface.Answer o → Cluster → Prop} (hpre : Lasting pre)
    (hpost : ∀ r, Lasting (post r))
    (h : ∀ w, w.Inv → pre w → ∀ r w', o.Sem w r w' → o.KeepsResult w →
      w'.Inv ∧ w.Grows w' ∧ post r w') :
    Does timeoutSecs p pre (OperatorM.op o) post :=
  RelyGuarantee.TripleExcept.lift (fun r => (hpost r).stable)
    (RelyGuarantee.Triple.op hpre.stable (fun r => (hpost r).stable) h)

/-- An operation that leaves the workload alone. -/
lemma does_quiet {o : KubeOp} (hpre : Lasting pre) (ho : ∀ w r w', o.Sem w r w' → w' = w) :
    Does timeoutSecs p pre (OperatorM.op o) fun _ => pre := by
  refine does_op hpre (fun _ => hpre) fun w hi hw r w' hs _ => ?_
  cases ho w r w' hs
  exact ⟨hi, .refl w, hw⟩

/-- A patch of the status that leaves it right. -/
lemma does_patchStatus (hpre : Lasting pre) {patch : StatusPatch}
    (hpatch : ∀ w, w.Inv → pre w → patch.KeepsResult w.object →
      w.StatusOk w.object.generation (patch.apply (w.object.status.getD {}))) (name : String) :
    Does timeoutSecs p pre (do OperatorM.ofKube (← OperatorM.op (.patchStatus name patch)))
      fun _ => pre := by
  refine Does.bind (does_op hpre (fun _ => hpre) ?_) (does_ofKube hpre)
  rintro w hi hw r w' (rfl | ⟨-, rfl⟩) hkeeps
  · exact ⟨hi.patchStatus (hpatch w hi hw hkeeps), w.grows_store _,
      hpre _ _ hw (w.grows_store _)⟩
  · exact ⟨hi, .refl w', hw⟩

lemma does_patchFinalizers (hpre : Lasting pre) (name : String)
    (finalizers : Option (List String)) :
    Does timeoutSecs p pre
      (do OperatorM.ofKube (← OperatorM.op (.patchFinalizers name finalizers))) fun _ => pre := by
  refine Does.bind (does_op hpre (fun _ => hpre) ?_) (does_ofKube hpre)
  rintro w hi hw r w' (rfl | ⟨-, rfl⟩) -
  · exact ⟨hi.patchFinalizers finalizers, w.grows_store _, hpre _ _ hw (w.grows_store _)⟩
  · exact ⟨hi, .refl w', hw⟩

lemma does_setPhase (hpre : Lasting pre) (wl : NiphasWorkload) {phase : WorkloadPhase}
    (hphase : phase ≠ .running) : Does timeoutSecs p pre (setPhase wl phase) fun _ => pre :=
  does_patchStatus hpre (fun _ hi _ _ => hi.statusOk.phasePatch hphase) wl.nameAny

lemma does_setFailed (hpre : Lasting pre) {wl : NiphasWorkload}
    (hwl : ∀ w, pre w → w.versions wl) (reason message : String) :
    Does timeoutSecs p pre (setFailed wl reason message wl.generation) fun _ => pre := by
  refine Does.bind (does_quiet hpre fun _ _ _ h => h) fun now => does_patchStatus hpre ?_ _
  intro w hi hw hkeeps
  refine hi.statusOk.failedPatch (hi.latest wl (hwl w hw)) ?_ reason message now
  rcases hkeeps rfl with hne | hnone | hsame
  · exact .inl fun heq => hne (congrArg some heq)
  · exact .inr (.inl hnone)
  · exact .inr (.inr hsame)

/-- What is known once there is a result for the version `wl`. -/
def HasResult (wl : NiphasWorkload) (r : EvalResult) (w : Cluster) : Prop :=
  w.versions wl ∧ w.Resolved wl.generation r.storePath r.closurePaths

lemma lasting_hasResult (wl : NiphasWorkload) (r : EvalResult) : Lasting (HasResult wl r) :=
  fun _ _ h hw => ⟨hw.versions wl h.1, h.2.mono hw⟩

lemma does_updateStatus (wl : NiphasWorkload) (r : EvalResult) (phase : WorkloadPhase)
    (ready : Int) :
    Does timeoutSecs p (HasResult wl r) (updateStatus wl phase r ready wl.generation)
      fun _ => HasResult wl r := by
  have hlast := lasting_hasResult wl r
  refine Does.bind (does_quiet hlast fun _ _ _ h => h) fun now => does_patchStatus hlast ?_ _
  intro w hi hw _
  exact Cluster.statusOk_statusPatch (hi.latest wl hw.1) hw.2 _ _ _ _ _

/-! ### The evaluation -/

/-- What is known once the webhook has answered for the version `wl`. -/
def Answered (wl : NiphasWorkload) (reply : WebhookReply) (w : Cluster) : Prop :=
  w.versions wl ∧ ∀ r, reply = .success (.ok r) → w.evaluated (EvalRequest.ofSpec wl.spec) r

lemma lasting_answered (wl : NiphasWorkload) (reply : WebhookReply) :
    Lasting (Answered wl reply) :=
  fun _ _ h hw => ⟨hw.versions wl h.1, fun r hr => hw.evaluated _ r (h.2 r hr)⟩

lemma does_evaluate (wl : NiphasWorkload) :
    Does timeoutSecs p (fun w => w.versions wl)
      (OperatorM.op (.evaluate (EvalRequest.ofSpec wl.spec))) (Answered wl) := by
  refine does_op (lasting_versions wl) (lasting_answered wl) ?_
  rintro w hi hw reply _ rfl -
  exact ⟨hi.record _ _, w.grows_record _ _, hw, fun r hr => .inr ⟨rfl, hr⟩⟩

lemma Answered.hasResult {wl : NiphasWorkload} {reply : WebhookReply} {r : EvalResult}
    {w : Cluster} (h : Answered wl reply w) (hr : reply.result timeoutSecs = .ok r) :
    HasResult wl r w :=
  ⟨h.1, wl, r, h.1, rfl, h.2 r (WebhookReply.result_eq_ok.mp hr), rfl, rfl⟩

/-- What the evaluation of the version `wl` comes to. -/
def Evaluates (wl : NiphasWorkload) : Except Action EvalResult → Cluster → Prop
  | .ok r => HasResult wl r
  | .error _ => fun w => w.versions wl

lemma lasting_evaluates (wl : NiphasWorkload) (outcome : Except Action EvalResult) :
    Lasting (Evaluates wl outcome) := by
  cases outcome with
  | ok r => exact lasting_hasResult wl r
  | error action => exact lasting_versions wl

lemma does_evalFresh (wl : NiphasWorkload) :
    Does timeoutSecs p (fun w => w.versions wl) (evalFresh timeoutSecs wl) (Evaluates wl) := by
  refine Does.bind (does_setPhase (lasting_versions wl) wl nofun) fun _ => ?_
  refine Does.bind (does_quiet (lasting_versions wl) fun _ _ _ h => h) fun _ => ?_
  refine Does.bind (does_evaluate wl) fun reply => ?_
  have hlast := lasting_answered wl reply
  split
  next r hr =>
    refine Does.bind (does_quiet hlast fun _ _ _ h => h) fun _ => ?_
    exact does_pure (lasting_evaluates wl _) fun w _ h => h.hasResult hr
  next e _ =>
    refine Does.bind (does_quiet hlast fun _ _ _ h => h) fun _ => ?_
    refine Does.bind (does_setFailed hlast (fun _ h => h.1) _ _) fun _ => ?_
    exact does_pure (lasting_evaluates wl _) fun w _ h => h.1

lemma does_evalUncached (wl : NiphasWorkload) :
    Does timeoutSecs p (fun w => w.versions wl) (evalUncached timeoutSecs wl) (Evaluates wl) := by
  refine Does.bind (does_setPhase (lasting_versions wl) wl nofun) fun _ => ?_
  refine Does.bind (does_evaluate wl) fun reply => ?_
  have hlast := lasting_answered wl reply
  split
  next r hr => exact does_pure (lasting_evaluates wl _) fun w _ h => h.hasResult hr
  next e _ =>
    refine Does.bind (does_setFailed hlast (fun _ h => h.1) _ _) fun _ => ?_
    exact does_pure (lasting_evaluates wl _) fun w _ h => h.1

/-- Where `needsEval` finds a result in the status, it is one of an evaluation of this version. -/
lemma Cluster.Inv.cached {w : Cluster} (hi : w.Inv) {wl : NiphasWorkload} (hwl : w.versions wl)
    (hneeds : needsEval wl wl.observed wl.generation = false) {r : EvalResult}
    (hr : EvalResult.fromStatus (wl.status.getD {}) = .ok (some r)) : HasResult wl r w := by
  obtain ⟨hpath, hclosure⟩ := EvalResult.fromStatus_eq_some hr
  match hst : wl.status with
  | none =>
      rw [hst] at hpath
      cases hpath
  | some st =>
      simp only [hst, Option.getD_some] at hpath hclosure
      have hok := hi.status wl st hwl hst
      have hdated := hok.dated (by rw [hpath]; rfl)
      obtain ⟨g, hg⟩ := Option.isSome_iff_exists.mp hdated
      have hobserved : wl.observed = g := by
        rw [NiphasWorkload.observed, hst, Option.bind_some, hg, Option.getD_some]
      -- the generation observed is neither before nor after that of the version
      have hle : ¬ g < wl.generation := by
        intro hlt
        rw [needsEval, hobserved, if_pos hlt] at hneeds
        cases hneeds
      have hgen : st.observedGeneration = some wl.generation := by
        rw [hg, le_antisymm (hok.seen g hg) (not_lt.mp hle)]
      obtain ⟨closurePaths, hpaths, hres⟩ := hok.resolved hgen _ hpath
      rw [hpaths, Option.getD_some] at hclosure
      exact ⟨hwl, hclosure ▸ hres⟩

lemma does_evalCached {wl : NiphasWorkload}
    (hneeds : needsEval wl wl.observed wl.generation = false) :
    Does timeoutSecs p (fun w => w.versions wl) (evalCached timeoutSecs wl) (Evaluates wl) := by
  rw [evalCached]
  split
  next cached hr =>
    refine does_ofResult (lasting_evaluates wl) fun w hi hw a ha => ?_
    cases ha
    exact hi.cached hw hneeds hr
  next => exact does_evalUncached wl
  next => exact does_ofResult (lasting_evaluates wl) fun _ _ _ _ ha => nomatch ha

/-! ### The rest -/

lemma safe_applyChildren (hpre : Lasting pre) (children : List ChildManifest) :
    (statusRules timeoutSecs).Triple p pre (applyChildren children) fun _ => pre := by
  induction children with
  | nil => exact RelyGuarantee.Triple.pure hpre.stable fun _ _ hw => hw
  | cons child rest ih =>
      have hop : (statusRules timeoutSecs).Triple p pre
          (Prog.op (I := kubeInterface) (.apply child)) fun _ => pre := by
        refine RelyGuarantee.Triple.op hpre.stable (fun _ => hpre.stable) ?_
        rintro _ hi hw r w rfl -
        exact ⟨hi, .refl w, hw⟩
      refine RelyGuarantee.Triple.bind hop fun r => ?_
      rcases r with e | ⟨⟩
      · exact RelyGuarantee.Triple.pure hpre.stable fun _ _ hw => hw
      · exact ih

lemma does_reportStatus (wl : NiphasWorkload) (r : EvalResult) :
    Does timeoutSecs p (HasResult wl r) (reportStatus wl r) fun _ => HasResult wl r := by
  have hlast := lasting_hasResult wl r
  have hready : Does timeoutSecs p (HasResult wl r) (countReadyReplicas wl)
      fun _ => HasResult wl r := by
    refine Does.bind (does_quiet hlast fun _ _ _ h => h) fun a => ?_
    refine Does.bind (does_ofKube hlast a) fun deployment => ?_
    split
    · exact does_pure hlast fun _ _ hw => hw
    · exact does_pure hlast fun _ _ hw => hw
  refine Does.bind (does_quiet hlast fun _ _ _ h => h) fun _ => Does.bind hready fun ready => ?_
  split
  · refine Does.bind (does_quiet hlast fun _ _ _ h => h) fun _ => ?_
    exact Does.bind (does_updateStatus wl r _ ready) fun _ => does_pure hlast fun _ _ hw => hw
  · exact Does.bind (does_updateStatus wl r _ ready) fun _ => does_pure hlast fun _ _ hw => hw

lemma does_provision (wl : NiphasWorkload) (r : EvalResult) :
    Does timeoutSecs p (HasResult wl r) (provision wl r) fun _ => HasResult wl r := by
  have hlast := lasting_hasResult wl r
  refine Does.bind (does_setPhase hlast wl nofun) fun _ => ?_
  refine Does.bind (RelyGuarantee.TripleExcept.lift (fun _ => hlast.stable)
    (safe_applyChildren hlast _)) fun applied => ?_
  split
  · exact does_reportStatus wl r
  · refine Does.bind (does_setFailed hlast (fun _ h => h.1) _ _) fun _ => ?_
    exact does_pure hlast fun _ _ hw => hw

/-- What `reconcile` does with the outcome of the evaluation. -/
def afterEval (wl : NiphasWorkload) : Except Action EvalResult → OperatorM Action
  | .error action => pure action
  | .ok evalResult => provision wl evalResult

/-- **A reconcile does its part**, from whatever version it works. -/
lemma does_reconcile (wl : NiphasWorkload) :
    Does timeoutSecs p (fun w => w.versions wl) (reconcile timeoutSecs wl)
      fun _ w => w.versions wl := by
  have hlast := lasting_versions wl
  rw [reconcile]
  split
  · refine Does.bind (does_quiet hlast fun _ _ _ h => h) fun _ => ?_
    exact Does.bind (does_patchFinalizers hlast _ _) fun _ => does_pure hlast fun _ _ hw => hw
  split
  · exact Does.bind (does_patchFinalizers hlast _ _) fun _ => does_pure hlast fun _ _ hw => hw
  split
  · exact does_pure hlast fun _ _ hw => hw
  -- what is left once the evaluation has come to something
  have hrest : ∀ outcome, Does timeoutSecs p (Evaluates wl outcome) (afterEval wl outcome)
      fun _ w => w.versions wl := by
    rintro (action | r)
    · exact does_pure hlast fun _ _ hw => hw
    · exact RelyGuarantee.TripleExcept.conseq (does_provision wl r) (fun _ _ hw => hw)
        fun _ _ _ hw => hw.1
  split
  · exact Does.bind (does_evalFresh wl) hrest
  next hneeds => exact Does.bind (does_evalCached (Bool.eq_false_of_not_eq_true hneeds)) hrest

end Reconcile

/-! ## Whole runs -/

variable {timeoutSecs : ℕ}

/-- A status that says `Running` for a generation has the result of a successful evaluation of the
spec of that generation. -/
def Cluster.RunningResolved (w : Cluster) : Prop :=
  ∀ st g, w.object.status = some st → st.phase = .running → st.observedGeneration = some g →
    ∃ wl r, w.versions wl ∧ wl.generation = g ∧ w.evaluated (EvalRequest.ofSpec wl.spec) r ∧
      st.storePath = some r.storePath ∧ st.closurePaths = some r.closurePaths

/-- No failure is recorded for the generation the object has over the result of another one. -/
def KeepsResults (c : (clusterSystem timeoutSecs).Config) :
    (clusterSystem timeoutSecs).Event → Prop
  | .op _ o _ => KubeOp.KeepsResult o c.world
  | _ => True

lemma covers_statusRules : (statusRules timeoutSecs).Covers (fun _ _ _ _ => True)
    KeepsResults where
  op h := h
  start {c p call w'} _ hi hbegin := by
    obtain ⟨hwl, rfl⟩ := hbegin
    exact ⟨hi, .refl c.world, (does_reconcile call c.world hi hwl).mono fun _ _ _ _ => trivial⟩

/-- The invariant holds throughout. -/
lemma run_inv {wl : NiphasWorkload} (hwl : wl.status = none)
    {evs : List (clusterSystem timeoutSecs).Event} {c : (clusterSystem timeoutSecs).Config}
    (hrun : Run (clusterSystem timeoutSecs) KeepsResults
      (Config.idle (Cluster.created wl)) evs c) : c.world.Inv :=
  (RelyGuarantee.sound covers_statusRules (Cluster.inv_created hwl) hrun).1

/-- **A status that says `Running` is that of its generation**, in every state of every run in which
no failure is recorded for the generation the object has over the result of another one. -/
theorem running_resolved {wl : NiphasWorkload} (hwl : wl.status = none)
    {evs : List (clusterSystem timeoutSecs).Event} {c : (clusterSystem timeoutSecs).Config}
    (hrun : Run (clusterSystem timeoutSecs) KeepsResults
      (Config.idle (Cluster.created wl)) evs c) : c.world.RunningResolved := by
  intro st g hst hphase hg
  have hi := run_inv hwl hrun
  obtain ⟨g', storePath, closurePaths, hg', hpath, hclosure, hres⟩ :=
    (hi.status c.world.object st hi.current hst).running hphase
  obtain rfl : g = g' := Option.some.inj (hg.symm.trans hg')
  obtain ⟨wl', r, hwl', hgen, hr, rfl, rfl⟩ := hres
  exact ⟨wl', r, hwl', hgen, hr, hpath, hclosure⟩

/-- In every run, a generation has one spec. -/
theorem run_ordered {wl : NiphasWorkload} {evs : List (clusterSystem timeoutSecs).Event}
    {c : (clusterSystem timeoutSecs).Config}
    (hrun : Run (clusterSystem timeoutSecs) (AnyStep _) (Config.idle (Cluster.created wl)) evs c) :
    c.world.Ordered := by
  have hstep : ∀ {c ev c'}, c.world.Ordered → True → Step (clusterSystem timeoutSecs) c ev c' →
      c'.world.Ordered := by
    intro c ev c' hc _ hs
    cases hs with
    | start _ hbegin =>
        obtain ⟨-, rfl⟩ := hbegin
        exact hc
    | op _ hs => exact KubeOp.Sem.ordered hs hc
    | ret _ => exact hc
    | env henv =>
        obtain ⟨obj, rfl, -, hfollows⟩ := henv
        exact hc.store hfollows
    | crash hcrash =>
        cases hcrash
        exact hc
  exact hrun.invariant hstep (Cluster.ordered_created wl)

/-! ## Reconciles that run alone

The runs that are exhibited are put together from whole reconciles, each with answers that are
given: an evaluation that succeeds or fails, a Deployment that is ready.
-/

section Alone

variable {p : ℕ} {Q : (clusterSystem timeoutSecs).OpCond}

/-- A part of a reconcile runs to its end with nothing in between. -/
abbrev Runs (timeoutSecs p : ℕ) (Q : (clusterSystem timeoutSecs).OpCond) {α : Type}
    (prog : OperatorM α) (w : Cluster) (a : α) (w' : Cluster) : Prop :=
  Solo (clusterSystem timeoutSecs) Q p prog.run w (.ok a) w'

lemma runs_quiet {o : KubeOp} {r : kubeInterface.Answer o} {w : Cluster} (hs : o.Sem w r w)
    (hq : Q p o r w) : Runs timeoutSecs p Q (OperatorM.op o) w r w :=
  Solo.liftExcept hs hq

lemma runs_patchStatus {name : String} {patch : StatusPatch} {w : Cluster}
    (hq : Q p (.patchStatus name patch) (.ok ()) w) :
    Runs timeoutSecs p Q (do OperatorM.ofKube (← OperatorM.op (.patchStatus name patch))) w ()
      (w.patchStatus patch) := by
  have hs : KubeOp.Sem (.patchStatus name patch) w (.ok ()) (w.patchStatus patch) := .inl rfl
  exact Solo.bindExcept (Solo.liftExcept hs hq) .pure

/-- What the clock shows. -/
def newYear : String := "2026-01-01T00:00:00Z"

/-- `Q` asks for no more than that results are kept. -/
def Weak (Q : (clusterSystem timeoutSecs).OpCond) (p : ℕ) : Prop :=
  ∀ o r w, KubeOp.KeepsResult o w → Q p o r w

lemma Weak.of_phase (hQ : Weak Q p) {name : String} {patch : StatusPatch} {w : Cluster}
    (hphase : patch.phase ≠ some .failed) : Q p (.patchStatus name patch) (.ok ()) w :=
  hQ _ _ _ fun h => absurd h hphase

lemma runs_setFailed {wl : NiphasWorkload} {reason message : String} {g : Int} {w : Cluster}
    (hnow : Q p .now newYear w)
    (hq : Q p (.patchStatus wl.nameAny (failedPatch reason message newYear g)) (.ok ()) w) :
    Runs timeoutSecs p Q (setFailed wl reason message g) w ()
      (w.patchStatus (failedPatch reason message newYear g)) := by
  have hs : KubeOp.Sem .now w newYear w := rfl
  exact Solo.bindExcept (runs_quiet hs hnow) (runs_patchStatus hq)

/-- The webhook answers with a result. -/
lemma runs_evalFresh_ok (hQ : Weak Q p) (wl : NiphasWorkload) (r : EvalResult) (w : Cluster) :
    Runs timeoutSecs p Q (evalFresh timeoutSecs wl) w (.ok r)
      ((w.patchStatus (phasePatch .evaluating)).record (EvalRequest.ofSpec wl.spec)
        (.success (.ok r))) := by
  have hs : KubeOp.Sem (.evaluate (EvalRequest.ofSpec wl.spec))
      (w.patchStatus (phasePatch .evaluating)) (.success (.ok r))
      ((w.patchStatus (phasePatch .evaluating)).record (EvalRequest.ofSpec wl.spec)
        (.success (.ok r))) := rfl
  refine Solo.bindExcept (runs_patchStatus (hQ.of_phase nofun)) ?_
  refine Solo.bindExcept (Solo.liftExcept (r := ()) rfl (hQ _ _ _ trivial)) ?_
  refine Solo.bindExcept (Solo.liftExcept hs (hQ _ _ _ trivial)) ?_
  exact Solo.bindExcept (Solo.liftExcept (r := ()) rfl (hQ _ _ _ trivial)) .pure

/-- The webhook cannot be reached. -/
lemma runs_evalFresh_failed (hQ : ∀ o r w, Q p o r w) (wl : NiphasWorkload) (w : Cluster) :
    Runs timeoutSecs p Q (evalFresh timeoutSecs wl) w (.error (.requeue 30))
      (((w.patchStatus (phasePatch .evaluating)).record (EvalRequest.ofSpec wl.spec)
        (.sendFailed false "")).patchStatus
          (failedPatch "EvalFailed" (OperatorError.evalWebhook "request failed: ").toString newYear
            wl.generation)) := by
  have hs : KubeOp.Sem (.evaluate (EvalRequest.ofSpec wl.spec))
      (w.patchStatus (phasePatch .evaluating)) (.sendFailed false "")
      ((w.patchStatus (phasePatch .evaluating)).record (EvalRequest.ofSpec wl.spec)
        (.sendFailed false "")) := rfl
  refine Solo.bindExcept (runs_patchStatus (hQ _ _ _)) ?_
  refine Solo.bindExcept (Solo.liftExcept (r := ()) rfl (hQ _ _ _)) ?_
  refine Solo.bindExcept (Solo.liftExcept hs (hQ _ _ _)) ?_
  refine Solo.bindExcept (Solo.liftExcept (r := ()) rfl (hQ _ _ _)) ?_
  exact Solo.bindExcept (runs_setFailed (hQ _ _ _) (hQ _ _ _)) .pure

lemma solo_applyChildren (hQ : Weak Q p) (children : List ChildManifest) (w : Cluster) :
    Solo (clusterSystem timeoutSecs) Q p (applyChildren children) w (.ok ()) w := by
  induction children with
  | nil => exact .pure
  | cons child rest ih =>
      have hop : Solo (clusterSystem timeoutSecs) Q p (Prog.op (I := kubeInterface) (.apply child))
          w (.ok ()) w := .call rfl (hQ _ _ _ trivial) .pure
      exact hop.bind ih

/-- All replicas are ready. -/
lemma runs_provision (hQ : Weak Q p) (wl : NiphasWorkload) (r : EvalResult) (w : Cluster) :
    Runs timeoutSecs p Q (provision wl r) w (.requeue 300)
      ((w.patchStatus (phasePatch .provisioning)).patchStatus
        (statusPatch .running r wl.desired wl.desired newYear wl.generation)) := by
  let w₁ := w.patchStatus (phasePatch .provisioning)
  have hready : KubeOp.Sem (.getDeployment wl.nameAny) w₁ (.ok (some (some wl.desired))) w₁ := rfl
  have hnow : KubeOp.Sem .now w₁ newYear w₁ := rfl
  have hevent : ∀ type reason note,
      Runs timeoutSecs p Q (OperatorM.op (.publishEvent type reason note)) w₁ () w₁ :=
    fun _ _ _ => runs_quiet rfl (hQ _ _ _ trivial)
  have hcount : Runs timeoutSecs p Q (countReadyReplicas wl) w₁ wl.desired w₁ :=
    Solo.bindExcept (runs_quiet hready (hQ _ _ _ trivial)) (Solo.bindExcept .pure .pure)
  refine Solo.bindExcept (runs_patchStatus (hQ.of_phase nofun)) ?_
  refine Solo.bindExcept (Solo.bind (solo_applyChildren hQ _ w₁) .pure) ?_
  refine Solo.bindExcept (hevent _ _ _) (Solo.bindExcept hcount ?_)
  rw [if_pos (le_refl _)]
  refine Solo.bindExcept (hevent _ _ _) (Solo.bindExcept (a := ()) ?_ .pure)
  exact Solo.bindExcept (runs_quiet hnow (hQ _ _ _ trivial))
    (runs_patchStatus (hQ.of_phase nofun))

/-- A workload that is reconciled: it is not deleted, it has the finalizer, and it does not run
yet. -/
structure Pending (wl : NiphasWorkload) : Prop where
  live : wl.metadata.deletionTimestamp = none
  finalized : wl.hasFinalizer = true
  waits : ¬ (wl.generation ≤ wl.observed ∧ wl.status.map (·.phase) = some .running)

lemma Pending.reconcile_eq {wl : NiphasWorkload} (h : Pending wl) :
    reconcile timeoutSecs wl =
      (if needsEval wl wl.observed wl.generation then evalFresh timeoutSecs wl
        else evalCached timeoutSecs wl) >>= afterEval wl := by
  rw [reconcile, if_neg (by rw [h.live]; exact nofun), if_neg (not_not_intro h.finalized),
    if_neg h.waits]
  split
  · rfl
  · rfl

/-- A reconcile of the stored version that runs alone is a run. -/
lemma run_reconcile {P : (clusterSystem timeoutSecs).Config → (clusterSystem timeoutSecs).Event →
      Prop} {w w' : Cluster} {action : Action} (hwl : w.versions w.object)
    (h : Runs timeoutSecs p Q (reconcile timeoutSecs w.object) w action w')
    (hstart : P (Config.idle w) (.start p w.object))
    (hop : ∀ w rest o r, Q p o r w →
      P ((Config.idle w).set p (some rest)) (.op p o r))
    (hret : P ((Config.idle w').set p (some ⟨w.object, .pure (.ok action)⟩))
      (.ret p (.ok action))) :
    ∃ evs, Run (clusterSystem timeoutSecs) P (Config.idle w) evs (Config.idle w') :=
  Solo.run (S := clusterSystem timeoutSecs) h ⟨hwl, rfl⟩ hstart 
    (fun w _ o r hq => hop w _ o r hq) hret

end Alone

/-- A workload with the finalizer, as it is created. -/
def helloWorkload : NiphasWorkload :=
  { metadata := { name := some "hello", «namespace» := some "apps", generation := some 1
                  finalizers := some [finalizer] }
    spec := { flakeRef := "github:test/app", «attribute» := "default" } }

/-- A workload as it is created by its owner, without finalizers. -/
def bareWorkload : NiphasWorkload :=
  { helloWorkload with metadata := { helloWorkload.metadata with finalizers := none } }

/-- What the webhook answers for it. -/
def helloResult : EvalResult :=
  { storePath := "/nix/store/0c3yg1nz3v4hajf5hx2wm3ib5bagml1d-hello-2.12.1", name := "hello"
    mainProgram := none
    closurePaths := ["/nix/store/0c3yg1nz3v4hajf5hx2wm3ib5bagml1d-hello-2.12.1"] }

/-- The cluster once the workload runs. -/
def helloRunning : Cluster :=
  ((((Cluster.created helloWorkload).patchStatus (phasePatch .evaluating)).record
    (EvalRequest.ofSpec helloWorkload.spec) (.success (.ok helloResult))).patchStatus
      (phasePatch .provisioning)).patchStatus
        (statusPatch .running helloResult 1 1 newYear 1)

/-- The first reconcile. -/
lemma runs_hello {Q : (clusterSystem 300).OpCond} (hQ : Weak Q 0) :
    Runs 300 0 Q (reconcile 300 helloWorkload) (Cluster.created helloWorkload) (.requeue 300)
      helloRunning := by
  have hpending : Pending helloWorkload := ⟨rfl, by decide, fun h => absurd h.2 nofun⟩
  have hneeds : needsEval helloWorkload helloWorkload.observed helloWorkload.generation := rfl
  rw [hpending.reconcile_eq, if_pos hneeds]
  exact Solo.bindExcept (runs_evalFresh_ok hQ helloWorkload helloResult _)
    (runs_provision hQ helloWorkload helloResult _)

theorem running_resolved_hello :
    ∃ evs c, Run (clusterSystem 300) KeepsResults (Config.idle (Cluster.created helloWorkload))
        evs c ∧ c.world = helloRunning ∧ c.world.RunningResolved := by
  obtain ⟨evs, hrun⟩ := run_reconcile (P := KeepsResults) (w := Cluster.created helloWorkload) rfl
    (runs_hello (Q := fun _ o _ w => KubeOp.KeepsResult o w) fun _ _ _ h => h) trivial
    (fun _ _ _ _ h => h) trivial
  exact ⟨evs, _, hrun, rfl, running_resolved rfl hrun⟩

/-- The flake reference is changed. -/
def superseded : Cluster :=
  helloRunning.store
    { helloRunning.object with
      metadata := { helloRunning.object.metadata with generation := some 2 }
      spec := { helloRunning.object.spec with flakeRef := "github:test/other" } }

/-- The evaluation of the new reference fails. -/
def failedEval : Cluster :=
  ((superseded.patchStatus (phasePatch .evaluating)).record
    (EvalRequest.ofSpec superseded.object.spec) (.sendFailed false "")).patchStatus
      (failedPatch "EvalFailed" (OperatorError.evalWebhook "request failed: ").toString newYear 2)

/-- The next reconcile takes the result of the status. -/
def staleRunning : Cluster :=
  (failedEval.patchStatus (phasePatch .provisioning)).patchStatus
    (statusPatch .running { helloResult with name := "hello-2.12.1", mainProgram := some "hello" }
      1 1 newYear 2)

lemma runs_failedEval : Runs 300 0 (fun _ _ _ _ => True) (reconcile 300 superseded.object)
    superseded (.requeue 30) failedEval := by
  have hpending : Pending superseded.object := ⟨rfl, by decide, fun h => absurd h.1 (by decide)⟩
  have hneeds : needsEval superseded.object superseded.object.observed
      superseded.object.generation := rfl
  rw [hpending.reconcile_eq, if_pos hneeds]
  exact Solo.bindExcept (runs_evalFresh_failed (fun _ _ _ => trivial) superseded.object _) .pure

lemma runs_staleRunning : Runs 300 0 (fun _ _ _ _ => True) (reconcile 300 failedEval.object)
    failedEval (.requeue 300) staleRunning := by
  have hpending : Pending failedEval.object := ⟨rfl, by decide, fun h => absurd h.2 (by decide)⟩
  have hcached : EvalResult.fromStatus (failedEval.object.status.getD {}) = .ok (some
      { helloResult with name := "hello-2.12.1", mainProgram := some "hello" }) := by decide
  have hneeds : ¬ needsEval failedEval.object failedEval.object.observed
      failedEval.object.generation = true := by decide
  rw [hpending.reconcile_eq, if_neg hneeds, evalCached, hcached]
  exact Solo.bindExcept .pure (runs_provision (fun _ _ _ _ => trivial) failedEval.object _ _)

/-- **A superseded result runs under the new generation**: `set_failed` leaves `storePath` where it
moves `observedGeneration`. -/
theorem running_superseded :
    ∃ evs c, Run (clusterSystem 300) (AnyStep _) (Config.idle (Cluster.created helloWorkload))
        evs c ∧ ¬ c.world.RunningResolved := by
  obtain ⟨evs₁, hrun₁⟩ := run_reconcile (P := AnyStep _) (w := Cluster.created helloWorkload) rfl
    (runs_hello (Q := fun _ _ _ _ => True) fun _ _ _ _ => trivial) trivial
    (fun _ _ _ _ _ => trivial) trivial
  have hedit : Run (clusterSystem 300) (AnyStep _) (Config.idle helloRunning) [.env]
      (Config.idle superseded) :=
    .snoc .nil trivial (.env ⟨_, rfl, rfl, .inr (by decide)⟩)
  obtain ⟨evs₂, hrun₂⟩ := run_reconcile (P := AnyStep _) (w := superseded) (.inr rfl)
    runs_failedEval trivial (fun _ _ _ _ _ => trivial) trivial
  obtain ⟨evs₃, hrun₃⟩ := run_reconcile (P := AnyStep _) (w := failedEval) (.inr rfl)
    runs_staleRunning trivial (fun _ _ _ _ _ => trivial) trivial
  have hrun := ((hrun₁.append hedit).append hrun₂).append hrun₃
  refine ⟨_, _, hrun, fun h => ?_⟩
  obtain ⟨wl, r, hwl, hgen, hr, hpath, -⟩ := h _ 2 rfl rfl rfl
  -- the spec of generation 2 is the new one, and only the old one was evaluated
  have hspec : wl.spec = staleRunning.object.spec :=
    (run_ordered hrun).oneSpec wl _ hwl (.inr rfl) hgen
  rw [hspec] at hr
  rcases hr with (hr | ⟨hreq, -⟩) | ⟨-, hr⟩
  · exact hr
  · exact absurd (congrArg EvalRequest.flakeRef hreq) (by decide)
  · cases hr

end Niphas
