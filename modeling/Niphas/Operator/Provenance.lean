import Niphas.Csi.Download
import Niphas.Csi.VolumeContext
import Niphas.Eval.Evaluate
import Niphas.Nix.ClosureSchedules
import Niphas.Operator.ReconcileScript
import Niphas.Operator.RolloutRuns

/-!
# Where the children come from

What a node mounts is what the Deployment names, and nobody looks at it again on the way.  So it
matters what a Deployment can name, whatever the reconciles have done: with stale snapshots, with
results read back from the status, after failed writes and crashes, and with several operators at a
time.

The way of a store path has two halves.  The first is in the eval service: its checks, its call of
Nix, and the closure it resolves.  All of it is a function of what is found outside, at the time of
the evaluation (`Evaluator.Outside`), and `Evaluator.Vetted` says what that is for a path and a
closure: it is Nix as it was then that has named the path, and the caches as they were then that had
the narinfos.  The second half is in the operator, where a result is copied from an answer to a
status, from a status to a result, and from a result to a manifest, in reconciles that overlap.
`Traced` is the invariant of all of these copies.

Signatures play no part in this.  The caches are asked, and neither the evaluation nor the operator
verifies what they say.

* `Evaluator.Vetted` — what is behind a store path and its closure when an evaluator has answered
  with it.
* `Traced` — the invariant: each child there is rendered from a version of the workload and from an
  answer to the request of a version.
* `deployment_vetted` — so a Deployment mounts nothing but such closures.
* `children_owned` — and every child belongs to the workload, and selects its pods.
-/

namespace Niphas

open System

/-! ## The evaluator

The request an evaluator answers is the one its checks have accepted, and each part of what it
answers is tied to something outside: the store path to the run of Nix, the closure to the caches.
-/

namespace AppResult

variable {α β : Type}

lemma of_bind {x : AppResult α} {f : α → AppResult β} {b : β} (h : x >>= f = .ok b) :
    ∃ a, x = .ok a ∧ f a = .ok b := by
  cases x with
  | ok a => exact ⟨a, rfl, h⟩
  | error fault => cases h

lemma of_ofCore {r : Except NiphasError α} {a : α} (h : ofCore r = .ok a) : r = .ok a := by
  cases r with
  | ok b => exact congrArg Except.ok (Except.ok.inj h)
  | error e => cases h

lemma of_ofExcept {r : Except AppError α} {a : α} (h : ofExcept r = .ok a) : r = .ok a := by
  cases r with
  | ok b => exact congrArg Except.ok (Except.ok.inj h)
  | error e => cases h

lemma of_orPanic {r : Option (Except AppError α)} {a : α} (h : orPanic r = .ok a) :
    r = some (.ok a) := by
  cases r with
  | some r => exact congrArg some (of_ofExcept h)
  | none => cases h

lemma of_mapErr {f : NiphasError → AppError} {r : Result α} {a : α} (h : mapErr f r = .ok a) :
    r = .ok a := by
  rcases r with (e | _) | b
  · cases h
  · cases h
  · exact congrArg Except.ok (Except.ok.inj h)

end AppResult

namespace Evaluator

/-- The evaluator has been made from this configuration. -/
def MadeFrom (config : EvaluatorConfig) (e : Evaluator) : Prop :=
  ∃ built made, Evaluator.new built config = .ok made ∧ e = { made with warm := e.warm }

/-- What an evaluation finds outside: what Nix does, what the caches serve, and the libraries that
check it. -/
structure Outside where
  nix : Nix
  server : Server
  crypto : Crypto

/-- The configured caches, as they are. -/
def Outside.client (x : Outside) (config : EvaluatorConfig) : NarInfoClient :=
  (CacheClient.mk (byPriority config.binaryCaches)).narInfoClient x.crypto x.server

/-- Such an evaluator answers the request with `r`, when it finds `x`. -/
def Answers (config : EvaluatorConfig) (x : Outside) (req : EvalRequest) (r : EvalResult) : Prop :=
  ∃ e now evs e', MadeFrom config e ∧
    e.evaluate x.crypto x.server x.nix now req evs = some (e', .ok r)

/-- It does at some time of a run, in which `outside` is what there is to be found. -/
def Serves (config : EvaluatorConfig) (outside : Set Outside) (req : EvalRequest)
    (r : EvalResult) : Prop := ∃ x ∈ outside, Answers config x req r

/-- What is behind a store path and a closure where `x` is found: an accepted request to an allowed
flake, the path that Nix names for it, and the narinfos of its whole closure in the configured
caches. -/
structure Vetted (config : EvaluatorConfig) (x : Outside) (req : EvalRequest) (storePath : String)
    (closurePaths : List String) : Prop where
  accepted : validateEvalRequest req = .ok ()
  allowed : Allowlist.validateFlakeRef req.flakeRef config.allowedFlakeOrigins = some (.ok ())
  evaluated : ∃ out, nixEval x.nix (pinnedRef req) req.«attribute» = .ok out ∧
    out.storePath = storePath
  closure : ∃ (root : StorePath) (c : ResolvedClosure), StorePath.parse storePath = .ok root ∧
    c.paths = closurePaths ∧ c.Is (x.client config) root ∧ AllFetched (x.client config) root

variable {config : EvaluatorConfig} {x : Outside} {e : Evaluator} {req : EvalRequest}
  {r : EvalResult}

lemma MadeFrom.eq (h : MadeFrom config e) :
    e.config = config ∧ e.cacheClient = ⟨byPriority config.binaryCaches⟩ := by
  obtain ⟨built, made, hmade, he⟩ := h
  rw [he]
  rcases built with err | ⟨⟩
  · cases hmade
  · cases hmade
    exact ⟨rfl, rfl⟩

/-- What the checks in front of the closure have passed. -/
lemma of_resolveRoot {nix : Nix} {out : NixEvalResult} {root : StorePath}
    (h : e.resolveRoot nix req = .ok (out, root)) :
    validateEvalRequest req = .ok () ∧
      Allowlist.validateFlakeRef req.flakeRef e.config.allowedFlakeOrigins = some (.ok ()) ∧
      nixEval nix (pinnedRef req) req.«attribute» = .ok out ∧
      StorePath.parse out.storePath = .ok root := by
  obtain ⟨⟨⟩, hvalid, h⟩ := AppResult.of_bind h
  obtain ⟨⟨⟩, hallow, h⟩ := AppResult.of_bind h
  obtain ⟨out', hnix, h⟩ := AppResult.of_bind h
  obtain ⟨root', hparse, h⟩ := AppResult.of_bind h
  cases h
  exact ⟨AppResult.of_ofCore hvalid, AppResult.of_orPanic hallow, AppResult.of_ofExcept hnix,
    AppResult.of_mapErr hparse⟩

/-- **What an evaluator answers with has been vetted**, on whatever schedule the closure has been
resolved. -/
lemma Answers.vetted (h : Answers config x req r) :
    Vetted config x req r.storePath r.closurePaths := by
  obtain ⟨e, now, evs, e', hmade, heval⟩ := h
  obtain ⟨hconfig, hclient⟩ := hmade.eq
  cases hroot : e.resolveRoot x.nix req with
  | error fault =>
      rw [evaluate, hroot] at heval
      cases heval
  | ok answer =>
      obtain ⟨out, root⟩ := answer
      obtain ⟨hvalid, hallow, hnix, hparse⟩ := of_resolveRoot hroot
      obtain ⟨resolved, hrun, -, hrespond⟩ := (evaluate_of_resolveRoot hroot).mp heval
      obtain ⟨c, hc, hr⟩ := AppResult.of_bind hrespond.symm
      cases hr
      obtain rfl := AppResult.of_mapErr hc
      obtain ⟨his, hall⟩ := ResolveState.explained_run hrun
      rw [hconfig] at hallow
      simp only [resolveArgs, hclient] at his hall
      exact ⟨hvalid, hallow, ⟨out, hnix, rfl⟩, root, c, hparse, rfl, his, hall⟩

end Evaluator

/-! ## The webhook -/

/-- The results the webhook may answer a request with. -/
abbrev WebhookAnswers := EvalRequest → EvalResult → Prop

/-- It answers with one of them. -/
def KubeOp.ServedBy (answers : WebhookAnswers) :
    (o : KubeOp) → kubeInterface.Answer o → Prop
  | .evaluate req, reply => ∀ r, reply = .success (.ok r) → answers req r
  | _, _ => True

/-- The runs in which it does. -/
def EvaluatedBy {timeoutSecs : ℕ} (answers : WebhookAnswers)
    (_ : (rolloutSystem timeoutSecs).Config) : (rolloutSystem timeoutSecs).Event → Prop
  | .op _ o r => o.ServedBy answers r
  | _ => True

/-! ## What is traced

A result may be in three places: on its way from the webhook to the reconcile that has asked, in a
status of some version, and in a child.  From each of them it can be copied to the next.  The
invariant says of all three that the result is an answer to the request of a version of the
workload; the first is known of a reconcile, by its notes.
-/

/-- What is there after an apply: the child, or what was there before. -/
lemma Children.get_apply_eq_some {w : Children} {child : ChildManifest} {kind : ChildKind}
    {name ns : String} {manifest : Json} (h : (w.apply child).get kind name ns = some manifest) :
    (kind = child.kind ∧ name = child.name ∧ ns = child.ns ∧ manifest = child.manifest) ∨
      w.get kind name ns = some manifest := by
  rcases Option.or_eq_some_iff.mp h with hat | ⟨-, hget⟩
  · rw [ChildManifest.at] at hat
    split at hat
    next hsame =>
      cases hat
      exact .inl ⟨hsame.1, hsame.2.1, hsame.2.2, rfl⟩
    · cases hat
  · exact .inr hget

/-- A child of a workload is what is rendered of one kind. -/
lemma rendered_of_mem {wl : NiphasWorkload} {r : EvalResult} {child : ChildManifest}
    (h : child ∈ childManifests wl r) : ∃ kind manifest, rendered wl r kind = some manifest ∧
      child = { kind, name := childName wl.nameAny kind, ns := wl.ns, manifest } := by
  have hkind : ∀ kind, child ∈ (renderedManifest wl r kind).toList →
      ∃ kind manifest, rendered wl r kind = some manifest ∧
        child = { kind, name := childName wl.nameAny kind, ns := wl.ns, manifest } := by
    intro kind hmem
    obtain ⟨manifest, hrendered, heq⟩ := Option.map_eq_some_iff.mp (Option.mem_toList.mp hmem)
    exact ⟨kind, manifest, hrendered, heq.symm⟩
  rw [childManifests_eq] at h
  simp only [List.mem_append] at h
  rcases h with ((h | h) | h) | h
  all_goals exact hkind _ h

namespace Cluster

/-- The store path and the closure are those of an answer to the request of a version. -/
def Sourced (w : Cluster) (storePath : String) (closurePaths : List String) : Prop :=
  ∃ g, w.Resolved g storePath closurePaths

/-- So are those of a status, where it has any. -/
def StatusTraced (w : Cluster) (st : NiphasWorkloadStatus) : Prop :=
  ∀ storePath, st.storePath = some storePath →
    ∃ closurePaths, st.closurePaths = some closurePaths ∧ w.Sourced storePath closurePaths

/-- A patch that keeps a status so. -/
def PatchTraced (w : Cluster) (patch : StatusPatch) : Prop :=
  patch.storePath = none ∧ patch.closurePaths = none ∨
    ∃ storePath closurePaths, patch.storePath = some storePath ∧
      patch.closurePaths = some closurePaths ∧ w.Sourced storePath closurePaths

variable {w w' : Cluster} {storePath : String} {closurePaths : List String}

lemma Sourced.mono (h : w.Sourced storePath closurePaths) (hw : w.Grows w') :
    w'.Sourced storePath closurePaths := h.imp fun _ hres => hres.mono hw

lemma StatusTraced.mono {st : NiphasWorkloadStatus} (h : w.StatusTraced st) (hw : w.Grows w') :
    w'.StatusTraced st := by
  intro storePath hpath
  obtain ⟨closurePaths, hclosure, hsourced⟩ := h storePath hpath
  exact ⟨closurePaths, hclosure, hsourced.mono hw⟩

lemma StatusTraced.patch {st : NiphasWorkloadStatus} (h : w.StatusTraced st) {patch : StatusPatch}
    (hpatch : w.PatchTraced patch) : w.StatusTraced (patch.apply st) := by
  intro storePath hpath
  rcases hpatch with ⟨hnone, hnone'⟩ | ⟨storePath', closurePaths, hsome, hsome', hsourced⟩
  · have hst : st.storePath = some storePath := by rwa [StatusPatch.apply, hnone] at hpath
    obtain ⟨closurePaths, hclosure, hsourced⟩ := h storePath hst
    refine ⟨closurePaths, ?_, hsourced⟩
    rw [StatusPatch.apply, hnone']
    exact hclosure
  · have hst : some storePath' = some storePath := by rwa [StatusPatch.apply, hsome] at hpath
    obtain rfl := Option.some.inj hst
    refine ⟨closurePaths, ?_, hsourced⟩
    rw [StatusPatch.apply, hsome']
    rfl

/-- The results in all statuses there have been. -/
def StatusesTraced (w : Cluster) : Prop :=
  ∀ wl st, w.versions wl → wl.status = some st → w.StatusTraced st

lemma StatusesTraced.store (h : w.StatusesTraced) {obj : NiphasWorkload}
    (hobj : ∀ st, obj.status = some st → w.StatusTraced st) : (w.store obj).StatusesTraced := by
  rintro wl st (hwl | rfl) hst
  · exact (h wl st hwl hst).mono (w.grows_store obj)
  · exact (hobj st hst).mono (w.grows_store wl)

/-- The status as it is stored. -/
lemma StatusesTraced.current (h : w.StatusesTraced) (hw : w.versions w.object) :
    w.StatusTraced (w.object.status.getD {}) := by
  cases hst : w.object.status with
  | none => exact fun _ hpath => by cases hpath
  | some st => exact h _ st hw hst

end Cluster

namespace Rollout

/-- A child is rendered from a version of the workload, with a result that is so. -/
def ChildTraced (w : Rollout) (kind : ChildKind) (name ns : String) (manifest : Json) : Prop :=
  ∃ wl r, w.cluster.versions wl ∧ w.cluster.Sourced r.storePath r.closurePaths ∧
    name = childName wl.nameAny kind ∧ ns = wl.ns ∧ rendered wl r kind = some manifest

/-- What is traced: all results in a status and in a child to an answer. -/
structure Traced (answers : WebhookAnswers) (w : Rollout) : Prop extends w.Base where
  served : ∀ req r, w.cluster.evaluated req r → answers req r
  statuses : w.cluster.StatusesTraced
  children : ∀ kind name ns manifest, w.children.get kind name ns = some manifest →
    w.ChildTraced kind name ns manifest

/-- What a reconcile of `wl` knows from its notes. -/
def Knows (w : Rollout) (wl : NiphasWorkload) (s : Script) : Prop :=
  w.cluster.versions wl ∧
    ∀ r, s.answer = some r → w.cluster.evaluated (EvalRequest.ofSpec wl.spec) r

variable {answers : WebhookAnswers} {w w' : Rollout} {wl : NiphasWorkload} {s : Script}

lemma ChildTraced.mono {kind : ChildKind} {name ns : String} {manifest : Json}
    (h : w.ChildTraced kind name ns manifest) (hw : w.cluster.Grows w'.cluster) :
    w'.ChildTraced kind name ns manifest := by
  obtain ⟨wl, r, hwl, hsourced, hchild⟩ := h
  exact ⟨wl, r, hw.versions wl hwl, hsourced.mono hw, hchild⟩

lemma Knows.mono (h : w.Knows wl s) (hw : w.cluster.Grows w'.cluster) : w'.Knows wl s :=
  ⟨hw.versions wl h.1, fun r hr => hw.evaluated _ r (h.2 r hr)⟩

/-! ## The calls of the script -/

/-- The result a reconcile works with. -/
lemma Traced.sourced (hw : w.Traced answers) (hknows : w.Knows wl s) {r : EvalResult}
    (hr : s.HasResult wl r) : w.cluster.Sourced r.storePath r.closurePaths := by
  obtain ⟨hwl, hanswer⟩ := hknows
  rcases hr with hr | ⟨-, -, hr⟩
  · exact ⟨wl.generation, wl, r, hwl, rfl, hanswer r hr, rfl, rfl⟩
  · obtain ⟨hpath, hclosure⟩ := EvalResult.fromStatus_eq_some hr
    cases hst : wl.status with
    | none =>
        rw [hst] at hpath
        cases hpath
    | some st =>
        rw [hst] at hpath hclosure
        obtain ⟨closurePaths, hpaths, hsourced⟩ := hw.statuses wl st hwl hst _ hpath
        have heq : r.closurePaths = closurePaths := by
          rw [hclosure, Option.getD_some, hpaths, Option.getD_some]
        rwa [heq]

lemma Traced.patchTraced (hw : w.Traced answers) (hknows : w.Knows wl s) {name : String}
    {patch : StatusPatch} (hnext : Script.Next wl s (.patchStatus name patch)) :
    w.cluster.PatchTraced patch := by
  cases hnext with
  | evaluating | provisioning | failed => exact .inl ⟨rfl, rfl⟩
  | status hr => exact .inr ⟨_, _, rfl, rfl, hw.sourced hknows hr⟩

lemma Traced.childTraced (hw : w.Traced answers) (hknows : w.Knows wl s) {child : ChildManifest}
    (hnext : Script.Next wl s (.apply child)) :
    w.ChildTraced child.kind child.name child.ns child.manifest := by
  cases hnext with
  | @apply r _ rest hr _ hall =>
      have hmem : child ∈ childManifests wl r := by
        rw [hall]
        exact List.mem_append_right _ List.mem_cons_self
      obtain ⟨kind, manifest, hrendered, rfl⟩ := rendered_of_mem hmem
      exact ⟨wl, r, hknows.1, hw.sourced hknows hr, rfl, rfl, hrendered⟩

/-! ## Every step -/

/-- The children after a call of the script. -/
lemma Traced.children_call (hw : w.Traced answers) (hknows : w.Knows wl s) {o : KubeOp}
    (hnext : Script.Next wl s o) {r : kubeInterface.Answer o} {children : Children}
    (h : o.ChildSem w.children r children) {kind : ChildKind} {name ns : String} {manifest : Json}
    (hget : children.get kind name ns = some manifest) : w.ChildTraced kind name ns manifest := by
  have hold : children = w.children → w.ChildTraced kind name ns manifest := by
    rintro rfl
    exact hw.children kind name ns manifest hget
  cases o with
  | apply child =>
      rcases h with rfl | ⟨-, heq⟩
      · rcases Children.get_apply_eq_some hget with ⟨rfl, rfl, rfl, rfl⟩ | hget
        · exact hw.childTraced hknows hnext
        · exact hw.children kind name ns manifest hget
      · exact hold heq
  | _ => exact hold h

/-- The statuses after it. -/
lemma Traced.statuses_call (hw : w.Traced answers) (hknows : w.Knows wl s) {o : KubeOp}
    (hnext : Script.Next wl s o) {r : kubeInterface.Answer o} {cluster : Cluster}
    (h : o.Sem w.cluster r cluster) : cluster.StatusesTraced := by
  cases o with
  | patchStatus name patch =>
      rcases h with rfl | ⟨-, rfl⟩
      · refine hw.statuses.store ?_
        rintro _ ⟨⟩
        exact (hw.statuses.current hw.current).patch (hw.patchTraced hknows hnext)
      · exact hw.statuses
  | patchFinalizers name finalizers =>
      rcases h with rfl | ⟨-, rfl⟩
      · exact hw.statuses.store fun st hst => hw.statuses _ st hw.current hst
      · exact hw.statuses
  | evaluate req =>
      cases h
      exact fun wl st hwl hst => (hw.statuses wl st hwl hst).mono (w.cluster.grows_record req r)
  | _ =>
      cases h
      exact hw.statuses

/-- The answers there have been after it. -/
lemma Traced.served_call (hw : w.Traced answers) {o : KubeOp} {r : kubeInterface.Answer o}
    {cluster : Cluster} (hserved : o.ServedBy answers r) (h : o.Sem w.cluster r cluster) :
    ∀ req r, cluster.evaluated req r → answers req r := by
  cases o with
  | patchStatus name patch =>
      rcases h with rfl | ⟨-, rfl⟩
      · exact hw.served
      · exact hw.served
  | patchFinalizers name finalizers =>
      rcases h with rfl | ⟨-, rfl⟩
      · exact hw.served
      · exact hw.served
  | evaluate req =>
      cases h
      rintro req' r' (hold | ⟨rfl, hreply⟩)
      · exact hw.served req' r' hold
      · exact hserved r' hreply
  | _ =>
      cases h
      exact hw.served

/-- The notes after it. -/
lemma Knows.call (hknows : w.Knows wl s) {o : KubeOp} (hnext : Script.Next wl s o)
    {r : kubeInterface.Answer o} {cluster : Cluster} {children : Children} {p : ℕ}
    (h : o.Sem w.cluster r cluster) :
    Knows { w.note p o with cluster, children } wl (s.note o r) := by
  have hgrows := (KubeOp.Sem.versions h).1
  refine ⟨hgrows.versions wl hknows.1, fun a ha => ?_⟩
  have hold : s.answer = some a → cluster.evaluated (EvalRequest.ofSpec wl.spec) a :=
    fun hs => hgrows.evaluated _ a (hknows.2 a hs)
  cases o with
  | evaluate req =>
      cases hnext with
      | evaluate hs =>
          cases h
          rcases r with ⟨_, _⟩ | (_ | r) | ⟨_, _, _⟩
          · exact hold ha
          · exact hold ha
          · cases ha
            exact .inr ⟨rfl, rfl⟩
          · exact hold ha
  | patchStatus name patch | apply child =>
      rcases r with e | ⟨⟩
      · exact hold ha
      · exact hold ha
  | _ => exact hold ha

/-- **Step lemma.** -/
lemma Traced.call (hw : w.Traced answers) (hknows : w.Knows wl s) {p : ℕ} {o : KubeOp}
    (hnext : Script.Next wl s o) {r : kubeInterface.Answer o} (hserved : o.ServedBy answers r)
    (h : o.Effect p w r w') :
    w'.Traced answers ∧ w'.Knows wl (s.note o r) ∧ w.cluster.Grows w'.cluster := by
  have hbase := hw.toBase.effect h
  obtain ⟨cluster, children, hs, hc, -, rfl⟩ := h
  have hgrows := (KubeOp.Sem.versions hs).1
  refine ⟨⟨hbase, hw.served_call hserved hs, hw.statuses_call hknows hnext hs, ?_⟩,
    hknows.call hnext hs, hgrows⟩
  intro kind name ns manifest hget
  exact (hw.children_call hknows hnext hc hget).mono hgrows

lemma Traced.env (hw : w.Traced answers) (h : Env w w') :
    w'.Traced answers ∧ w.cluster.Grows w'.cluster := by
  have hbase := (hw.toBase.env h).1
  cases h with
  | edit hedit hsame =>
      obtain ⟨obj, rfl, hstatus, hfollows⟩ := hedit
      have hgrows := w.cluster.grows_store obj
      refine ⟨⟨hbase, hw.served, hw.statuses.store fun st hst => ?_, ?_⟩, hgrows⟩
      · exact hw.statuses w.object st hw.current (hstatus.symm.trans hst)
      · exact fun kind name ns manifest hget =>
          (hw.children kind name ns manifest hget).mono hgrows
  | _ => exact ⟨⟨hbase, hw.served, hw.statuses, hw.children⟩, .refl _⟩

lemma traced_created (hwl : wl.status = none) : (created wl).Traced answers := by
  refine ⟨base_created wl, nofun, ?_, fun _ _ _ _ hget => by cases hget⟩
  rintro _ st rfl hst
  rw [hwl] at hst
  cases hst

/-! ## Every run -/

/-- What is shown of the reconciles of the runs in which an evaluator answers. -/
def tracedTerms (timeoutSecs : ℕ) (answers : WebhookAnswers) :
    Monitor.Terms (rolloutSystem timeoutSecs) scriptMonitor where
  ok := Script.Next
  post := Script.Ends
  config _ := True
  step := EvaluatedBy answers

/-- The account of where the children come from. -/
def tracedAccount (timeoutSecs : ℕ) (answers : WebhookAnswers) :
    Monitor.Account (S := rolloutSystem timeoutSecs) scriptMonitor
      (tracedTerms timeoutSecs answers) where
  inv w := w.Traced answers
  knows w _ wl s := w.Knows wl s
  start _ _ _ hw hbegin := by
    obtain ⟨hwl, rfl⟩ := hbegin
    exact ⟨⟨⟨hw.toOrdered, hw.same⟩, hw.served, hw.statuses, hw.children⟩,
      ⟨hwl, nofun⟩, fun _ _ _ _ _ h => h⟩
  op _ hserved _ hw hknows hnext heffect := by
    obtain ⟨hw', hknows', hgrows⟩ := hw.call hknows hnext hserved heffect
    exact ⟨hw', hknows', fun _ _ _ _ _ h => h.mono hgrows⟩
  env hw henv := by
    obtain ⟨hw', hgrows⟩ := hw.env henv
    exact ⟨hw', fun _ _ _ h => h.mono hgrows⟩
  crash hw hcrash := by
    cases hcrash
    exact hw

/-- **Run lemma.** -/
lemma traced_run {timeoutSecs : ℕ} (hwl : wl.status = none)
    {evs : List (rolloutSystem timeoutSecs).Event} {c : (rolloutSystem timeoutSecs).Config}
    (hrun : Run (rolloutSystem timeoutSecs) (EvaluatedBy answers) (Config.idle (created wl)) evs
      c) :
    c.world.Traced answers :=
  ((tracedAccount timeoutSecs answers).run (fun _ _ _ => trivial) (follows_reconcile timeoutSecs)
    trivial (traced_created hwl) hrun).inv

/-- **A Deployment mounts what has been vetted**: in every state of every run, its volume names the
closure an evaluator has answered with for the spec of a version of the workload.  At that time Nix
named the store path for the spec, and the caches had every path of its closure. -/
theorem deployment_vetted {timeoutSecs : ℕ} {config : EvaluatorConfig}
    {outside : Set Evaluator.Outside} (hwl : wl.status = none)
    {evs : List (rolloutSystem timeoutSecs).Event} {c : (rolloutSystem timeoutSecs).Config}
    (hrun : Run (rolloutSystem timeoutSecs) (EvaluatedBy (Evaluator.Serves config outside))
      (Config.idle (created wl)) evs c) {name ns : String} {manifest : Json}
    (hget : c.world.children.get .deployment name ns = some manifest) :
    ∃ rolled asked r, c.world.cluster.versions rolled ∧ c.world.cluster.versions asked ∧
      manifest = buildDeployment rolled r name ns ∧
      volumeContextOf manifest = [("closurePaths", String.intercalate "," r.closurePaths)] ∧
      ∃ x ∈ outside, Evaluator.Vetted config x (.ofSpec asked.spec) r.storePath r.closurePaths := by
  have htraced := traced_run hwl hrun
  obtain ⟨rolled, r, hrolled, ⟨g, asked, a, hasked, -, ha, hpath, hclosure⟩, rfl, rfl, hmanifest⟩ :=
    htraced.children _ _ _ _ hget
  obtain rfl := Option.some.inj hmanifest
  refine ⟨rolled, asked, r, hrolled, hasked, rfl, volumeContextOf_buildDeployment _ _ _ _, ?_⟩
  obtain ⟨x, hx, hanswers⟩ := htraced.served _ _ ha
  rw [hpath, hclosure]
  exact ⟨x, hx, hanswers.vetted⟩

/-! ## A Deployment of a closure of two paths

A program and a library it refers to, from an allowed flake, in a cache that has both.  The
evaluation is run from the request to the result, and the reconcile from there to the Deployment.
-/

/-- The calls of the runs in which the webhook answers so. -/
abbrev ServedCall (timeoutSecs : ℕ) (answers : WebhookAnswers) :
    (rolloutSystem timeoutSecs).OpCond := fun _ o r _ => o.ServedBy answers r

/-- From the begin to the end of the applies. -/
lemma goes_served {timeoutSecs p : ℕ} {r : EvalResult} (hpending : Pending wl)
    (hneeds : needsEval wl wl.observed wl.generation) (hr : answers (.ofSpec wl.spec) r)
    (hlone : Lone wl r) (w : Rollout) :
    Goes (rolloutSystem timeoutSecs) (ServedCall timeoutSecs answers) p
      (reconcile timeoutSecs wl).run w (reportStatus wl r).run
        ((w.evaluated wl r).deployed p wl r) := by
  have hpublish : ∀ (type : EventType) (reason note : String) (w : Rollout),
      Rolls timeoutSecs p (ServedCall timeoutSecs answers)
        (OperatorM.op (.publishEvent type reason note)) w () w := fun _ _ _ w =>
    Solo.liftExcept (S := rolloutSystem timeoutSecs) ⟨w.cluster, w.children, rfl, rfl, trivial, rfl⟩
      trivial
  let w₁ : Rollout := { w with cluster := w.cluster.patchStatus (phasePatch .evaluating) }
  have hs : KubeOp.Effect p (.evaluate (.ofSpec wl.spec)) w₁ (.success (.ok r))
      { w₁ with cluster := w₁.cluster.record (.ofSpec wl.spec) (.success (.ok r)) } :=
    ⟨_, w.children, rfl, rfl, trivial, rfl⟩
  have hserved : KubeOp.ServedBy answers (.evaluate (.ofSpec wl.spec)) (.success (.ok r)) := by
    rintro _ ⟨⟩
    exact hr
  rw [hpending.reconcile_eq, if_pos hneeds]
  refine Solo.thenExcept (Solo.bindExcept (rolls_patchStatus trivial) (Solo.bindExcept
    (hpublish _ _ _ _) (Solo.bindExcept (Solo.liftExcept hs hserved) (Solo.bindExcept
      (hpublish _ _ _ _) .pure)))) ?_
  refine Solo.thenExcept (rolls_patchStatus trivial) ?_
  exact Solo.thenExcept (Solo.bind (solo_applyChildren hlone fun _ _ => trivial) .pure) .refl

/-- A workload of an allowed flake. -/
def allowedWorkload : NiphasWorkload :=
  { helloWorkload with spec := { flakeRef := "github:NixOS/nixpkgs", «attribute» := "hello" } }

/-- The path of the workload. -/
abbrev allowedRoot : StorePath := .zeroHashed "hello-2.12"

/-- The path it refers to. -/
def glibcPath : StorePath := ⟨List.replicate 20 255, "glibc-2.40", rfl⟩

def glibcRef : StorePathRef := NarInfo.refOf glibcPath (by decide)

/-- What the evaluator answers for the workload. -/
def allowedResult : EvalResult :=
  { storePath := Evaluator.unbuilt.storePath, name := "hello-2.12", mainProgram := some "hello"
    closurePaths := [Evaluator.unbuilt.storePath, glibcPath.toString] }

/-- The narinfos of the two; both refer to themselves too. -/
def allowedInfo : NarInfo := .zeroInfo [NarInfo.zeroRef, glibcRef]

def glibcInfo : NarInfo := { NarInfo.zeroInfo [glibcRef] with storePath := glibcPath }

/-- The cache has both. -/
def allowedServer : Server := fun url =>
  if url = "https://cache.nixos.org/" ++ zerosHash ++ ".narinfo" then
    .ok (found allowedInfo.render [])
  else if url = "https://cache.nixos.org/" ++ glibcPath.hashStr ++ ".narinfo" then
    .ok (found glibcInfo.render [])
  else .error "connection refused"

/-- What the evaluator finds outside. -/
def allowedOutside : Evaluator.Outside :=
  { nix := Evaluator.unbuiltNix, server := allowedServer, crypto := prefixLibraries.toCrypto }

/-- The call that resolves the closure. -/
def allowedArgs : ResolveArgs :=
  Evaluator.oneCache.resolveArgs prefixLibraries.toCrypto allowedServer allowedRoot 0

lemma fetchNarinfo_allowed : allowedArgs.client.fetchNarinfo allowedRoot = .ok allowedInfo := by
  have hask : (CacheClient.fetchNarinfo prefixLibraries.toCrypto Evaluator.oneCache.cacheClient
      allowedRoot).ask allowedServer =
        CacheClient.readNarinfo prefixLibraries.toCrypto (found allowedInfo.render []) := by
    rw [CacheClient.fetchNarinfo]
    refine ask_tryCaches_of_success ?_ rfl [] none
    have hurl : CacheConfig.urlFor ⟨"https://cache.nixos.org", 40⟩
        (allowedRoot.hashStr ++ ".narinfo") =
          "https://cache.nixos.org/" ++ zerosHash ++ ".narinfo" := by decide +kernel
    rw [hurl, allowedServer, if_pos rfl]
  have hzero := @NarInfo.renderable_zeroInfo [NarInfo.zeroRef, glibcRef] (by decide +kernel)
  have hrender : NarInfo.Renderable prefixLibraries.toCrypto allowedInfo := { hzero with }
  exact hask.trans (NarInfo.parse_render_of_references hrender (List.cons_ne_nil _ _))

lemma fetchNarinfo_glibc : allowedArgs.client.fetchNarinfo glibcPath = .ok glibcInfo := by
  have hask : (CacheClient.fetchNarinfo prefixLibraries.toCrypto Evaluator.oneCache.cacheClient
      glibcPath).ask allowedServer =
        CacheClient.readNarinfo prefixLibraries.toCrypto (found glibcInfo.render []) := by
    rw [CacheClient.fetchNarinfo]
    refine ask_tryCaches_of_success ?_ rfl [] none
    have hurl : CacheConfig.urlFor ⟨"https://cache.nixos.org", 40⟩
        (glibcPath.hashStr ++ ".narinfo") =
          "https://cache.nixos.org/" ++ glibcPath.hashStr ++ ".narinfo" := by decide +kernel
    rw [hurl, allowedServer, if_neg (by decide +kernel), if_pos rfl]
  have hzero := @NarInfo.renderable_zeroInfo [glibcRef] (by decide +kernel)
  have hrender : NarInfo.Renderable prefixLibraries.toCrypto glibcInfo :=
    { hzero with name := NarInfo.IsValue.of_forall (by decide) (by decide) }
  exact hask.trans (NarInfo.parse_render_of_references hrender (List.cons_ne_nil _ _))

/-- So the closure is the two paths. -/
lemma run_allowed : ∃ c, (ResolveState.start allowedArgs).run allowedArgs
    [.poll 0, .fetched allowedRoot, .poll 0, .fetched glibcPath, .poll 0] =
        some (.returned (.ok c)) ∧ c.paths = allowedResult.closurePaths := by
  let l₁ : ClosureLoop := { ClosureLoop.start allowedRoot with
    visited := {allowedRoot.toString}, queue := [], futures := [allowedRoot] }
  let l₂ : ClosureLoop := { l₁ with
    queue := [glibcPath], order := [allowedRoot.toString], futures := []
    narinfos := AList.insert allowedRoot.toString allowedInfo ∅ }
  let l₃ : ClosureLoop := { l₂ with
    visited := {glibcPath.toString, allowedRoot.toString}, queue := [], futures := [glibcPath] }
  let l₄ : ClosureLoop := { l₃ with
    order := [allowedRoot.toString, glibcPath.toString], futures := []
    narinfos := l₃.narinfos.insert glibcPath.toString glibcInfo }
  have h₁ : (ResolveState.start allowedArgs).step allowedArgs (.poll 0) = some (.running l₁) :=
    rfl
  have h₂ : (ResolveState.running l₁).step allowedArgs (.fetched allowedRoot) =
      some (.running l₂) := by
    have hrefs : (allowedInfo.references.map StorePathRef.path).filter
        (·.toString ∉ l₁.visited) = [glibcPath] := by decide +kernel
    rw [ResolveState.step, if_pos (List.mem_singleton.mpr rfl),
      ClosureLoop.complete_eq_ok fetchNarinfo_allowed, hrefs]
    rfl
  have h₃ : (ResolveState.running l₂).step allowedArgs (.poll 0) = some (.running l₃) := by
    have hnew : glibcPath.toString ∉ l₂.visited := by decide +kernel
    have hlaunch : l₂.nextBatch allowedArgs.concurrency = l₃ := by
      change ClosureLoop.launch { l₂ with queue := [] } glibcPath = l₃
      rw [ClosureLoop.launch, if_neg hnew]
      rfl
    have hnow : ¬ allowedArgs.deadline < 0 := Nat.not_lt_zero _
    rw [ResolveState.step, if_neg (not_not_intro rfl), if_neg (List.cons_ne_nil _ _), if_neg hnow,
      hlaunch]
  have h₄ : (ResolveState.running l₃).step allowedArgs (.fetched glibcPath) =
      some (.running l₄) := by
    have hrefs : (glibcInfo.references.map StorePathRef.path).filter
        (·.toString ∉ l₃.visited) = [] := by decide +kernel
    rw [ResolveState.step, if_pos (List.mem_singleton.mpr rfl),
      ClosureLoop.complete_eq_ok fetchNarinfo_glibc, hrefs]
    rfl
  have h₅ : (ResolveState.running l₄).step allowedArgs (.poll 0) =
      some (.returned (.ok { narinfos := l₄.narinfos, paths := l₄.order })) := by
    rw [ResolveState.step, if_neg (not_not_intro rfl), if_pos rfl]
  refine ⟨{ narinfos := l₄.narinfos, paths := l₄.order }, ?_, rfl⟩
  rw [ResolveState.run, h₁, Option.bind_some, ResolveState.run, h₂, Option.bind_some,
    ResolveState.run, h₃, Option.bind_some, ResolveState.run, h₄, Option.bind_some,
    ResolveState.run, h₅, Option.bind_some, ResolveState.run]

/-- What happens while it is resolved. -/
def allowedEvents : List ResolveEvent :=
  [.poll 0, .fetched allowedRoot, .poll 0, .fetched glibcPath, .poll 0]

lemma evaluate_allowed : ∃ e, Evaluator.oneCache.evaluate prefixLibraries.toCrypto allowedServer
    Evaluator.unbuiltNix 0 (.ofSpec allowedWorkload.spec) allowedEvents =
      some (e, .ok allowedResult) := by
  obtain ⟨c, hrun, hpaths⟩ := run_allowed
  have hout : Evaluator.respond Evaluator.unbuilt (.ok c) = .ok allowedResult := by
    have hresult : allowedResult = { allowedResult with closurePaths := c.paths } := by
      rw [hpaths]
    rw [hresult]
    rfl
  exact ⟨_, (Evaluator.evaluate_of_resolveRoot Evaluator.resolveRoot_hello).mpr
    ⟨_, hrun, rfl, hout.symm⟩⟩

lemma madeFrom_oneCache : Evaluator.MadeFrom Evaluator.oneCache.config Evaluator.oneCache :=
  ⟨.ok (), _, Evaluator.new_oneCache, rfl⟩

lemma serves_allowed : Evaluator.Serves Evaluator.oneCache.config {allowedOutside}
    (.ofSpec allowedWorkload.spec) allowedResult := by
  obtain ⟨e, heval⟩ := evaluate_allowed
  exact ⟨allowedOutside, rfl, Evaluator.oneCache, _, _, e, madeFrom_oneCache, heval⟩

/-- Its Deployment is applied. -/
theorem deployment_vetted_allowed :
    ∃ evs c manifest, Run (rolloutSystem 300)
        (EvaluatedBy (Evaluator.Serves Evaluator.oneCache.config {allowedOutside}))
        (Config.idle (created allowedWorkload)) evs c ∧
      c.world.children.get .deployment "hello" "apps" = some manifest ∧
      volumeContextOf manifest =
        [("closurePaths", String.intercalate "," allowedResult.closurePaths)] ∧
      ∃ rolled asked r, c.world.cluster.versions rolled ∧ c.world.cluster.versions asked ∧
        manifest = buildDeployment rolled r "hello" "apps" ∧
        volumeContextOf manifest = [("closurePaths", String.intercalate "," r.closurePaths)] ∧
        ∃ x ∈ ({allowedOutside} : Set Evaluator.Outside), Evaluator.Vetted
          Evaluator.oneCache.config x (.ofSpec asked.spec) r.storePath r.closurePaths := by
  have hfree : Free (EvaluatedBy (Evaluator.Serves Evaluator.oneCache.config {allowedOutside}))
      (ServedCall 300 (Evaluator.Serves Evaluator.oneCache.config {allowedOutside})) :=
    ⟨fun _ _ _ => trivial, fun _ => trivial, fun _ _ _ _ h => h⟩
  have hpending : Pending allowedWorkload := ⟨rfl, by decide, fun h => by cases h.2⟩
  have hinit : Reaches (rolloutSystem 300)
      (EvaluatedBy (Evaluator.Serves Evaluator.oneCache.config {allowedOutside}))
      (Config.idle (created allowedWorkload)) (Config.idle (created allowedWorkload)) := .refl _
  have h₁ := reaches_start (p := 0) trivial hinit rfl rfl
  obtain ⟨evs, hrun⟩ := reaches_goes (p := 0) hfree h₁ rfl
    (goes_served hpending rfl serves_allowed rfl _)
  exact ⟨evs, _, _, hrun, rfl, volumeContextOf_buildDeployment _ _ _ _,
    deployment_vetted rfl hrun rfl⟩

end Rollout

/-! ## Whose they are

This does not depend on what the webhook answers: it follows from the versions being of one object.
-/

/-- The labels a child selects pods by. -/
def childSelector : ChildKind → Json → Json
  | .service, manifest => (manifest.get "spec").get "selector"
  | _, manifest => ((manifest.get "spec").get "selector").get "matchLabels"

/-- The Services an Ingress hands requests to. -/
def ingressBackends (manifest : Json) : List Json :=
  ((manifest.get "spec").get "rules").items.flatMap fun rule =>
    ((rule.get "http").get "paths").items.map fun path => (path.get "backend").get "service"

/-- A child is the workload's: the workload owns it, under its own name, and it is about the pods
with the workload's label, which those of the Deployment have. -/
structure Owned (wl : NiphasWorkload) (kind : ChildKind) (name ns : String) (manifest : Json) :
    Prop where
  name_eq : name = childName wl.nameAny kind
  ns_eq : ns = wl.ns
  named : (manifest.get "metadata").get "name" = .str name
  namespaced : (manifest.get "metadata").get "namespace" = .str ns
  owner : (manifest.get "metadata").get "ownerReferences" = .arr [ownerReference wl]
  selector : kind ≠ .ingress → childSelector kind manifest = workloadSelector wl.nameAny
  backends : kind = .ingress →
    ∀ service ∈ ingressBackends manifest, service.get "name" = .str wl.nameAny
  labels : kind = .deployment → ∀ key value, (workloadSelector wl.nameAny).get key = .str value →
    (((podTemplate manifest).get "metadata").get "labels").get key = .str value

/-- An Ingress hands its requests to the workload's Service. -/
lemma backends_buildIngress (wl : NiphasWorkload) (i : NiphasIngressSpec) :
    ∀ service ∈ ingressBackends (buildIngress wl i wl.nameAny wl.ns),
      service.get "name" = .str wl.nameAny := by
  have hrules : ((buildIngress wl i wl.nameAny wl.ns).get "spec").get "rules"
      = (i.hosts.map fun hosts => .arr (hosts.map (buildIngressHost wl.nameAny))).getD .null := by
    obtain ⟨enabled, className, hosts, tls⟩ := i
    cases className <;> cases hosts <;> cases tls <;> rfl
  intro service hmem
  obtain ⟨rule, hrule, hpaths⟩ := List.mem_flatMap.mp hmem
  obtain ⟨path, hpath, rfl⟩ := List.mem_map.mp hpaths
  rw [hrules] at hrule
  cases hhosts : i.hosts with
  | none =>
      rw [hhosts] at hrule
      cases hrule
  | some hosts =>
      rw [hhosts] at hrule
      obtain ⟨host, -, rfl⟩ := List.mem_map.mp hrule
      obtain ⟨p, -, rfl⟩ := List.mem_map.mp hpath
      rfl

lemma owned_rendered {wl : NiphasWorkload} {r : EvalResult} {kind : ChildKind} {manifest : Json}
    (h : rendered wl r kind = some manifest) :
    Owned wl kind (childName wl.nameAny kind) wl.ns manifest := by
  cases kind with
  | deployment =>
      cases h
      refine ⟨rfl, rfl, rfl, rfl, rfl, fun _ => rfl, fun hkind => (by cases hkind),
        fun _ key value hkey => ?_⟩
      have hlabels : ((podTemplate (buildDeployment wl r wl.nameAny wl.ns)).get "metadata").get
          "labels" = childLabels wl.nameAny := rfl
      rw [hlabels]
      by_cases hlabel : key = "niphas.io/workload"
      · subst hlabel
        exact hkey
      · have hnone : (workloadSelector wl.nameAny).get key = .null := by
          simp [workloadSelector, Json.get, Json.find, Ne.symm hlabel]
        cases hnone.symm.trans hkey
  | service =>
      obtain ⟨s, -, rfl⟩ := Option.map_eq_some_iff.mp h
      exact ⟨rfl, rfl, rfl, rfl, rfl, fun _ => rfl, fun hkind => (by cases hkind),
        fun hkind => (by cases hkind)⟩
  | ingress =>
      obtain ⟨i, -, rfl⟩ := Option.map_eq_some_iff.mp h
      refine ⟨rfl, rfl, rfl, rfl, rfl, fun hne => absurd rfl hne, fun _ => ?_,
        fun hkind => (by cases hkind)⟩
      exact backends_buildIngress wl i
  | podDisruptionBudget =>
      rw [rendered] at h
      split at h
      · cases h
        exact ⟨rfl, rfl, rfl, rfl, rfl, fun _ => rfl, fun hkind => (by cases hkind),
          fun hkind => (by cases hkind)⟩
      · cases h

/-- Versions of one object own the same. -/
lemma Owned.of_sameObject {wl wl' : NiphasWorkload} {kind : ChildKind} {name ns : String}
    {manifest : Json} (h : Owned wl' kind name ns manifest) (hsame : wl'.SameObject wl) :
    Owned wl kind name ns manifest := by
  obtain ⟨hname, hns, huid⟩ := hsame
  have howner : ownerReference wl' = ownerReference wl := by
    simp only [ownerReference, hname, huid]
  obtain ⟨hname_eq, hns_eq, hnamed, hnamespaced, howned, hselector, hbackends, hlabels⟩ := h
  rw [hname] at hname_eq hselector hbackends hlabels
  rw [hns] at hns_eq
  rw [howner] at howned
  exact ⟨hname_eq, hns_eq, hnamed, hnamespaced, howned, hselector, hbackends, hlabels⟩

namespace Rollout

/-- It is watched that all children are the workload's. -/
def ownedWatch (timeoutSecs : ℕ) (wl : NiphasWorkload) : Watch timeoutSecs where
  inv w := w.object.SameObject wl ∧ ∀ kind name ns manifest,
    w.children.get kind name ns = some manifest → Owned wl kind name ns manifest
  allowed _ _ _ _ := True
  begin_ok _ h := h
  op_ok {w w' p o r} hbase hw hjust _ h := by
    obtain ⟨cluster, children, hs, hc, -, rfl⟩ := h
    refine ⟨(KubeOp.Sem.versions hs).2.1.trans hw.1, fun kind name ns manifest hget => ?_⟩
    have hold : children = w.children → Owned wl kind name ns manifest := by
      rintro rfl
      exact hw.2 kind name ns manifest hget
    cases o with
    | apply child =>
        obtain ⟨version, result, hversion, hmem⟩ := hjust
        obtain ⟨kind', manifest', hrendered, rfl⟩ := rendered_of_mem hmem
        have howned := (owned_rendered hrendered).of_sameObject ((hbase.same _ hversion).trans hw.1)
        rcases hc with rfl | ⟨-, heq⟩
        · rcases Children.get_apply_eq_some hget with ⟨rfl, rfl, rfl, rfl⟩ | hget
          · exact howned
          · exact hw.2 kind name ns manifest hget
        · exact hold heq
    | _ => exact hold hc
  env_ok _ hw h := by
    cases h with
    | edit _ hsame => exact ⟨hsame.trans hw.1, hw.2⟩
    | _ => exact hw

section

variable {timeoutSecs : ℕ}
  {P : (rolloutSystem timeoutSecs).Config → (rolloutSystem timeoutSecs).Event → Prop}
  {evs : List (rolloutSystem timeoutSecs).Event} {c : (rolloutSystem timeoutSecs).Config}

lemma owned_run (hrun : Run (rolloutSystem timeoutSecs) P (Config.idle (created wl)) evs c) :
    c.world.Base ∧ (ownedWatch timeoutSecs wl).inv c.world := by
  have hwatch : Run (rolloutSystem timeoutSecs) (ownedWatch timeoutSecs wl).Allows
      (Config.idle (created wl)) evs c := hrun.imp fun c ev _ => by cases ev <;> trivial
  exact (ownedWatch timeoutSecs wl).run (base_created wl) ⟨.refl _, fun _ _ _ _ h => by cases h⟩
    hwatch

/-- **The children are the workload's**, in every state of every run: they belong to it, and they
are all about the pods of its Deployment. -/
theorem children_owned (hrun : Run (rolloutSystem timeoutSecs) P (Config.idle (created wl)) evs c)
    {kind : ChildKind} {name ns : String} {manifest : Json}
    (hget : c.world.children.get kind name ns = some manifest) :
    Owned wl kind name ns manifest := (owned_run hrun).2.2 kind name ns manifest hget

end

/-- The Deployment of the first rollout. -/
theorem children_owned_hello :
    ∃ evs c manifest, Run (rolloutSystem 300) (AnyStep (rolloutSystem 300))
        (Config.idle (created helloWorkload)) evs c ∧
      c.world.children.get .deployment "hello" "apps" = some manifest ∧
      Owned helloWorkload .deployment "hello" "apps" manifest := by
  obtain ⟨evs, hrun⟩ := reaches_helloRolled free_anyStep modest_anyCall trivial
    (fun _ _ => trivial) trivial
  exact ⟨evs, _, _, hrun, rfl, children_owned hrun rfl⟩

end Rollout

end Niphas
