import Niphas.Eval.Allowlist
import Niphas.Eval.Evaluator
import Niphas.Nix.CacheClient
import Niphas.Nix.NarInfoText

/-!
# Evaluation

`evaluator.rs`: a request is checked, handed to Nix, and the closure of what Nix answers is resolved
with the binary caches.

The parts that are not in the repository are parameters: the `nix eval` process with the JSON parser
for its output (`Nix`), the HTTP server behind each URL (`Server`), the cryptography.  `evaluate` is
the whole function for given parameters, and for a given order of events while the closure is
resolved; it has no value where these events do not come to an end.  A result may be an error of the
service or a panic, and panics come through from the parsers and from the deadline of the closure.

`AppError` has a variant for a path that is in no cache, and the documentation says that a workload
fails with it.  Between the client, which has the corresponding error, and the response, all errors
of the closure are turned into one.  So the variant is never reported, for any request and whatever
is outside, and the second result says what is.

* `neverMissing_evaluate` — no evaluation ends with `StorePathNotCached`.
* `evaluate_missing` — one that finds a path in no cache ends with `ClosureResolutionFailed`.
* `evaluate_unbuilt` — it does for a path that has not been built.
-/

namespace Niphas

/-! ## Nix -/

/-- `NixEvalResult`, which has the fields of `NixEvalOutput`. -/
structure NixEvalResult where
  storePath : String
  name : String
  mainProgram : Option String

/-- What becomes of the `nix eval` process.  Its output is what `from_utf8_lossy` makes of it. -/
inductive NixRun where
  | timedOut
  | notRun (e : String)
  | exited (success : Bool) (stdout stderr : String)

/-- The `nix eval` process for an expression, and the JSON parser for its output. -/
structure Nix where
  run : String → NixRun
  fromJson : String → Except String NixEvalResult

/-- How a call of the evaluator can fail. -/
inductive AppFault where
  | err (e : AppError)
  | panic
  deriving DecidableEq

/-- `Result<T, AppError>` of a function that may also panic. -/
abbrev AppResult (α : Type) := Except AppFault α

namespace AppResult

/-- `?` on an error of the core. -/
def ofCore {α : Type} : Except NiphasError α → AppResult α
  | .ok a => .ok a
  | .error e => .error (.err (.ofNiphasError e))

/-- `?` on an error of the eval service. -/
def ofExcept {α : Type} : Except AppError α → AppResult α
  | .ok a => .ok a
  | .error e => .error (.err e)

/-- `?` on a call that may panic. -/
def orPanic {α : Type} : Option (Except AppError α) → AppResult α
  | some r => ofExcept r
  | none => .error .panic

/-- `map_err` and `?` on a call of the core that may panic. -/
def mapErr {α : Type} (f : NiphasError → AppError) : Result α → AppResult α
  | .ok a => .ok a
  | .error (.err e) => .error (.err (f e))
  | .error .panic => .error .panic

end AppResult

/-! ## The evaluator -/

/-- What the evaluator reads of `NiphasConfig`.  The timeout is in nanoseconds. -/
structure EvaluatorConfig where
  binaryCaches : List CacheConfig
  allowedFlakeOrigins : List String
  concurrency : ℕ
  timeout : ℕ

/-- `Evaluator`. -/
structure Evaluator where
  config : EvaluatorConfig
  cacheClient : CacheClient
  warm : Bool

namespace Evaluator

/-- `Evaluator::new`. -/
def new (built : Except String Unit) (config : EvaluatorConfig) : Except NiphasError Evaluator :=
  match CacheClient.new built config.binaryCaches with
  | .ok cacheClient => .ok { config, cacheClient, warm := false }
  | .error e => .error e

/-- `nix_eval`. -/
def nixEval (nix : Nix) (pinnedRef «attribute» : String) : Except AppError NixEvalResult :=
  match nix.run (nixExpr pinnedRef «attribute») with
  | .timedOut => .error .evalTimeout
  | .notRun e => .error (.evalFailed ("failed to run nix eval: " ++ e))
  | .exited false _ stderr => .error (.evalFailed ("nix eval failed: " ++ stderr))
  | .exited true stdout _ =>
      match nix.fromJson stdout with
      | .ok parsed => .ok parsed
      | .error e => .error (.evalFailed ("failed to parse nix eval output: " ++ e))

/-- `evaluate` up to the root of the closure. -/
def resolveRoot (e : Evaluator) (nix : Nix) (req : EvalRequest) :
    AppResult (NixEvalResult × StorePath) := do
  AppResult.ofCore (validateEvalRequest req)
  AppResult.orPanic (Allowlist.validateFlakeRef req.flakeRef e.config.allowedFlakeOrigins)
  let evalResult ← AppResult.ofExcept (nixEval nix (pinnedRef req) req.«attribute»)
  let root ← AppResult.mapErr
    (fun err => .internal ("invalid store path from eval: " ++ err.toString))
    (StorePath.parse evalResult.storePath)
  return (evalResult, root)

/-- The call of `resolve_closure` in `evaluate`, at the instant `now`. -/
def resolveArgs (e : Evaluator) (lib : Crypto) (server : Server) (root : StorePath) (now : ℕ) :
    ResolveArgs where
  client := e.cacheClient.narInfoClient lib server
  root := root
  concurrency := e.config.concurrency
  now := now
  timeout := e.config.timeout

/-- What `evaluate` makes of the result of `resolve_closure`. -/
def respond (evalResult : NixEvalResult) (resolved : Result ResolvedClosure) :
    AppResult EvalResult := do
  let resolved ← AppResult.mapErr (fun err => .closureResolutionFailed err.toString) resolved
  return { storePath := evalResult.storePath
           name := evalResult.name
           mainProgram := evalResult.mainProgram
           closurePaths := resolved.paths }

/-- `evaluate`, where `evs` is what happens while the closure is resolved; there is no value when
that is not the end of it. -/
def evaluate (e : Evaluator) (lib : Crypto) (server : Server) (nix : Nix) (now : ℕ)
    (req : EvalRequest) (evs : List ResolveEvent) : Option (Evaluator × AppResult EvalResult) :=
  match e.resolveRoot nix req with
  | .error fault => some (e, .error fault)
  | .ok (evalResult, root) =>
      let args := e.resolveArgs lib server root now
      match (ResolveState.start args).run args evs with
      | some (.returned resolved) =>
          some ({ e with warm := e.warm || resolved.isOk }, respond evalResult resolved)
      | _ => none

variable {e e' : Evaluator} {lib : Crypto} {server : Server} {nix : Nix} {now : ℕ}
  {req : EvalRequest} {evs : List ResolveEvent} {out : AppResult EvalResult}

/-! ## No evaluation ends with `StorePathNotCached` -/

/-- `r` is not `StorePathNotCached`. -/
def NeverMissing {α : Type} (r : AppResult α) : Prop :=
  ∀ msg, r ≠ .error (.err (.storePathNotCached msg))

namespace NeverMissing

lemma ok {α : Type} (a : α) : NeverMissing (.ok a : AppResult α) := fun _ => nofun

lemma panic {α : Type} : NeverMissing (.error .panic : AppResult α) := fun _ => nofun

lemma bind {α β : Type} {r : AppResult α} {f : α → AppResult β} (hr : NeverMissing r)
    (hf : ∀ a, NeverMissing (f a)) : NeverMissing (r >>= f) := by
  cases r with
  | ok a => exact hf a
  | error fault => exact fun msg h => hr msg (congrArg Except.error (Except.error.inj h))

lemma mapErr {α : Type} {f : NiphasError → AppError} (hf : ∀ e msg, f e ≠ .storePathNotCached msg)
    (r : Result α) : NeverMissing (AppResult.mapErr f r) := by
  rcases r with (e | _) | a
  · exact fun msg h => hf e msg (AppFault.err.inj (Except.error.inj h))
  · exact panic
  · exact ok a

lemma validateEvalRequest (req : EvalRequest) :
    NeverMissing (AppResult.ofCore (Niphas.validateEvalRequest req)) := by
  cases h : Niphas.validateEvalRequest req with
  | ok u => exact ok u
  | error err =>
      obtain ⟨msg, rfl⟩ := Rejects.validateEvalRequest req err h
      exact fun _ => nofun

lemma validateFlakeRef (flakeRef : String) (allowlist : List String) :
    NeverMissing (AppResult.orPanic (Allowlist.validateFlakeRef flakeRef allowlist)) := by
  unfold Allowlist.validateFlakeRef
  split
  · exact fun _ => nofun
  · split
    · exact panic
    · exact ok ()
    · exact fun _ => nofun

lemma nixEval (nix : Nix) (pinnedRef «attribute» : String) :
    NeverMissing (AppResult.ofExcept (Evaluator.nixEval nix pinnedRef «attribute»)) := by
  unfold Evaluator.nixEval
  split
  · exact fun _ => nofun
  · exact fun _ => nofun
  · exact fun _ => nofun
  · split
    · exact ok _
    · exact fun _ => nofun

lemma resolveRoot (e : Evaluator) (nix : Nix) (req : EvalRequest) :
    NeverMissing (e.resolveRoot nix req) :=
  (validateEvalRequest req).bind fun _ => (validateFlakeRef _ _).bind fun _ =>
    (nixEval nix _ _).bind fun _ => (mapErr (fun _ _ h => by cases h) _).bind fun _ => ok _

lemma respond (evalResult : NixEvalResult) (resolved : Result ResolvedClosure) :
    NeverMissing (Evaluator.respond evalResult resolved) :=
  (mapErr (fun _ _ h => by cases h) resolved).bind fun _ => ok _

end NeverMissing

/-- **`StorePathNotCached` is never reported.** -/
theorem neverMissing_evaluate (h : e.evaluate lib server nix now req evs = some (e', out)) :
    NeverMissing out := by
  unfold evaluate at h
  split at h
  next fault hroot =>
    cases h
    intro msg hout
    cases hout
    exact NeverMissing.resolveRoot e nix req msg hroot
  next evalResult root _ =>
    simp only at h
    split at h
    · cases h
      exact NeverMissing.respond _ _
    · cases h

/-! ## A path that no cache has -/

/-- Every cache answers the request of the narinfo of `sp` with a status of 404. -/
def Missing (client : CacheClient) (server : Server) (sp : StorePath) : Prop :=
  ∀ cache ∈ client.caches, ∃ resp, server (cache.urlFor (sp.hashStr ++ ".narinfo")) = .ok resp ∧
    resp.status = 404

/-- The error of the client is the one for it, if it asks any cache at all. -/
lemma Missing.fetchNarinfo {client : CacheClient} {sp : StorePath} (h : Missing client server sp) :
    ∃ err, (client.narInfoClient lib server).fetchNarinfo sp = fail err ∧
      (client.caches ≠ [] → err = .storePathNotCached sp.toString) := by
  by_cases hne : client.caches = []
  · refine ⟨.cache "no binary caches configured", ?_, fun hne' => absurd hne hne'⟩
    change (tryCaches _ _ _ _ client.caches none).ask server = _
    rw [hne]
    rfl
  · refine ⟨_, ask_tryCaches_of_refused hne (fun cache hcache => ?_) none, fun _ => rfl⟩
    obtain ⟨resp, hanswer, hstatus⟩ := h cache hcache
    refine ⟨resp, hanswer, ?_, if_pos hstatus⟩
    rw [HttpResponse.isSuccess, hstatus]
    decide

section

variable {evalResult : NixEvalResult} {root : StorePath}

/-- Where Nix has answered, the rest is closure resolution. -/
lemma evaluate_of_resolveRoot (hroot : e.resolveRoot nix req = .ok (evalResult, root)) :
    e.evaluate lib server nix now req evs = some (e', out) ↔
      ∃ resolved, (ResolveState.start (e.resolveArgs lib server root now)).run
          (e.resolveArgs lib server root now) evs = some (.returned resolved) ∧
        e' = { e with warm := e.warm || resolved.isOk } ∧ out = respond evalResult resolved := by
  simp only [evaluate, hroot]
  split
  next resolved hrun =>
    rw [hrun]
    constructor
    · intro h
      cases h
      exact ⟨resolved, rfl, rfl, rfl⟩
    · rintro ⟨resolved', heq, rfl, rfl⟩
      cases heq
      rfl
  next hrun =>
    refine iff_of_false nofun ?_
    rintro ⟨resolved, hreturned, -⟩
    exact hrun resolved hreturned

/-- **A path that no cache has** makes the evaluation fail with `ClosureResolutionFailed`: in time
it ends with nothing else (but for a panic where the timeout is too long for a deadline), and over
finitely many paths it does end.  With or without time, it does not end with
`StorePathNotCached`. -/
theorem evaluate_missing (hroot : e.resolveRoot nix req = .ok (evalResult, root))
    (hmissing : ∃ sp, InClosure (e.cacheClient.narInfoClient lib server) root sp ∧
      Missing e.cacheClient server sp)
    (hothers : ∀ sp, InClosure (e.cacheClient.narInfoClient lib server) root sp →
      Missing e.cacheClient server sp ∨
        ∃ info, (e.cacheClient.narInfoClient lib server).fetchNarinfo sp = .ok info) :
    (∀ evs e' out, (∀ ev ∈ evs, ev.InTime (e.resolveArgs lib server root now)) →
      e.evaluate lib server nix now req evs = some (e', out) →
        (¬ (e.resolveArgs lib server root now).HasDeadline ∧ out = .error .panic) ∨
        ∃ sp err, Missing e.cacheClient server sp ∧
          (e.cacheClient.caches ≠ [] → err = .storePathNotCached sp.toString) ∧
          out = .error (.err (.closureResolutionFailed (NiphasError.toString (.closureResolution
            ("failed to resolve " ++ sp.toString ++ ": " ++ NiphasError.toString err)))))) ∧
    (1 ≤ e.config.concurrency →
      {sp | InClosure (e.cacheClient.narInfoClient lib server) root sp}.Finite →
        ∃ evs e' out, (∀ ev ∈ evs, ev.InTime (e.resolveArgs lib server root now)) ∧
          e.evaluate lib server nix now req evs = some (e', out)) ∧
    ∀ evs e' out, e.evaluate lib server nix now req evs = some (e', out) → NeverMissing out := by
  refine ⟨fun evs e' out hevs h => ?_, fun hc hfin => ?_,
    fun evs e' out => neverMissing_evaluate⟩
  · obtain ⟨resolved, hrun, -, rfl⟩ := (evaluate_of_resolveRoot hroot).mp h
    by_cases hdeadline : (e.resolveArgs lib server root now).HasDeadline
    swap
    · obtain ⟨-, hpanic⟩ := ResolveState.run_overflow hdeadline hrun
      cases hpanic
      exact .inl ⟨hdeadline, rfl⟩
    refine .inr ?_
    have hstart := ResolveState.sound_start hdeadline
    have hsound := hstart.run hevs hrun
    have hblamed := ResolveState.blamed_run hstart (ResolveState.blamed_start hdeadline) hevs hrun
    cases resolved with
    | ok resolved =>
        obtain ⟨sp, hsp, hnot⟩ := hmissing
        obtain ⟨err, hfetch, -⟩ := @Missing.fetchNarinfo lib _ _ _ hnot
        obtain ⟨info, hinfo⟩ := hsound.2 sp hsp
        cases hfetch.symm.trans hinfo
    | error fault =>
        obtain ⟨sp, hsp, hfault⟩ := hblamed
        rcases hothers sp hsp with hnot | ⟨info, hinfo⟩
        · obtain ⟨err, hfetch, herr⟩ := @Missing.fetchNarinfo lib _ _ _ hnot
          rcases hfault with ⟨hpanic, -⟩ | ⟨err', hfetch', rfl⟩
          · cases hfetch.symm.trans hpanic
          · cases hfetch.symm.trans hfetch'
            exact ⟨sp, err, hnot, herr, rfl⟩
        · -- the path it failed at was not fetched
          rcases hfault with ⟨hpanic, -⟩ | ⟨err', hfetch, -⟩
          · cases hinfo.symm.trans hpanic
          · cases hinfo.symm.trans hfetch
  · obtain ⟨evs, r, hevs, hrun⟩ := @ResolveState.exists_returned
      (e.resolveArgs lib server root now) hc hfin
    exact ⟨evs, _, _, hevs, (evaluate_of_resolveRoot hroot).mpr ⟨r, hrun, rfl, rfl⟩⟩

end

/-! ## A path that is not there -/

/-- An evaluator with one cache. -/
def oneCache : Evaluator where
  config :=
    { binaryCaches := [⟨"https://cache.nixos.org", 40⟩], allowedFlakeOrigins := ["github:NixOS/*"]
      concurrency := 32, timeout := 60000000000 }
  cacheClient := ⟨[⟨"https://cache.nixos.org", 40⟩]⟩
  warm := false

/-- A server that has nothing. -/
def emptyServer : Server := fun _ =>
  .ok { status := 404, statusText := "404 Not Found", text := .ok "", bytes := .ok [] }

/-- What Nix answers. -/
def unbuilt : NixEvalResult :=
  { storePath := (StorePath.zeroHashed "hello-2.12").toString, name := "hello-2.12"
    mainProgram := some "hello" }

/-- Nix answers it. -/
def unbuiltNix : Nix where
  run _ := .exited true "" ""
  fromJson _ := .ok unbuilt

/-- The request. -/
def helloRequest : EvalRequest := ⟨"github:NixOS/nixpkgs", "hello", none, none⟩

lemma new_oneCache : Evaluator.new (.ok ()) oneCache.config = .ok oneCache := by
  simp [Evaluator.new, CacheClient.new, oneCache, byPriority]

lemma resolveRoot_hello :
    oneCache.resolveRoot unbuiltNix helloRequest =
      .ok (unbuilt, StorePath.zeroHashed "hello-2.12") := by
  have hvalid : validateEvalRequest helloRequest = .ok () := by decide
  have hallow : Allowlist.validateFlakeRef helloRequest.flakeRef
      oneCache.config.allowedFlakeOrigins = some (.ok ()) := by decide
  rw [resolveRoot, hvalid, hallow]
  rfl

lemma missing_emptyServer (sp : StorePath) : Missing oneCache.cacheClient emptyServer sp :=
  fun _ _ => ⟨_, rfl, rfl⟩

/-- The path is the only one that is looked for. -/
lemma inClosure_emptyServer {root sp : StorePath}
    (h : InClosure (oneCache.cacheClient.narInfoClient NarInfo.zeroLib emptyServer) root sp) :
    sp = root := by
  cases h with
  | root => rfl
  | @step a succs _ _ hexpand _ =>
      obtain ⟨err, hfetch, -⟩ := @Missing.fetchNarinfo NarInfo.zeroLib _ _ _ (missing_emptyServer a)
      rw [expandPath, hfetch] at hexpand
      cases hexpand

/-- It ends. -/
theorem evaluate_missing_hello :
    ∃ evs e' out, oneCache.evaluate NarInfo.zeroLib emptyServer unbuiltNix 0 helloRequest evs =
      some (e', out) ∧ NeverMissing out := by
  obtain ⟨-, hends, hnever⟩ := @evaluate_missing oneCache NarInfo.zeroLib emptyServer unbuiltNix 0
    helloRequest _ _ resolveRoot_hello ⟨_, .root, missing_emptyServer _⟩
    fun sp _ => .inl (missing_emptyServer sp)
  obtain ⟨evs, e', out, -, h⟩ := hends (by decide)
    ((Set.finite_singleton (StorePath.zeroHashed "hello-2.12")).subset fun _ =>
      inClosure_emptyServer)
  exact ⟨evs, e', out, h, hnever evs e' out h⟩

/-- **The documented error is not reported** for a path that has not been built. -/
theorem evaluate_unbuilt :
    Evaluator.new (.ok ()) oneCache.config = .ok oneCache ∧
      oneCache.resolveRoot unbuiltNix helloRequest =
        .ok (unbuilt, StorePath.zeroHashed "hello-2.12") ∧
      Missing oneCache.cacheClient emptyServer (StorePath.zeroHashed "hello-2.12") ∧
      oneCache.evaluate NarInfo.zeroLib emptyServer unbuiltNix 0 helloRequest
        [.poll 0, .fetched (StorePath.zeroHashed "hello-2.12")] =
      some (oneCache, .error (.err (.closureResolutionFailed ("closure resolution failed: " ++
        "failed to resolve /nix/store/00000000000000000000000000000000-hello-2.12: " ++
        "store path not cached: /nix/store/00000000000000000000000000000000-hello-2.12")))) := by
  refine ⟨new_oneCache, resolveRoot_hello, missing_emptyServer _, ?_⟩
  refine (evaluate_of_resolveRoot resolveRoot_hello).mpr ⟨_, rfl, rfl, ?_⟩
  decide +kernel

end Evaluator

end Niphas
