import Niphas.Lib.Worklist
import Niphas.Nix.Fingerprint
import Mathlib.Data.Finset.Image
import Mathlib.Data.List.AList

/-!
# Closure resolution

`closure.rs`.  `resolve_closure` is a loop with an inner loop: it takes a batch of store paths off
its queue, starts a fetch for each one not seen before, and then takes up the results in the order
in which the fetches complete.  The model is a state machine with one event for each point at which
the environment has a say: `poll` is the head of the outer loop (it reads the clock) and
`fetched sp` is the completion of one fetch.

The deadline is the sum of an `Instant` and a `Duration`, and this addition panics when it
overflows, before the loop is reached.  On Linux an `Instant` is a `Timespec` with its seconds in an
`i64`, so there is a first instant that does not exist (`instantEnd`), and with a timeout of about
2^63 seconds the call has no deadline.  `ResolveArgs.HasDeadline` is about the arguments alone, and
what a call does is said for both cases.

`ClosureLoop.Sim` connects the loop to the batched search of `Worklist`: the strings the code keeps
are those of the nodes the search has visited, and `StorePath.toString_injective` is why working on
strings makes no difference.  What holds of a search (its invariant, that it ends, what it has found
when nothing is left to do) is proved there, and carried over by the simulation.

The client is a parameter, as in the source.  It answers with a narinfo, an error, or a panic,
always with the same one for the same path.

* `resolveClosure_correct` — over a finite reference graph, a call does what it should exactly when
  it has a deadline: it ends, it returns `Ok` just when every fetch in the closure succeeds, and
  then it returns the closure.
* `resolveClosure_overflow` — a call without a deadline.
* `Blamed` — which fetch the error of a call is about.
-/

namespace Niphas

/-- The part of `BinaryCacheClient` that `resolve_closure` calls: what the fetch of a `.narinfo`
returns. -/
structure NarInfoClient where
  fetchNarinfo : StorePath → Result NarInfo

/-- `ResolvedClosure`. -/
structure ResolvedClosure where
  narinfos : AList fun _ : String => NarInfo
  paths : List String

/-- The local variables of `resolve_closure`. -/
structure ClosureLoop where
  visited : Finset String
  narinfos : AList fun _ : String => NarInfo
  order : List String
  queue : List StorePath
  /-- The fetches in flight. -/
  futures : List StorePath

namespace ClosureLoop

/-- The variables before the loop. -/
def start (root : StorePath) : ClosureLoop :=
  { visited := ∅, narinfos := ∅, order := [], queue := [root], futures := [] }

/-- The body of `for sp in &batch`. -/
def launch (l : ClosureLoop) (sp : StorePath) : ClosureLoop :=
  let spStr := sp.toString
  if spStr ∈ l.visited then l
  else { l with visited := insert spStr l.visited, futures := l.futures ++ [sp] }

/-- One turn of the outer loop, up to the point where it waits for the fetches. -/
def nextBatch (concurrency : ℕ) (l : ClosureLoop) : ClosureLoop :=
  let n := min l.queue.length concurrency
  (l.queue.take n).foldl launch { l with queue := l.queue.drop n }

/-- The body of `for ref_basename in &narinfo.references`: an invalid reference is skipped. -/
def enqueue (visited : Finset String) (queue : List StorePath) (ref : StorePathRef) :
    Result (List StorePath) :=
  let refPathStr := ref.toStorePathString
  if refPathStr ∈ visited then .ok queue
  else
    match StorePath.parse refPathStr with
    | .ok refSp => .ok (queue ++ [refSp])
    | .error (.err _) => .ok queue
    | .error .panic => .error .panic

/-- The body of the inner loop, for the fetch of `sp`. -/
def complete (client : NarInfoClient) (l : ClosureLoop) (sp : StorePath) : Result ClosureLoop := do
  let spStr := sp.toString
  match client.fetchNarinfo sp with
  | .ok narinfo =>
      let queue ← narinfo.references.foldlM (enqueue l.visited) l.queue
      return { l with
        queue
        order := l.order ++ [spStr]
        narinfos := l.narinfos.insert spStr narinfo
        futures := l.futures.erase sp }
  | .error (.err e) =>
      fail (.closureResolution ("failed to resolve " ++ spStr ++ ": " ++ e.toString))
  | .error .panic => .error .panic

end ClosureLoop

/-- The arguments of `resolve_closure`, with the instant of the call.  Times are nanoseconds. -/
structure ResolveArgs where
  client : NarInfoClient
  root : StorePath
  concurrency : ℕ
  now : ℕ
  timeout : ℕ

/-- The first instant that there is not: a `Timespec` counts its seconds in an `i64`. -/
def instantEnd : ℕ := 2 ^ 63 * 1000000000

namespace ResolveArgs

/-- `Instant::now() + timeout`, if there is such an instant. -/
def deadline (a : ResolveArgs) : ℕ := a.now + a.timeout

/-- The addition does not overflow. -/
def HasDeadline (a : ResolveArgs) : Prop := a.deadline < instantEnd

instance (a : ResolveArgs) : Decidable a.HasDeadline := Nat.decLt _ _

/-- `Duration::as_secs` of the timeout. -/
def timeoutSecs (a : ResolveArgs) : ℕ := a.timeout / 1000000000

end ResolveArgs

/-- A call of `resolve_closure`: in its loop, or returned. -/
inductive ResolveState where
  | running (l : ClosureLoop)
  | returned (r : Result ResolvedClosure)

/-- What makes a call go on. -/
inductive ResolveEvent where
  /-- The head of the outer loop, at the instant `now`. -/
  | poll (now : ℕ)
  /-- The fetch of `sp` completes. -/
  | fetched (sp : StorePath)

namespace ResolveState

/-- The call up to its loop.  `Instant::now() + timeout` panics if it overflows. -/
def start (a : ResolveArgs) : ResolveState :=
  if a.HasDeadline then .running (.start a.root) else .returned (.error .panic)

/-- `resolve_closure`, one event at a time.  The inner loop runs until no fetch is in flight, so
the head of the outer loop is reached only then. -/
def step (a : ResolveArgs) : ResolveState → ResolveEvent → Option ResolveState
  | .running l, .poll now =>
      if l.futures ≠ [] then none
      else if l.queue = [] then
        some (.returned (.ok { narinfos := l.narinfos, paths := l.order }))
      else if a.deadline < now then
        some (.returned (fail (.timeout
          ("closure resolution timed out after " ++ Nat.repr a.timeoutSecs ++ "s"))))
      else some (.running (l.nextBatch a.concurrency))
  | .running l, .fetched sp =>
      if sp ∈ l.futures then
        match l.complete a.client sp with
        | .ok l' => some (.running l')
        | .error e => some (.returned (.error e))
      else none
  | .returned _, _ => none

/-- The call after a sequence of events, if it can take them all. -/
def run (a : ResolveArgs) : ResolveState → List ResolveEvent → Option ResolveState
  | s, [] => some s
  | s, ev :: evs => (s.step a ev).bind fun s' => s'.run a evs

end ResolveState

/-- The events of a call whose deadline is not hit. -/
def ResolveEvent.InTime (a : ResolveArgs) : ResolveEvent → Prop
  | .poll now => now ≤ a.deadline
  | .fetched _ => True

/-! ## The search behind the loop

The loop keeps strings, and the search keeps paths.  The loop skips a reference that does not parse,
and the search has no such case; a reference always parses, so the branch is never taken.
-/

/-- Where a fetch of a `.narinfo` leads: to the paths it references. -/
def expandPath (client : NarInfoClient) (sp : StorePath) : Except Fault (List StorePath) :=
  (client.fetchNarinfo sp).map fun info => info.references.map StorePathRef.path

/-- The paths reachable from the root through the references of fetched `.narinfo`s. -/
abbrev InClosure (client : NarInfoClient) (root : StorePath) : StorePath → Prop :=
  Worklist.Reachable (expandPath client) root

lemma expandPath_eq_ok {client : NarInfoClient} {sp : StorePath} {info : NarInfo}
    (h : client.fetchNarinfo sp = .ok info) :
    expandPath client sp = .ok (info.references.map StorePathRef.path) := by
  rw [expandPath, h]
  rfl

namespace ClosureLoop

/-- The loop is in the state of a search: it holds the strings of the nodes visited and finished,
and the `.narinfo` of every finished node. -/
structure Sim (client : NarInfoClient) (l : ClosureLoop) (w : Worklist.State StorePath) : Prop where
  visited : l.visited = w.visited.image StorePath.toString
  order : l.order = w.order.map StorePath.toString
  queue : l.queue = w.queue
  futures : l.futures = w.inFlight
  narinfos : ∀ s info, l.narinfos.lookup s = some info ↔
    ∃ p ∈ w.order, p.toString = s ∧ client.fetchNarinfo p = .ok info

variable {client : NarInfoClient} {l : ClosureLoop} {w : Worklist.State StorePath}

lemma Sim.start (root : StorePath) :
    Sim client (ClosureLoop.start root) (Worklist.State.start root) where
  visited := rfl
  order := rfl
  queue := rfl
  futures := rfl
  narinfos s info := by simp [ClosureLoop.start, Worklist.State.start]

/-- Looking up a path's string finds out whether the path has been visited. -/
lemma Sim.toString_mem_visited (h : Sim client l w) (p : StorePath) :
    p.toString ∈ l.visited ↔ p ∈ w.visited := by
  rw [h.visited, Finset.mem_image]
  exact ⟨fun ⟨q, hq, heq⟩ => StorePath.toString_injective heq ▸ hq, fun hp => ⟨p, hp, rfl⟩⟩

lemma Sim.launch (h : Sim client l w) (sp : StorePath) :
    Sim client (l.launch sp) (w.visit sp) := by
  unfold ClosureLoop.launch Worklist.State.visit
  by_cases hsp : sp ∈ w.visited
  · simp only [if_pos hsp, if_pos ((h.toString_mem_visited sp).mpr hsp)]
    exact h
  · simp only [if_neg hsp, if_neg (mt (h.toString_mem_visited sp).mp hsp)]
    exact { h with
      visited := by rw [h.visited, Finset.image_insert]
      futures := by rw [h.futures] }

lemma Sim.foldl_launch (batch : List StorePath) :
    ∀ {l : ClosureLoop} {w : Worklist.State StorePath}, Sim client l w →
      Sim client (batch.foldl ClosureLoop.launch l) (batch.foldl Worklist.State.visit w) := by
  induction batch with
  | nil => exact fun h => h
  | cons sp batch ih => exact fun h => ih (h.launch sp)

/-- `drain(..len.min(concurrency))` takes the batch of the search. -/
lemma Sim.nextBatch (h : Sim client l w) (concurrency : ℕ) :
    Sim client (l.nextBatch concurrency) (w.batch concurrency) := by
  have htake : l.queue.take (min l.queue.length concurrency) = w.queue.take concurrency := by
    rw [h.queue, Nat.min_comm, ← List.take_eq_take_min]
  have hdrop : l.queue.drop (min l.queue.length concurrency) = w.queue.drop concurrency := by
    rw [h.queue]
    rcases Nat.le_total concurrency w.queue.length with hle | hle
    · rw [Nat.min_eq_right hle]
    · rw [Nat.min_eq_left hle, List.drop_length, List.drop_eq_nil_of_le hle]
  rw [ClosureLoop.nextBatch, Worklist.State.batch, htake, hdrop]
  exact Sim.foldl_launch _ { h with queue := rfl }

/-- The branch that skips an invalid reference is never taken. -/
lemma enqueue_eq (visited : Finset String) (queue : List StorePath) (ref : StorePathRef) :
    enqueue visited queue ref =
      .ok (queue ++ if ref.path.toString ∈ visited then [] else [ref.path]) := by
  rw [enqueue, StorePathRef.parse_toStorePathString, StorePathRef.toString_path]
  split
  · rw [List.append_nil]
  · rfl

lemma foldlM_enqueue (visited : Finset String) (refs : List StorePathRef) :
    ∀ queue : List StorePath, refs.foldlM (enqueue visited) queue =
      .ok (queue ++ (refs.map StorePathRef.path).filter (·.toString ∉ visited)) := by
  induction refs with
  | nil => exact fun queue => by rw [List.map_nil, List.filter_nil, List.append_nil]; rfl
  | cons ref refs ih =>
      intro queue
      rw [List.foldlM_cons, enqueue_eq]
      change refs.foldlM (enqueue visited) _ = _
      rw [ih, List.append_assoc, List.map_cons, List.filter_cons]
      by_cases h : ref.path.toString ∈ visited
      · simp [h]
      · simp [h]

lemma complete_eq_ok {sp : StorePath} {info : NarInfo}
    (hfetch : client.fetchNarinfo sp = .ok info) :
    l.complete client sp = .ok { l with
      queue := l.queue ++
        (info.references.map StorePathRef.path).filter (·.toString ∉ l.visited)
      order := l.order ++ [sp.toString]
      narinfos := l.narinfos.insert sp.toString info
      futures := l.futures.erase sp } := by
  simp only [complete, hfetch, foldlM_enqueue]
  rfl

/-- The completion of a fetch is the end of an expansion. -/
lemma Sim.complete (h : Sim client l w) {sp : StorePath} {info : NarInfo}
    (hfetch : client.fetchNarinfo sp = .ok info) :
    ∃ l', l.complete client sp = .ok l' ∧
      Sim client l' (w.finish sp (info.references.map StorePathRef.path)) := by
  refine ⟨_, complete_eq_ok hfetch, h.visited, ?_, ?_, ?_, fun s info' => ?_⟩
  · change l.order ++ [sp.toString] = (w.order ++ [sp]).map _
    rw [h.order, List.map_append]
    rfl
  · rw [h.queue]
    simp only [h.toString_mem_visited]
    rfl
  · rw [h.futures]
    rfl
  · change (l.narinfos.insert sp.toString info).lookup s = some info' ↔ ∃ p ∈ w.order ++ [sp], _
    by_cases hs : s = sp.toString
    · subst hs
      rw [AList.lookup_insert, Option.some.injEq]
      constructor
      · rintro rfl
        exact ⟨sp, by simp, rfl, hfetch⟩
      · rintro ⟨p, -, heq, hp⟩
        rw [StorePath.toString_injective heq, hfetch] at hp
        exact Except.ok.inj hp
    · rw [AList.lookup_insert_ne hs, h.narinfos]
      refine exists_congr fun p => ?_
      simp only [List.mem_append, List.mem_singleton]
      constructor
      · exact fun ⟨hp, hrest⟩ => ⟨.inl hp, hrest⟩
      · rintro ⟨hp | rfl, heq, hp'⟩
        · exact ⟨hp, heq, hp'⟩
        · exact absurd heq.symm hs

end ClosureLoop

/-! ## What a call returns

The order of the paths in a result is that of the fetches.  What a result *is* does not mention the
order, but that the root comes first.
-/

/-- What the result of a call should be: the paths of the closure, the root first and each one
once, with the `.narinfo` fetched for each of them and for nothing else. -/
structure ResolvedClosure.Is (client : NarInfoClient) (root : StorePath) (c : ResolvedClosure) :
    Prop where
  root_first : c.paths.head? = some root.toString
  nodup : c.paths.Nodup
  mem_paths : ∀ s, s ∈ c.paths ↔ ∃ p, InClosure client root p ∧ p.toString = s
  keys : ∀ s, s ∈ c.narinfos ↔ s ∈ c.paths
  lookup : ∀ p, InClosure client root p →
    ∃ info, client.fetchNarinfo p = .ok info ∧ c.narinfos.lookup p.toString = some info

/-- Two results for one root list the same paths, whatever the order of the fetches. -/
lemma ResolvedClosure.Is.perm {client : NarInfoClient} {root : StorePath} {c c' : ResolvedClosure}
    (h : c.Is client root) (h' : c'.Is client root) : c.paths.Perm c'.paths :=
  (List.perm_ext_iff_of_nodup h.nodup h'.nodup).mpr fun s => by rw [h.mem_paths, h'.mem_paths]

/-- Every fetch in the closure succeeds. -/
def AllFetched (client : NarInfoClient) (root : StorePath) : Prop :=
  ∀ p, InClosure client root p → ∃ info, client.fetchNarinfo p = .ok info

namespace ResolveState

variable {a : ResolveArgs}

/-- What holds of a call at every point, as long as its deadline is not hit. -/
def Sound (a : ResolveArgs) : ResolveState → Prop
  | .running l => ∃ w, l.Sim a.client w ∧ Worklist.Inv (expandPath a.client) a.root w
  | .returned (.ok c) => c.Is a.client a.root ∧ AllFetched a.client a.root
  | .returned (.error _) => ¬ AllFetched a.client a.root

lemma start_eq (h : a.HasDeadline) : start a = .running (.start a.root) := if_pos h

lemma start_overflow (h : ¬ a.HasDeadline) : start a = .returned (.error .panic) := if_neg h

lemma sound_start (h : a.HasDeadline) : (start a).Sound a := by
  rw [start_eq h]
  exact ⟨_, ClosureLoop.Sim.start a.root, Worklist.Inv.start⟩

/-- An empty queue with nothing in flight: the closure is complete. -/
lemma sound_finished {l : ClosureLoop} {w : Worklist.State StorePath} (hsim : l.Sim a.client w)
    (hinv : Worklist.Inv (expandPath a.client) a.root w) (hfin : w.Finished) :
    (ResolveState.returned (.ok { narinfos := l.narinfos, paths := l.order })).Sound a := by
  obtain ⟨hroot, hnodup, hmem, hexp⟩ := hinv.of_finished hfin
  have hall : AllFetched a.client a.root := by
    intro p hp
    obtain ⟨succs, hsuccs⟩ := hexp p hp
    cases hf : a.client.fetchNarinfo p with
    | ok info => exact ⟨info, rfl⟩
    | error e =>
        rw [expandPath, hf] at hsuccs
        cases hsuccs
  have hpaths : ∀ s, s ∈ l.order ↔ ∃ p, InClosure a.client a.root p ∧ p.toString = s := by
    intro s
    rw [hsim.order, List.mem_map]
    exact exists_congr fun p => and_congr_left fun _ => hmem p
  refine ⟨⟨?_, ?_, hpaths, fun s => ?_, fun p hp => ?_⟩, hall⟩
  · simp only [hsim.order, List.head?_map, hroot, Option.map_some]
  · simp only [hsim.order]
    exact hnodup.map StorePath.toString_injective
  · change s ∈ l.narinfos ↔ s ∈ l.order
    rw [← AList.lookup_isSome, Option.isSome_iff_exists, hpaths]
    constructor
    · rintro ⟨info, hinfo⟩
      obtain ⟨p, hp, heq, -⟩ := (hsim.narinfos s info).mp hinfo
      exact ⟨p, (hmem p).mp hp, heq⟩
    · rintro ⟨p, hp, heq⟩
      obtain ⟨info, hinfo⟩ := hall p hp
      exact ⟨info, (hsim.narinfos s info).mpr ⟨p, (hmem p).mpr hp, heq, hinfo⟩⟩
  · obtain ⟨info, hinfo⟩ := hall p hp
    exact ⟨info, hinfo, (hsim.narinfos _ info).mpr ⟨p, (hmem p).mpr hp, rfl, hinfo⟩⟩

/-- What a step of the loop is: the end of the call, or a step of the search. -/
lemma step_running {l : ClosureLoop} {w : Worklist.State StorePath} (hsim : l.Sim a.client w)
    {ev : ResolveEvent} {s' : ResolveState} (h : (running l).step a ev = some s') :
    (∃ l' w', s' = .running l' ∧ l'.Sim a.client w' ∧
        Worklist.Step (expandPath a.client) a.concurrency w w') ∨
      (s' = .returned (.ok { narinfos := l.narinfos, paths := l.order }) ∧ w.Finished) ∨
      (∃ e, s' = .returned (.error e) ∧
        (¬ ev.InTime a ∨ ∃ sp ∈ w.inFlight, ∀ info, a.client.fetchNarinfo sp ≠ .ok info)) := by
  cases ev with
  | poll now =>
      simp only [step] at h
      split at h
      · cases h
      next hidle =>
      have hidle' : w.inFlight = [] := by
        rw [← hsim.futures]
        exact not_not.mp hidle
      split at h
      · next hqueue =>
          rw [hsim.queue] at hqueue
          exact .inr (.inl ⟨(Option.some.inj h).symm, hqueue, hidle'⟩)
      next hqueue =>
      split at h
      · next hlate =>
          exact .inr (.inr ⟨_, (Option.some.inj h).symm, .inl (Nat.not_le.mpr hlate)⟩)
      · rw [hsim.queue] at hqueue
        exact .inl ⟨_, _, (Option.some.inj h).symm, hsim.nextBatch _, .batch hidle' hqueue⟩
  | fetched sp =>
      simp only [step] at h
      split at h
      next hmem =>
        rw [hsim.futures] at hmem
        cases hf : a.client.fetchNarinfo sp with
        | ok info =>
            obtain ⟨l', hl', hsim'⟩ := hsim.complete hf
            rw [hl'] at h
            exact .inl ⟨l', _, (Option.some.inj h).symm, hsim',
              .finish hmem (expandPath_eq_ok hf)⟩
        | error e =>
            have herr : ∃ e', l.complete a.client sp = .error e' := by
              cases e with
              | err e =>
                  exact ⟨_, by simp only [ClosureLoop.complete, hf]; rfl⟩
              | panic =>
                  exact ⟨_, by simp only [ClosureLoop.complete, hf]; rfl⟩
            obtain ⟨e', he'⟩ := herr
            rw [he'] at h
            exact .inr (.inr ⟨e', (Option.some.inj h).symm,
              .inr ⟨sp, hmem, fun info hinfo => by rw [hf] at hinfo; cases hinfo⟩⟩)
      · cases h

/-- **Step lemma**: `Sound` survives every event that comes in time. -/
lemma Sound.step {s s' : ResolveState} {ev : ResolveEvent} (hs : s.Sound a)
    (hev : ev.InTime a) (h : s.step a ev = some s') : s'.Sound a := by
  cases s with
  | returned r =>
      cases ev <;> cases h
  | running l =>
      obtain ⟨w, hsim, hinv⟩ := hs
      rcases step_running hsim h with ⟨l', w', rfl, hsim', hstep⟩ | ⟨rfl, hfin⟩ | ⟨e, rfl, hfail⟩
      · exact ⟨w', hsim', hstep.inv hinv⟩
      · exact sound_finished hsim hinv hfin
      · rcases hfail with hlate | ⟨sp, hsp, hbad⟩
        · exact absurd hev hlate
        · intro hall
          obtain ⟨info, hinfo⟩ :=
            hall sp (hinv.reachable sp (.inl ((hinv.visited_iff sp).mpr (.inr hsp))))
          exact hbad info hinfo

/-- **Run lemma.** -/
lemma Sound.run {evs : List ResolveEvent} :
    ∀ {s s' : ResolveState}, s.Sound a → (∀ ev ∈ evs, ev.InTime a) → s.run a evs = some s' →
      s'.Sound a := by
  induction evs with
  | nil =>
      intro s s' hs _ h
      exact Option.some.inj h ▸ hs
  | cons ev evs ih =>
      intro s s' hs hev h
      obtain ⟨s₁, h₁, h₂⟩ := Option.bind_eq_some_iff.mp h
      exact ih (hs.step (hev ev List.mem_cons_self) h₁)
        (fun ev' h' => hev ev' (List.mem_cons_of_mem ev h')) h₂

/-- A call that has returned does not go on. -/
lemma acc_returned (r : Result ResolvedClosure) :
    Acc (fun t s : ResolveState => ∃ ev, s.step a ev = some t) (.returned r) :=
  ⟨_, fun t ⟨ev, h⟩ => by cases ev <;> cases h⟩

/-- Nor does one that has no deadline. -/
lemma acc_overflow (h : ¬ a.HasDeadline) :
    Acc (fun t s : ResolveState => ∃ ev, s.step a ev = some t) (start a) := by
  rw [start_overflow h]
  exact acc_returned _

/-- No call goes on for ever, not even one that runs into its deadline. -/
lemma acc_step (hc : 1 ≤ a.concurrency) (hfin : {p | InClosure a.client a.root p}.Finite) :
    Acc (fun t s : ResolveState => ∃ ev, s.step a ev = some t) (start a) := by
  have key : ∀ w, Worklist.Inv (expandPath a.client) a.root w → ∀ l : ClosureLoop,
      l.Sim a.client w →
        Acc (fun t s : ResolveState => ∃ ev, s.step a ev = some t) (.running l) := by
    intro w hinv
    induction Worklist.acc_step hfin hc hinv with
    | intro w _ ih =>
        intro l hsim
        refine ⟨_, fun t ⟨ev, h⟩ => ?_⟩
        rcases step_running hsim h with ⟨l', w', rfl, hsim', hstep⟩ | ⟨rfl, -⟩ | ⟨e, rfl, -⟩
        · exact ih w' hstep (hstep.inv hinv) l' hsim'
        · exact acc_returned _
        · exact acc_returned _
  by_cases hdeadline : a.HasDeadline
  · rw [start_eq hdeadline]
    exact key _ Worklist.Inv.start _ (ClosureLoop.Sim.start a.root)
  · exact acc_overflow hdeadline

/-- A call that has not returned can go on: some fetch completes, or the loop is at its head. -/
lemma exists_step (l : ClosureLoop) : ∃ ev, ev.InTime a ∧ ((running l).step a ev).isSome := by
  by_cases hidle : l.futures = []
  · refine ⟨.poll a.now, Nat.le_add_right _ _, ?_⟩
    simp only [step, hidle, ne_eq, not_true_eq_false, if_false]
    split
    · rfl
    · split <;> rfl
  · obtain ⟨sp, rest, hcons⟩ := List.exists_cons_of_ne_nil hidle
    refine ⟨.fetched sp, trivial, ?_⟩
    have hmem : sp ∈ l.futures := hcons ▸ List.mem_cons_self
    simp only [step, if_pos hmem]
    cases l.complete a.client sp <;> rfl

end ResolveState

/-! ## Runs -/

namespace ResolveState

variable {a : ResolveArgs}

lemma run_append (s : ResolveState) (evs evs' : List ResolveEvent) :
    s.run a (evs ++ evs') = (s.run a evs).bind fun s' => s'.run a evs' := by
  induction evs generalizing s with
  | nil => rfl
  | cons ev evs ih =>
      rw [List.cons_append, run, run, Option.bind_assoc]
      exact congrArg _ (funext ih)

/-- The last event of a run. -/
lemma run_concat_eq_some {s s' : ResolveState} {evs : List ResolveEvent} {ev : ResolveEvent} :
    s.run a (evs ++ [ev]) = some s' ↔ ∃ l, s.run a evs = some (.running l) ∧
      (running l).step a ev = some s' := by
  have hone : ∀ t : ResolveState, t.run a [ev] = t.step a ev := fun t => by
    rw [run]
    cases t.step a ev <;> rfl
  rw [run_append, Option.bind_eq_some_iff]
  constructor
  · rintro ⟨t, ht, hstep⟩
    rw [hone] at hstep
    cases t with
    | running l => exact ⟨l, ht, hstep⟩
    | returned r => cases ev <;> cases hstep
  · rintro ⟨l, hl, hstep⟩
    exact ⟨_, hl, (hone _).trans hstep⟩

/-- Where there is no deadline, there is no loop. -/
lemma hasDeadline_of_running {evs : List ResolveEvent} {l : ClosureLoop}
    (h : (start a).run a evs = some (.running l)) : a.HasDeadline := by
  by_contra hnot
  rw [start_overflow hnot] at h
  cases evs with
  | nil => cases h
  | cons ev evs => cases ev <;> cases h

/-- What a call without a deadline comes to. -/
lemma run_overflow (hnot : ¬ a.HasDeadline) {evs : List ResolveEvent} {s : ResolveState}
    (h : (start a).run a evs = some s) : evs = [] ∧ s = .returned (.error .panic) := by
  rw [start_overflow hnot] at h
  cases evs with
  | nil =>
      cases h
      exact ⟨rfl, rfl⟩
  | cons ev evs => cases ev <;> cases h

/-- The loop panics only in a fetch. -/
lemma step_panic {l : ClosureLoop} {ev : ResolveEvent}
    (h : (running l).step a ev = some (.returned (.error .panic))) :
    ∃ sp, ev = .fetched sp ∧ a.client.fetchNarinfo sp = .error .panic := by
  cases ev with
  | poll now =>
      simp only [step] at h
      split at h
      · cases h
      split at h
      · cases h
      split at h
      · cases h
      · cases h
  | fetched sp =>
      simp only [step] at h
      split at h
      next hmem =>
        refine ⟨sp, rfl, ?_⟩
        cases hf : a.client.fetchNarinfo sp with
        | ok info =>
            rw [ClosureLoop.complete_eq_ok hf] at h
            cases h
        | error e =>
            simp only [ClosureLoop.complete, hf] at h
            cases e with
            | err e => cases h
            | panic => rfl
      · cases h

end ResolveState

/-! ## Correctness -/

/-- What a call should do as long as its deadline is not hit, for every order of the fetches and
every reading of the clock. -/
structure ResolvesClosure (a : ResolveArgs) : Prop where
  /-- It does not go on for ever. -/
  ends : Acc (fun t s : ResolveState => ∃ ev, s.step a ev = some t) (.start a)
  /-- It does not get stuck. -/
  goes_on : ∀ evs l, (∀ ev ∈ evs, ev.InTime a) →
    (ResolveState.start a).run a evs = some (.running l) →
      ∃ ev, ev.InTime a ∧ ((ResolveState.running l).step a ev).isSome
  /-- It does not panic, unless a fetch does. -/
  returns : ∀ evs, (ResolveState.start a).run a evs = some (.returned (.error .panic)) →
    ∃ pre sp, evs = pre ++ [.fetched sp] ∧ a.client.fetchNarinfo sp = .error .panic
  ok_iff : ∀ evs r, (∀ ev ∈ evs, ev.InTime a) →
    (ResolveState.start a).run a evs = some (.returned r) →
      ((∃ c, r = .ok c) ↔ AllFetched a.client a.root)
  is : ∀ evs c, (∀ ev ∈ evs, ev.InTime a) →
    (ResolveState.start a).run a evs = some (.returned (.ok c)) → c.Is a.client a.root

namespace ResolveState

variable {a : ResolveArgs}

/-- With a deadline, a call does what it should. -/
lemma resolvesClosure (hdeadline : a.HasDeadline) (hc : 1 ≤ a.concurrency)
    (hfin : {p | InClosure a.client a.root p}.Finite) : ResolvesClosure a where
  ends := acc_step hc hfin
  goes_on _ l _ _ := exists_step l
  returns evs h := by
    rcases List.eq_nil_or_concat evs with rfl | ⟨pre, ev, rfl⟩
    · rw [start_eq hdeadline] at h
      cases h
    · rw [List.concat_eq_append] at h ⊢
      obtain ⟨l, -, hstep⟩ := run_concat_eq_some.mp h
      obtain ⟨sp, rfl, hpanic⟩ := step_panic hstep
      exact ⟨pre, sp, rfl, hpanic⟩
  ok_iff evs r hevs h := by
    have hsound := (sound_start hdeadline).run hevs h
    cases r with
    | ok c => exact ⟨fun _ => hsound.2, fun _ => ⟨c, rfl⟩⟩
    | error e => exact ⟨fun ⟨_, h⟩ => (by cases h), fun h => absurd h hsound⟩
  is evs c hevs h := ((sound_start hdeadline).run hevs h).1

end ResolveState

/-- **Closure resolution.**  Over a finite reference graph and for every concurrency, a call does
what it should exactly when its deadline can be computed: it comes to its end and does not panic; it
returns `Ok` just when every fetch in the closure of the root succeeds, and then it returns the
closure. -/
theorem resolveClosure_correct (a : ResolveArgs) (hc : 1 ≤ a.concurrency)
    (hfin : {p | InClosure a.client a.root p}.Finite) :
    ResolvesClosure a ↔ a.HasDeadline := by
  refine ⟨fun h => ?_, fun hdeadline => ResolveState.resolvesClosure hdeadline hc hfin⟩
  by_contra hnot
  obtain ⟨pre, sp, hevs, -⟩ := h.returns [] (congrArg some (ResolveState.start_overflow hnot))
  cases pre <;> cases hevs

/-! ## A diamond with cycles

A program that uses a tool and a library.  The tool uses the library too, and the program again, and
the library references itself. -/

/-- Their store paths. -/
def programPath : StorePath := .zeroHashed "program"

def libraryPath : StorePath := .zeroHashed "library"

def toolPath : StorePath := .zeroHashed "tool"

lemma path_refOf {p : StorePath} (h : p.name ≠ "") : (NarInfo.refOf p h).path = p :=
  StorePath.basename_injective (StorePathRef.basename_path (NarInfo.refOf p h))

/-- The references to them. -/
def programRef : StorePathRef := NarInfo.refOf programPath (by decide)

def libraryRef : StorePathRef := NarInfo.refOf libraryPath (by decide)

def toolRef : StorePathRef := NarInfo.refOf toolPath (by decide)

@[simp] lemma path_programRef : programRef.path = programPath := path_refOf _

@[simp] lemma path_libraryRef : libraryRef.path = libraryPath := path_refOf _

@[simp] lemma path_toolRef : toolRef.path = toolPath := path_refOf _

/-- The `.narinfo` of a path with these references. -/
def infoWith (p : StorePath) (refs : List StorePathRef) : NarInfo :=
  { storePath := p, url := "nar/x.nar", compression := .none,
    fileHash := { algo := .md5, digest := [] }, fileSize := 52,
    narHash := { algo := .md5, digest := [] }, narSize := 120,
    references := refs, deriver := none, signatures := [], ca := none }

/-- A call of `resolve_closure` for the program, where the references are as `refs` says. -/
def argsOf (refs : StorePath → List StorePathRef) : ResolveArgs :=
  { client := { fetchNarinfo := fun p => .ok (infoWith p (refs p)) },
    root := programPath, concurrency := 4, now := 0, timeout := 10000000000 }

lemma inClosure_argsOf {refs : StorePath → List StorePathRef}
    (hrefs : ∀ p, ∀ r ∈ refs p, r.path ∈ [programPath, toolPath, libraryPath]) {p : StorePath}
    (hp : InClosure (argsOf refs).client programPath p) :
    p ∈ [programPath, toolPath, libraryPath] := by
  cases hp with
  | root => exact List.mem_cons_self
  | step _ hexp hb =>
      cases hexp
      obtain ⟨r, hr, rfl⟩ := List.mem_map.mp hb
      exact hrefs _ r hr

lemma finite_inClosure_argsOf {refs : StorePath → List StorePathRef}
    (hrefs : ∀ p, ∀ r ∈ refs p, r.path ∈ [programPath, toolPath, libraryPath]) :
    {p | InClosure (argsOf refs).client programPath p}.Finite :=
  (List.finite_toSet [programPath, toolPath, libraryPath]).subset fun _ => inClosure_argsOf hrefs

/-- The references of each path. -/
def loopRefs (p : StorePath) : List StorePathRef :=
  if p = programPath then [toolRef, libraryRef]
  else if p = toolPath then [libraryRef, programRef]
  else if p = libraryPath then [libraryRef]
  else []

lemma path_loopRefs (p : StorePath) :
    ∀ r ∈ loopRefs p, r.path ∈ [programPath, toolPath, libraryPath] := by
  intro r hr
  simp only [loopRefs] at hr
  split at hr
  · simp only [List.mem_cons, List.not_mem_nil, or_false] at hr
    rcases hr with rfl | rfl <;> simp
  split at hr
  · simp only [List.mem_cons, List.not_mem_nil, or_false] at hr
    rcases hr with rfl | rfl <;> simp
  split at hr
  · obtain rfl := List.mem_singleton.mp hr
    simp
  · cases hr

/-- The call for the program, one path at a time. -/
def loopArgs : ResolveArgs := { argsOf loopRefs with concurrency := 1 }

lemma finite_inClosure_loop : {p | InClosure loopArgs.client loopArgs.root p}.Finite :=
  finite_inClosure_argsOf path_loopRefs

/-- Each path is in the closure once, though the library is in the queue twice. -/
theorem resolveClosure_loop :
    ∃ c, (ResolveState.start loopArgs).run loopArgs [.poll 0, .fetched programPath, .poll 0,
        .fetched toolPath, .poll 0, .fetched libraryPath, .poll 0, .poll 0] =
        some (.returned (.ok c)) ∧
      c.paths = [programPath.toString, toolPath.toString, libraryPath.toString] ∧
      c.Is loopArgs.client programPath := by
  have htime : ∀ ev ∈ [ResolveEvent.poll 0, .fetched programPath, .poll 0, .fetched toolPath,
      .poll 0, .fetched libraryPath, .poll 0, .poll 0], ev.InTime loopArgs := by
    simp [ResolveEvent.InTime]
  have h := (resolveClosure_correct loopArgs (by decide) finite_inClosure_loop).mpr (by decide)
  obtain ⟨c, hc⟩ : ∃ c, (ResolveState.start loopArgs).run loopArgs [.poll 0, .fetched programPath,
      .poll 0, .fetched toolPath, .poll 0, .fetched libraryPath, .poll 0, .poll 0] =
        some (.returned (.ok c)) := ⟨_, rfl⟩
  exact ⟨c, hc, (by cases hc; decide +kernel), h.is _ c htime hc⟩

/-- The same call with a timeout of `2 ^ 63` seconds. -/
def endlessArgs : ResolveArgs := { loopArgs with timeout := 9223372036854775808000000000 }

/-- **A timeout that is too long**: every fetch in the closure would succeed, and the call panics
before its first one. -/
theorem resolveClosure_overflow :
    1 ≤ endlessArgs.concurrency ∧
      {p | InClosure endlessArgs.client endlessArgs.root p}.Finite ∧
      AllFetched endlessArgs.client endlessArgs.root ∧
      ResolveState.start endlessArgs = .returned (.error .panic) ∧
      ¬ ResolvesClosure endlessArgs := by
  have hnot : ¬ endlessArgs.HasDeadline := by decide
  exact ⟨by decide, finite_inClosure_loop, fun _ _ => ⟨_, rfl⟩,
    ResolveState.start_overflow hnot,
    fun h => hnot ((resolveClosure_correct endlessArgs (by decide) finite_inClosure_loop).mp h)⟩

/-! ## How a call fails

An error of a call is the error of one fetch, and that is of a path in the closure.  This is what
callers need that translate errors.
-/

namespace ResolveState

variable {a : ResolveArgs}

/-- A call that has failed in time has failed at a path of the closure that could not be fetched,
and its error says which one and why. -/
def Blamed (a : ResolveArgs) : ResolveState → Prop
  | .returned (.error f) => ∃ sp, InClosure a.client a.root sp ∧
      (a.client.fetchNarinfo sp = .error .panic ∧ f = .panic ∨
        ∃ e, a.client.fetchNarinfo sp = fail e ∧
          f = .err (.closureResolution ("failed to resolve " ++ sp.toString ++ ": " ++ e.toString)))
  | _ => True

lemma blamed_step {s s' : ResolveState} {ev : ResolveEvent} (hs : s.Sound a) (hev : ev.InTime a)
    (h : s.step a ev = some s') : s'.Blamed a := by
  cases s with
  | returned r => cases ev <;> cases h
  | running l =>
      obtain ⟨w, hsim, hinv⟩ := hs
      cases ev with
      | poll now =>
          simp only [step] at h
          split at h
          · cases h
          split at h
          · cases h
            exact trivial
          split at h
          next hlate => exact absurd hev (Nat.not_le.mpr hlate)
          · cases h
            exact trivial
      | fetched sp =>
          simp only [step] at h
          split at h
          next hmem =>
            rw [hsim.futures] at hmem
            have hreach := hinv.reachable sp (.inl ((hinv.visited_iff sp).mpr (.inr hmem)))
            cases hf : a.client.fetchNarinfo sp with
            | ok info =>
                obtain ⟨l', hl', -⟩ := hsim.complete hf
                rw [hl'] at h
                cases h
                exact trivial
            | error f =>
                simp only [ClosureLoop.complete, hf] at h
                cases f with
                | err e =>
                    cases h
                    exact ⟨sp, hreach, .inr ⟨e, hf, rfl⟩⟩
                | panic =>
                    cases h
                    exact ⟨sp, hreach, .inl ⟨hf, rfl⟩⟩
          · cases h

lemma blamed_start (h : a.HasDeadline) : (start a).Blamed a := by
  rw [start_eq h]
  exact trivial

lemma blamed_run {evs : List ResolveEvent} :
    ∀ {s s' : ResolveState}, s.Sound a → s.Blamed a → (∀ ev ∈ evs, ev.InTime a) →
      s.run a evs = some s' → s'.Blamed a := by
  induction evs with
  | nil =>
      intro s s' _ hs _ h
      exact Option.some.inj h ▸ hs
  | cons ev evs ih =>
      intro s s' hsound _ hev h
      obtain ⟨s₁, h₁, h₂⟩ := Option.bind_eq_some_iff.mp h
      obtain ⟨hev₁, hev₂⟩ := List.forall_mem_cons.mp hev
      exact ih (hsound.step hev₁ h₁) (blamed_step hsound hev₁ h₁) hev₂ h₂

/-- A call that does not go on for ever returns, if its deadline is not hit. -/
lemma exists_returned_of_acc {s : ResolveState}
    (hacc : Acc (fun t s : ResolveState => ∃ ev, s.step a ev = some t) s) :
    ∃ evs r, (∀ ev ∈ evs, ev.InTime a) ∧ s.run a evs = some (.returned r) := by
  induction hacc with
  | intro s _ ih =>
      cases s with
      | returned r => exact ⟨[], r, fun _ h => absurd h List.not_mem_nil, rfl⟩
      | running l =>
          obtain ⟨ev, hev, hsome⟩ := exists_step (a := a) l
          obtain ⟨t, ht⟩ := Option.isSome_iff_exists.mp hsome
          obtain ⟨evs, r, hevs, hrun⟩ := ih t ⟨ev, ht⟩
          refine ⟨ev :: evs, r, List.forall_mem_cons.mpr ⟨hev, hevs⟩, ?_⟩
          rw [run, ht, Option.bind_some, hrun]

/-- A call over a finite closure returns, if its deadline is not hit. -/
lemma exists_returned (hc : 1 ≤ a.concurrency) (hfin : {p | InClosure a.client a.root p}.Finite) :
    ∃ evs r, (∀ ev ∈ evs, ev.InTime a) ∧ (start a).run a evs = some (.returned r) :=
  exists_returned_of_acc (acc_step hc hfin)

end ResolveState

end Niphas
