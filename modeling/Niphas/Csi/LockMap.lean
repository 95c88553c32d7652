import Niphas.Csi.Cache
import Niphas.Lib.Mutex

/-!
# The map of the mutexes

`ensure_cached` mutex by mutex: the one around the map of the mutexes, held only while the mutex of
a path is looked up or made, and that of the path, held while it is fetched.

`Cache` has a mutex for each path from the beginning.  The source makes them as they are needed, and
keeps them in a map with a mutex of its own.  So there are two questions.  Is the program the same
when a mutex is named by its path?  It is, by `interp_ensureCachedLocks`, which carries out every
operation on the map by one on names.  And do the two kinds of mutexes get into each other's way?
For that the program is looked at between any two calls: `Stage` lists the points at which it may
be, and `Moves` what leads from one to the next.

The invariant relates the stages of all calls to the world.  It says who has which mutex, that no
two paths share one, and that what has been fetched has its entry.  A download is marked at its
begin and at its end, by operations that do nothing else, so that "under way" has a meaning in the
state.

* `interp_ensureCachedLocks` — with a mutex named by its path, this is the program of `Cache`.
* `lockSystem` — any number of calls at once, over files of which no entry of the cache is removed.
* `Stage` — where a call is, and `LockInv` — how that is related to the map, the holders and the
  disk.
-/

namespace Niphas

open FileSystem System

/-! ## The program -/

/-- What `ensure_cached` calls.  The marks `enter` and `leave` stand where `fetch_and_extract`
begins and where it returns. -/
inductive LockOp where
  | cache (o : CacheOp)
  | lockMap
  | entry (basename : String)
  | unlockMap
  | lock (m : ℕ)
  | unlock (m : ℕ)
  | enter (basename : String)
  | leave (basename : String) (r : Result Unit)

/-- The interface with the mutexes.  `entry` answers the mutex of the path. -/
abbrev lockInterface : Interface where
  Op := LockOp
  Answer
    | .cache o => cacheInterface.Answer o
    | .entry _ => ℕ
    | _ => Unit

/-- One operation and its answer. -/
def lockOp (o : LockOp) : Prog lockInterface (lockInterface.Answer o) :=
  Prog.op (I := lockInterface) o

/-- Code of the cache among these operations. -/
def liftCache {α : Type} (prog : Prog cacheInterface α) : Prog lockInterface α :=
  prog.interp fun o => lockOp (.cache o)

/-- `fetch_and_extract` between its marks. -/
def markedFetch (lib : Libraries) (cacheDir basename : String) :
    Prog lockInterface (Result Unit) := do
  lockOp (.enter basename)
  let r ← liftCache (fetchAndExtract lib cacheDir basename).run
  lockOp (.leave basename r)
  return r

/-- What `ensure_cached` does for a path while it holds its mutex. -/
def ensureUnderMutex (lib : Libraries) (cacheDir basename : String) :
    Prog lockInterface (Result Unit) := do
  if ← liftCache (isCached cacheDir basename) then return .ok ()
  else markedFetch lib cacheDir basename

/-- `NarCache::ensure_cached`. -/
def ensureCachedLocks (lib : Libraries) (cacheDir : String) :
    List String → Prog lockInterface (Result Unit)
  | [] => return .ok ()
  | path :: rest => do
      let basename := stripStoreDir path
      if ← liftCache (isCached cacheDir basename) then ensureCachedLocks lib cacheDir rest
      else
        lockOp .lockMap
        let m ← lockOp (.entry basename)
        lockOp .unlockMap
        lockOp (.lock m)
        let r ← ensureUnderMutex lib cacheDir basename
        lockOp (.unlock m)
        match r with
        | .ok () => ensureCachedLocks lib cacheDir rest
        | .error e => return .error e

/-- The operations with a mutex named by its path, where `number` and `name` are a numbering. -/
def byName (number : String → ℕ) (name : ℕ → String) :
    (o : LockOp) → Prog cacheInterface (lockInterface.Answer o)
  | .cache o => cacheOp o
  | .entry basename => return number basename
  | .lock m => cacheOp (.lock (name m))
  | .unlock m => cacheOp (.unlock (name m))
  | .lockMap | .unlockMap | .enter _ | .leave _ _ => return ()

lemma interp_lockOp (number : String → ℕ) (name : ℕ → String) (o : LockOp) :
    (lockOp o).interp (byName number name) = byName number name o :=
  @Prog.interp_op lockInterface cacheInterface (byName number name) o

lemma interp_liftCache (number : String → ℕ) (name : ℕ → String) {α : Type}
    (prog : Prog cacheInterface α) : (liftCache prog).interp (byName number name) = prog := by
  have himpl : (fun o => (lockOp (.cache o)).interp (byName number name)) =
      fun o => Prog.op (I := cacheInterface) o :=
    funext fun o => interp_lockOp number name (.cache o)
  rw [liftCache, Prog.interp_interp, himpl]
  exact Prog.interp_self prog

lemma interp_ensureUnderMutex (number : String → ℕ) (name : ℕ → String) (lib : Libraries)
    (cacheDir basename : String) :
    (ensureUnderMutex lib cacheDir basename).interp (byName number name) =
      (ensureLocked lib cacheDir basename).run := by
  rw [ensureUnderMutex, Prog.interp_bind, interp_liftCache]
  refine congrArg (Prog.call _) (funext fun r => ?_)
  cases r with
  | true => rfl
  | false =>
      change (markedFetch lib cacheDir basename).interp (byName number name) =
        (fetchAndExtract lib cacheDir basename).run
      rw [markedFetch, Prog.interp_bind]
      change (liftCache _ >>= fun r => lockOp (.leave basename r) >>= fun _ => pure r).interp _ = _
      rw [Prog.interp_bind, interp_liftCache]
      exact bind_pure _

/-- **With a mutex named by its path, this is the program of `Cache`.** -/
theorem interp_ensureCachedLocks {number : String → ℕ} {name : ℕ → String}
    (hname : ∀ basename, name (number basename) = basename) (lib : Libraries) (cacheDir : String)
    (paths : List String) :
    (ensureCachedLocks lib cacheDir paths).interp (byName number name) =
      ensureCached lib cacheDir paths := by
  induction paths with
  | nil => rfl
  | cons path rest ih =>
      rw [ensureCachedLocks, ensureCached, Prog.interp_bind, interp_liftCache]
      refine congrArg (Prog.call _) (funext fun r => ?_)
      cases r with
      | true => exact ih
      | false =>
          -- the map is opened and closed without a call
          change @Prog.call cacheInterface _ (CacheOp.lock (name (number (stripStoreDir path))))
            (fun _ => (ensureUnderMutex lib cacheDir (stripStoreDir path) >>=
              fun r => _).interp _) = _
          rw [hname]
          refine congrArg (Prog.call _) (funext fun _ => ?_)
          rw [Prog.interp_bind, interp_ensureUnderMutex]
          refine congrArg _ (funext fun r => ?_)
          have hunlock : (lockOp (.unlock (number (stripStoreDir path)))).interp
              (byName number name) = cacheOp (.unlock (stripStoreDir path)) := by
            have hop := interp_lockOp number name (.unlock (number (stripStoreDir path)))
            rwa [byName, hname] at hop
          rw [Prog.interp_bind, hunlock]
          refine congrArg (Prog.call _) (funext fun _ => ?_)
          rcases r with e | u
          · rfl
          · exact ih

/-! ## The system

The surroundings may change the files in any way, except that they remove no entry of the cache.  So
the results do not depend on how the files got to be as they are.
-/

/-- The files, the mutex around the map and who holds it, the map and how many mutexes have been
made, and who holds which of them. -/
structure LockWorld where
  fs : FS
  mapHolder : Option ℕ
  mutexes : String → Option ℕ
  made : ℕ
  holders : ℕ → Option ℕ
  /-- What is being fetched by whom.  No call reads this. -/
  running : ℕ → Option String
  /-- What has been fetched with success.  No call reads this. -/
  succeeded : String → Prop

/-- Something is there. -/
def Present (fs : FS) (path : String) : Prop := ∃ v, lookup fs true path = some v ∧ fs v ≠ none

/-- The cache has an entry of this name, which is that of a store path. -/
def HasEntry (cacheDir basename : String) (fs : FS) : Prop :=
  (∃ storePath, StorePath.parseBasename basename = .ok storePath) ∧
    Present fs (joinPath cacheDir basename)

/-- No entry of the cache is removed. -/
def Kept (cacheDir : String) (fs fs' : FS) : Prop :=
  ∀ b, HasEntry cacheDir b fs → HasEntry cacheDir b fs'

/-- `exists` tells what is there, and what has been renamed is there. -/
def FsOp.Truthful : (o : FsOp) → FS → o.Answer → FS → Prop
  | .exists path, fs, r, _ => r = true ↔ Present fs path
  | .rename _ dst, _, r, fs' => r = .ok () → Present fs' dst
  | _, _, _, _ => True

/-- What an operation of call `p` may answer and leave. -/
def LockOp.Sem (cacheDir : String) (p : ℕ) :
    (o : LockOp) → LockWorld → lockInterface.Answer o → LockWorld → Prop
  | .cache (.fs o), w, r, w' => ∃ fs', o.Sem w.fs r fs' ∧ Niphas.FsOp.Truthful o w.fs r fs' ∧
      Kept cacheDir w.fs fs' ∧ w' = { w with fs := fs' }
  | .cache _, w, _, w' => w' = w
  | .lockMap, w, _, w' => w.mapHolder = none ∧ w' = { w with mapHolder := some p }
  | .entry b, w, m, w' =>
      w.mutexes b = some m ∧ w' = w ∨
        w.mutexes b = none ∧ m = w.made ∧
          w' = { w with mutexes := Function.update w.mutexes b (some m), made := w.made + 1 }
  | .unlockMap, w, _, w' => w' = { w with mapHolder := none }
  | .lock m, w, _, w' =>
      w.holders m = none ∧ w' = { w with holders := Function.update w.holders m (some p) }
  | .unlock m, w, _, w' => w' = { w with holders := Function.update w.holders m none }
  | .enter b, w, _, w' => w' = { w with running := Function.update w.running p (some b) }
  | .leave b r, w, _, w' =>
      w' = { w with
        running := Function.update w.running p none
        succeeded := fun b' => w.succeeded b' ∨ b' = b ∧ r = .ok () }

/-- Any number of calls of `ensure_cached` at once.  The surroundings may do anything to the files
except remove an entry. -/
def lockSystem (lib : Libraries) (cacheDir : String) : System where
  iface := lockInterface
  World := LockWorld
  Call := List String
  Out := Result Unit
  program := ensureCachedLocks lib cacheDir
  sem := LockOp.Sem cacheDir
  begins w _ _ _ w' := w' = w
  env w w' := ∃ fs', Kept cacheDir w.fs fs' ∧ w' = { w with fs := fs' }
  crash _ _ := False

/-- Before the first call. -/
def LockWorld.first (fs : FS) : LockWorld where
  fs := fs
  mapHolder := none
  mutexes _ := none
  made := 0
  holders _ := none
  running _ := none
  succeeded _ := False

/-! ## Where a call is -/

/-- The points of `ensure_cached` between two calls. -/
inductive Stage where
  | loop (paths : List String)
  | failed (e : Fault)
  | wantsMap (basename : String) (rest : List String)
  | hasMap (basename : String) (rest : List String)
  | hasEntry (basename : String) (m : ℕ) (rest : List String)
  | wants (basename : String) (m : ℕ) (rest : List String)
  | checks (basename : String) (m : ℕ) (rest : List String)
  | enters (basename : String) (m : ℕ) (rest : List String)
  | fetches (basename : String) (m : ℕ) (prog : Prog cacheInterface (Result Unit))
      (rest : List String)
  | gives (basename : String) (m : ℕ) (r : Result Unit) (rest : List String)

namespace Stage

/-- The stage behind a mutex. -/
def next (r : Result Unit) (rest : List String) : Stage :=
  match r with
  | .ok () => loop rest
  | .error e => failed e

/-- The call has the mutex around the map. -/
def map : Stage → Bool
  | hasMap _ _ | hasEntry _ _ _ => true
  | _ => false

/-- The path the call is at, and its mutex. -/
def named : Stage → Option (String × ℕ)
  | hasEntry b m _ | wants b m _ | checks b m _ | enters b m _ | fetches b m _ _ | gives b m _ _ =>
      some (b, m)
  | _ => none

/-- The mutex of a path the call has. -/
def held : Stage → Option ℕ
  | checks _ m _ | enters _ m _ | fetches _ m _ _ | gives _ m _ _ => some m
  | _ => none

/-- What the call is fetching. -/
def fetching : Stage → Option String
  | fetches b _ _ _ => some b
  | _ => none

variable (lib : Libraries) (cacheDir : String)

/-- The mutex is given back, and the loop goes on. -/
def giveBack (m : ℕ) (r : Result Unit) (rest : List String) : Prog lockInterface (Result Unit) := do
  lockOp (.unlock m)
  match r with
  | .ok () => ensureCachedLocks lib cacheDir rest
  | .error e => return .error e

/-- What is left of the program. -/
def prog : Stage → Prog lockInterface (Result Unit)
  | loop paths => ensureCachedLocks lib cacheDir paths
  | failed e => return .error e
  | wantsMap b rest => do
      lockOp .lockMap
      let m ← lockOp (.entry b)
      lockOp .unlockMap
      lockOp (.lock m)
      let r ← ensureUnderMutex lib cacheDir b
      giveBack lib cacheDir m r rest
  | hasMap b rest => do
      let m ← lockOp (.entry b)
      lockOp .unlockMap
      lockOp (.lock m)
      let r ← ensureUnderMutex lib cacheDir b
      giveBack lib cacheDir m r rest
  | hasEntry b m rest => do
      lockOp .unlockMap
      lockOp (.lock m)
      let r ← ensureUnderMutex lib cacheDir b
      giveBack lib cacheDir m r rest
  | wants b m rest => do
      lockOp (.lock m)
      let r ← ensureUnderMutex lib cacheDir b
      giveBack lib cacheDir m r rest
  | checks b m rest => do
      let r ← ensureUnderMutex lib cacheDir b
      giveBack lib cacheDir m r rest
  | enters b m rest => do
      let r ← markedFetch lib cacheDir b
      giveBack lib cacheDir m r rest
  | fetches b m prog rest => do
      let r ← liftCache prog
      lockOp (.leave b r)
      giveBack lib cacheDir m r rest
  | gives _ m r rest => giveBack lib cacheDir m r rest

/-- What the call does next, and where it is then. -/
inductive Moves : Stage → (o : LockOp) → lockInterface.Answer o → Stage → Prop
  | cached {path : String} {rest : List String} :
      Moves (loop (path :: rest)) (.cache (.fs (.exists (joinPath cacheDir (stripStoreDir path)))))
        true (loop rest)
  | missing {path : String} {rest : List String} :
      Moves (loop (path :: rest)) (.cache (.fs (.exists (joinPath cacheDir (stripStoreDir path)))))
        false (wantsMap (stripStoreDir path) rest)
  | lockMap {b : String} {rest : List String} : Moves (wantsMap b rest) .lockMap () (hasMap b rest)
  | entry {b : String} {rest : List String} {m : ℕ} :
      Moves (hasMap b rest) (.entry b) m (hasEntry b m rest)
  | unlockMap {b : String} {m : ℕ} {rest : List String} :
      Moves (hasEntry b m rest) .unlockMap () (wants b m rest)
  | lock {b : String} {m : ℕ} {rest : List String} :
      Moves (wants b m rest) (.lock m) () (checks b m rest)
  | found {b : String} {m : ℕ} {rest : List String} :
      Moves (checks b m rest) (.cache (.fs (.exists (joinPath cacheDir b)))) true
        (gives b m (.ok ()) rest)
  | notFound {b : String} {m : ℕ} {rest : List String} :
      Moves (checks b m rest) (.cache (.fs (.exists (joinPath cacheDir b)))) false (enters b m rest)
  | enter {b : String} {m : ℕ} {rest : List String} :
      Moves (enters b m rest) (.enter b) ()
        (fetches b m (fetchAndExtract lib cacheDir b).run rest)
  | fetch {b : String} {m : ℕ} {o : CacheOp}
      {k : cacheInterface.Answer o → Prog cacheInterface (Result Unit)}
      {r : cacheInterface.Answer o}
      {rest : List String} :
      Moves (fetches b m (.call o k) rest) (.cache o) r (fetches b m (k r) rest)
  | leave {b : String} {m : ℕ} {r : Result Unit} {rest : List String} :
      Moves (fetches b m (.pure r) rest) (.leave b r) () (gives b m r rest)
  | unlock {b : String} {m : ℕ} {r : Result Unit} {rest : List String} :
      Moves (gives b m r rest) (.unlock m) () (next r rest)

variable {lib cacheDir}

/-- **Every step of a call is one of these moves.** -/
lemma moves_of_prog {s : Stage} {o : LockOp}
    {k : lockInterface.Answer o → Prog lockInterface (Result Unit)}
    (h : s.prog lib cacheDir = .call o k) (r : lockInterface.Answer o) :
    ∃ s' : Stage, Moves lib cacheDir s o r s' ∧ k r = s'.prog lib cacheDir := by
  cases s with
  | loop paths =>
      cases paths with
      | nil => cases h
      | cons path rest =>
          cases h
          cases r with
          | true => exact ⟨_, .cached, rfl⟩
          | false => exact ⟨_, .missing, rfl⟩
  | failed e => cases h
  | wantsMap b rest =>
      cases h
      exact ⟨_, .lockMap, rfl⟩
  | hasMap b rest =>
      cases h
      exact ⟨_, .entry, rfl⟩
  | hasEntry b m rest =>
      cases h
      exact ⟨_, .unlockMap, rfl⟩
  | wants b m rest =>
      cases h
      exact ⟨_, .lock, rfl⟩
  | checks b m rest =>
      cases h
      cases r with
      | true => exact ⟨_, .found, rfl⟩
      | false => exact ⟨_, .notFound, rfl⟩
  | enters b m rest =>
      cases h
      refine ⟨_, .enter, ?_⟩
      change (liftCache _ >>= fun r => lockOp (.leave b r) >>= fun _ => pure r) >>= _ = _
      rw [bind_assoc]
      rfl
  | fetches b m prog rest =>
      cases prog with
      | pure r' =>
          cases h
          exact ⟨_, .leave, rfl⟩
      | call o' k' =>
          cases h
          exact ⟨_, .fetch, rfl⟩
  | gives b m r' rest =>
      cases h
      refine ⟨_, .unlock, ?_⟩
      rcases r' with e | u <;> rfl

end Stage

/-! ## When a fetch returns -/

/-- The answer to the renaming that puts the entry in place. -/
def Placed (cacheDir basename : String) : (o : CacheOp) → cacheInterface.Answer o → Prop
  | .fs (.rename _ dst), r => (∃ storePath, StorePath.parseBasename basename = .ok storePath) ∧
      dst = joinPath cacheDir basename ∧ r = .ok ()
  | _, _ => False

/-- `fetch_and_extract` does not return `Ok` before its entry is in place. -/
lemma okAfter_fetchAndExtract (lib : Libraries) (cacheDir basename : String) :
    Prog.OkAfter (Placed cacheDir basename) (fetchAndExtract lib cacheDir basename).run := by
  rw [fetchAndExtract]
  cases hparse : StorePath.parseBasename basename with
  | error e => exact ⟨e, rfl⟩
  | ok storePath =>
      refine .bind fun _ => .bind fun _ => .bind fun narinfo => .bind fun _ =>
        .bind fun narData => ?_
      rw [unpackNar]
      split
      · exact ⟨_, rfl⟩
      · refine .bind fun decompressed => .bind fun pid => .bind fun _ => .bind fun _ => ?_
        rw [extractNar]
        split
        · exact .bind fun _ => ⟨_, rfl⟩
        · split
          · exact .bind fun _ => ⟨_, rfl⟩
          · refine .bind fun _ => ?_
            rintro (e | u)
            · exact .inr (.bind fun _ => ⟨_, rfl⟩)
            · exact .inl ⟨⟨storePath, hparse⟩, rfl, rfl⟩

/-! ## The invariant -/

/-- Every path has a mutex of its own. -/
structure LockWorld.Numbered (w : LockWorld) : Prop where
  injective : ∀ b b' m, w.mutexes b = some m → w.mutexes b' = some m → b = b'
  made : ∀ b m, w.mutexes b = some m → m < w.made

/-- A mutex is made. -/
lemma LockWorld.Numbered.make {w : LockWorld} (h : w.Numbered) (basename : String) :
    LockWorld.Numbered { w with
      mutexes := Function.update w.mutexes basename (some w.made), made := w.made + 1 } := by
  refine ⟨fun b b' m hb hb' => ?_, fun b m hb => ?_⟩
  · have hfresh (b : String) : w.mutexes b ≠ some w.made := fun hb => (h.made b _ hb).ne rfl
    simp only [Function.update_apply] at hb hb'
    split_ifs at hb hb' with hbase hbase'
    · rw [hbase, hbase']
    · exact absurd (hb'.trans hb.symm) (hfresh b')
    · exact absurd (hb.trans hb'.symm) (hfresh b)
    · exact h.injective b b' m hb hb'
  · simp only [Function.update_apply] at hb
    split_ifs at hb with hbase
    · cases hb
      exact Nat.lt_succ_self _
    · exact Nat.lt_succ_of_lt (h.made b m hb)

/-- What a call relies on where it is: the map has its mutex, nobody has fetched what it is going to
fetch, and what it is fetching will be there when it succeeds. -/
structure Stage.Ok (cacheDir : String) (w : LockWorld) (s : Stage) : Prop where
  named : ∀ b m, s.named = some (b, m) → w.mutexes b = some m
  fresh : ∀ b m rest, s = .enters b m rest → ¬ w.succeeded b
  places : ∀ b m prog rest, s = .fetches b m prog rest →
    HasEntry cacheDir b w.fs ∨ Prog.OkAfter (Placed cacheDir b) prog

/-- Where the calls are, and how the world agrees with that. -/
structure LocksAgree (cacheDir : String) (stages : ℕ → Stage) (w : LockWorld) : Prop where
  ok : ∀ p, (stages p).Ok cacheDir w
  map : Tracks w.mapHolder fun p => (stages p).map = true
  held : ∀ m, Tracks (w.holders m) fun p => (stages p).held = some m
  running : ∀ p, w.running p = (stages p).fetching
  numbered : w.Numbered
  present : ∀ b, w.succeeded b → HasEntry cacheDir b w.fs

/-! ## What a move does

Each part of the invariant is about something else: the mutex around the map, the mutexes of the
paths, the marks, and the files.  So each has a lemma of its own, by cases of the move.
-/

lemma Kept.refl (cacheDir : String) (fs : FS) : Kept cacheDir fs fs := fun _ h => h

/-- Calls of the cache and of its client only touch the files. -/
lemma LockOp.sem_cache {cacheDir : String} {p : ℕ} {o : CacheOp} {w w' : LockWorld}
    {r : cacheInterface.Answer o} (h : LockOp.Sem cacheDir p (.cache o) w r w') :
    ∃ fs', Kept cacheDir w.fs fs' ∧ w' = { w with fs := fs' } := by
  cases o with
  | fs o =>
      obtain ⟨fs', -, -, hkept, rfl⟩ := h
      exact ⟨fs', hkept, rfl⟩
  | lock _ | unlock _ | fetchNarinfoByHash _ | fetchNar _ | processId | listen =>
      exact ⟨w.fs, .refl _ _, h⟩

/-- What has been put in place is there. -/
lemma Placed.hasEntry {cacheDir b : String} {p : ℕ} {o : CacheOp} {w w' : LockWorld}
    {r : cacheInterface.Answer o} (h : Placed cacheDir b o r)
    (hsem : LockOp.Sem cacheDir p (.cache o) w r w') : HasEntry cacheDir b w'.fs := by
  cases o with
  | fs o =>
      cases o with
      | rename src dst =>
          obtain ⟨hparse, rfl, hr⟩ := h
          obtain ⟨fs', -, htrue, -, rfl⟩ := hsem
          exact ⟨hparse, htrue hr⟩
      | _ => exact h.elim
  | _ => exact h.elim

namespace Stage

@[simp] lemma next_map (r : Result Unit) (rest : List String) : (next r rest).map = false := by
  rcases r with e | u <;> rfl

@[simp] lemma next_named (r : Result Unit) (rest : List String) : (next r rest).named = none := by
  rcases r with e | u <;> rfl

@[simp] lemma next_held (r : Result Unit) (rest : List String) : (next r rest).held = none := by
  rcases r with e | u <;> rfl

@[simp] lemma next_fetching (r : Result Unit) (rest : List String) :
    (next r rest).fetching = none := by
  rcases r with e | u <;> rfl

namespace Moves

variable {lib : Libraries} {cacheDir : String} {p : ℕ} {s s' : Stage} {o : LockOp}
  {r : lockInterface.Answer o} {w w' : LockWorld}

/-- The mutex around the map. -/
lemma map_step (h : Moves lib cacheDir s o r s') (hsem : o.Sem cacheDir p w r w') :
    MutexStep p w.mapHolder w'.mapHolder (s.map = true) (s'.map = true) := by
  cases h with
  | cached | missing | found | notFound | fetch =>
      obtain ⟨fs', -, rfl⟩ := LockOp.sem_cache hsem
      exact .keep rfl Iff.rfl
  | lockMap =>
      obtain ⟨hfree, rfl⟩ := hsem
      exact .take hfree rfl rfl
  | entry => rcases hsem with ⟨-, rfl⟩ | ⟨-, -, rfl⟩ <;> exact .keep rfl Iff.rfl
  | unlockMap =>
      subst hsem
      exact .give rfl rfl Bool.false_ne_true
  | lock =>
      obtain ⟨-, rfl⟩ := hsem
      exact .keep rfl Iff.rfl
  | enter | leave =>
      subst hsem
      exact .keep rfl Iff.rfl
  | unlock =>
      subst hsem
      refine .keep rfl ?_
      rw [next_map]
      exact Iff.rfl

/-- The mutexes of the paths. -/
lemma held_step (h : Moves lib cacheDir s o r s') (hsem : o.Sem cacheDir p w r w') (m : ℕ) :
    MutexStep p (w.holders m) (w'.holders m) (s.held = some m) (s'.held = some m) := by
  cases h with
  | cached | missing | found | notFound | fetch =>
      obtain ⟨fs', -, rfl⟩ := LockOp.sem_cache hsem
      exact .keep rfl Iff.rfl
  | lockMap =>
      obtain ⟨-, rfl⟩ := hsem
      exact .keep rfl Iff.rfl
  | entry => rcases hsem with ⟨-, rfl⟩ | ⟨-, -, rfl⟩ <;> exact .keep rfl Iff.rfl
  | unlockMap | enter | leave =>
      subst hsem
      exact .keep rfl Iff.rfl
  | @lock b m' rest =>
      obtain ⟨hfree, rfl⟩ := hsem
      by_cases hm : m = m'
      · subst hm
        exact .take hfree (Function.update_self _ _ _) rfl
      · exact .keep (Function.update_of_ne hm _ _) (by simp [held, Ne.symm hm])
  | @unlock b m' r rest =>
      subst hsem
      by_cases hm : m = m'
      · subst hm
        exact .give rfl (Function.update_self _ _ _) (by simp)
      · refine .keep (Function.update_of_ne hm _ _) ?_
        rw [next_held]
        exact iff_of_false (fun h => by cases h) fun h => hm (Option.some.inj h).symm

/-- What is marked as being fetched. -/
lemma running_step (h : Moves lib cacheDir s o r s') (hsem : o.Sem cacheDir p w r w')
    (hw : w.running p = s.fetching) :
    w'.running = Function.update w.running p s'.fetching := by
  -- nothing is marked anew
  have hkeep (heq : s'.fetching = s.fetching) :
      w.running = Function.update w.running p s'.fetching := by
    rw [heq, ← hw, Function.update_eq_self]
  cases h with
  | cached | missing | found | notFound | fetch =>
      obtain ⟨fs', -, rfl⟩ := LockOp.sem_cache hsem
      exact hkeep rfl
  | lockMap | lock =>
      obtain ⟨-, rfl⟩ := hsem
      exact hkeep rfl
  | entry => rcases hsem with ⟨-, rfl⟩ | ⟨-, -, rfl⟩ <;> exact hkeep rfl
  | unlockMap =>
      subst hsem
      exact hkeep rfl
  | enter | leave =>
      subst hsem
      rfl
  | unlock =>
      subst hsem
      exact hkeep (next_fetching _ _)

/-- The files. -/
lemma kept (h : Moves lib cacheDir s o r s') (hsem : o.Sem cacheDir p w r w') :
    Kept cacheDir w.fs w'.fs := by
  cases h with
  | cached | missing | found | notFound | fetch =>
      obtain ⟨fs', hkept, rfl⟩ := LockOp.sem_cache hsem
      exact hkept
  | lockMap | lock =>
      obtain ⟨-, rfl⟩ := hsem
      exact .refl _ _
  | entry => rcases hsem with ⟨-, rfl⟩ | ⟨-, -, rfl⟩ <;> exact .refl _ _
  | unlockMap | enter | leave | unlock =>
      subst hsem
      exact .refl _ _

/-- What has been fetched is what was, or what this call has fetched now. -/
lemma succeeded_step (h : Moves lib cacheDir s o r s') (hsem : o.Sem cacheDir p w r w') {b : String}
    (hb : w'.succeeded b) :
    w.succeeded b ∨ ∃ m rest, s = fetches b m (.pure (.ok ())) rest := by
  cases h with
  | cached | missing | found | notFound | fetch =>
      obtain ⟨fs', -, rfl⟩ := LockOp.sem_cache hsem
      exact .inl hb
  | lockMap | lock =>
      obtain ⟨-, rfl⟩ := hsem
      exact .inl hb
  | entry => rcases hsem with ⟨-, rfl⟩ | ⟨-, -, rfl⟩ <;> exact .inl hb
  | unlockMap | enter | unlock =>
      subst hsem
      exact .inl hb
  | @leave b' m r rest =>
      subst hsem
      rcases hb with hb | ⟨rfl, rfl⟩
      · exact .inl hb
      · exact .inr ⟨m, rest, rfl⟩

/-- A mutex stays that of its path. -/
lemma mutexes_mono (h : Moves lib cacheDir s o r s') (hsem : o.Sem cacheDir p w r w') {b : String}
    {m : ℕ} (hm : w.mutexes b = some m) : w'.mutexes b = some m := by
  cases h with
  | cached | missing | found | notFound | fetch =>
      obtain ⟨fs', -, rfl⟩ := LockOp.sem_cache hsem
      exact hm
  | lockMap | lock =>
      obtain ⟨-, rfl⟩ := hsem
      exact hm
  | @entry b' rest m' =>
      rcases hsem with ⟨-, rfl⟩ | ⟨hnone, -, rfl⟩
      · exact hm
      · refine (Function.update_of_ne ?_ _ _).trans hm
        rintro rfl
        rw [hnone] at hm
        cases hm
  | unlockMap | enter | leave | unlock =>
      subst hsem
      exact hm

/-- A mutex is made with a number of its own. -/
lemma numbered (h : Moves lib cacheDir s o r s') (hsem : o.Sem cacheDir p w r w')
    (hw : w.Numbered) : w'.Numbered := by
  cases h with
  | cached | missing | found | notFound | fetch =>
      obtain ⟨fs', -, rfl⟩ := LockOp.sem_cache hsem
      exact ⟨hw.injective, hw.made⟩
  | lockMap | lock =>
      obtain ⟨-, rfl⟩ := hsem
      exact ⟨hw.injective, hw.made⟩
  | @entry b' rest m' =>
      rcases hsem with ⟨-, rfl⟩ | ⟨hnone, rfl, rfl⟩
      · exact hw
      · exact hw.make b'
  | unlockMap | enter | leave | unlock =>
      subst hsem
      exact ⟨hw.injective, hw.made⟩

/-- The path of a call has its mutex. -/
lemma named_step (h : Moves lib cacheDir s o r s') (hsem : o.Sem cacheDir p w r w')
    (hs : ∀ b m, s.named = some (b, m) → w.mutexes b = some m) :
    ∀ b m, s'.named = some (b, m) → w'.mutexes b = some m := by
  intro b m hb
  by_cases hname : s.named = some (b, m)
  · exact h.mutexes_mono hsem (hs b m hname)
  · cases h with
    | cached | missing | lockMap => cases hb
    | entry =>
        cases hb
        rcases hsem with ⟨hm, rfl⟩ | ⟨-, -, rfl⟩
        · exact hm
        · exact Function.update_self _ _ _
    | unlockMap | lock | found | notFound | enter | fetch | leave => exact absurd hb hname
    | unlock =>
        rw [next_named] at hb
        cases hb

/-- What a call relies on where it is. -/
lemma ok (h : Moves lib cacheDir s o r s') (hsem : o.Sem cacheDir p w r w')
    (hs : s.Ok cacheDir w) (hw : ∀ b, w.succeeded b → HasEntry cacheDir b w.fs) :
    s'.Ok cacheDir w' := by
  refine ⟨h.named_step hsem hs.named, fun b m rest hb => ?_, fun b m prog rest hb => ?_⟩
  · cases h with
    | notFound =>
        cases hb
        obtain ⟨fs', -, hexists, -, rfl⟩ := hsem
        exact fun hb => Bool.false_ne_true (hexists.mpr (hw _ hb).2)
    | @unlock b' m' r' rest' =>
        have hnone := next_named r' rest'
        rw [hb] at hnone
        cases hnone
    | _ => cases hb
  · cases h with
    | enter =>
        cases hb
        exact .inr (okAfter_fetchAndExtract lib cacheDir b)
    | @fetch b' m' o k r' rest' =>
        cases hb
        rcases hs.places _ _ _ _ rfl with hentry | hafter
        · obtain ⟨fs', hkept, rfl⟩ := LockOp.sem_cache hsem
          exact .inl (hkept b hentry)
        · exact (hafter r').imp_left fun hplaced => hplaced.hasEntry hsem
    | @unlock b' m' r' rest' =>
        have hnone := next_named r' rest'
        rw [hb] at hnone
        cases hnone
    | _ => cases hb

end Moves

/-- Somebody else's move. -/
lemma Ok.stable {cacheDir : String} {w w' : LockWorld} {s : Stage} (h : s.Ok cacheDir w)
    (hmutexes : ∀ b m, w.mutexes b = some m → w'.mutexes b = some m)
    (hsucceeded : ∀ b m rest, s = enters b m rest → w'.succeeded b → w.succeeded b)
    (hkept : Kept cacheDir w.fs w'.fs) : s.Ok cacheDir w' where
  named b m hb := hmutexes b m (h.named b m hb)
  fresh b m rest hs hb := h.fresh b m rest hs (hsucceeded b m rest hs hb)
  places b m prog rest hs := (h.places b m prog rest hs).imp_left (hkept b)

/-- A call at its beginning or its end. -/
def Quiet (s : Stage) : Prop := s.named = none ∧ s.map = false

lemma Quiet.held_eq {s : Stage} (h : s.Quiet) : s.held = none := by
  obtain ⟨hnamed, -⟩ := h
  cases s <;> first | rfl | cases hnamed

lemma Quiet.fetching_eq {s : Stage} (h : s.Quiet) : s.fetching = none := by
  obtain ⟨hnamed, -⟩ := h
  cases s <;> first | rfl | cases hnamed

lemma Quiet.ok {s : Stage} (h : s.Quiet) (cacheDir : String) (w : LockWorld) : s.Ok cacheDir w where
  named b m hb := by
    rw [h.1] at hb
    cases hb
  fresh b m rest hs := by
    subst hs
    exact absurd h.1 (Option.some_ne_none _)
  places b m prog rest hs := by
    subst hs
    exact absurd h.1 (Option.some_ne_none _)

/-- What a call is fetching, it has the mutex of. -/
lemma held_of_fetching {s : Stage} {b : String} (h : s.fetching = some b) :
    ∃ m, s.named = some (b, m) ∧ s.held = some m := by
  cases s with
  | fetches b' m prog rest =>
      cases h
      exact ⟨m, rfl, rfl⟩
  | _ => cases h

end Stage

namespace LocksAgree

variable {lib : Libraries} {cacheDir : String} {stages : ℕ → Stage} {w w' : LockWorld} {p q : ℕ}

/-- **One at a time.**  Two calls that have the mutex of one path are the same. -/
lemma eq_of_named (h : LocksAgree cacheDir stages w) {b : String} {m m' : ℕ}
    (hp : (stages p).named = some (b, m)) (hpm : (stages p).held = some m)
    (hq : (stages q).named = some (b, m')) (hqm : (stages q).held = some m') : p = q := by
  have hm : m = m' := by
    have heq := ((h.ok p).named b m hp).symm.trans ((h.ok q).named b m' hq)
    exact Option.some.inj heq
  subst hm
  exact (h.held m).unique hpm hqm

/-- A call moves. -/
lemma move (h : LocksAgree cacheDir stages w) {s' : Stage} {o : LockOp} {r : lockInterface.Answer o}
    (hmove : Stage.Moves lib cacheDir (stages p) o r s') (hsem : o.Sem cacheDir p w r w') :
    LocksAgree cacheDir (Function.update stages p s') w' := by
  have hself : Function.update stages p s' p = s' := Function.update_self _ _ _
  have hother (q : ℕ) (hq : q ≠ p) : Function.update stages p s' q = stages q :=
    Function.update_of_ne hq _ _
  have hrunning := hmove.running_step hsem (h.running p)
  have hkept := hmove.kept hsem
  refine ⟨fun q => ?_, ?_, fun m => ?_, fun q => ?_, hmove.numbered hsem h.numbered, fun b hb => ?_⟩
  · by_cases hq : q = p
    · subst hq
      rw [hself]
      exact hmove.ok hsem (h.ok q) h.present
    · rw [hother q hq]
      refine (h.ok q).stable (fun b m => hmove.mutexes_mono hsem) (fun b m rest hs hb => ?_) hkept
      -- who has fetched this path now has the mutex the other call has
      refine (hmove.succeeded_step hsem hb).resolve_right ?_
      rintro ⟨m', rest', hp⟩
      exact hq (h.eq_of_named (by rw [hs]; rfl) (by rw [hs]; rfl) (by rw [hp]; rfl)
        (by rw [hp]; rfl))
  · refine h.map.step (fun q hq => by rw [hother q hq]) ?_
    rw [hself]
    exact hmove.map_step hsem
  · refine (h.held m).step (fun q hq => by rw [hother q hq]) ?_
    rw [hself]
    exact hmove.held_step hsem m
  · rw [hrunning]
    by_cases hq : q = p
    · subst hq
      rw [hself, Function.update_self]
    · rw [hother q hq, Function.update_of_ne hq, h.running q]
  · rcases hmove.succeeded_step hsem hb with hb | ⟨m, rest, hp⟩
    · exact hkept b (h.present b hb)
    · rcases (h.ok p).places b m _ rest hp with hentry | ⟨e, he⟩
      · exact hkept b hentry
      · cases he

/-- A call begins or ends. -/
lemma quiet (h : LocksAgree cacheDir stages w) {s' : Stage} (hp : (stages p).Quiet)
    (hs' : s'.Quiet) : LocksAgree cacheDir (Function.update stages p s') w := by
  have hself : Function.update stages p s' p = s' := Function.update_self _ _ _
  have hother (q : ℕ) (hq : q ≠ p) : Function.update stages p s' q = stages q :=
    Function.update_of_ne hq _ _
  refine ⟨fun q => ?_, ?_, fun m => ?_, fun q => ?_, h.numbered, h.present⟩
  · by_cases hq : q = p
    · subst hq
      rw [hself]
      exact hs'.ok cacheDir w
    · rw [hother q hq]
      exact h.ok q
  · refine h.map.step (fun q hq => by rw [hother q hq]) (.keep rfl ?_)
    rw [hself, hs'.2, hp.2]
  · refine (h.held m).step (fun q hq => by rw [hother q hq]) (.keep rfl ?_)
    rw [hself, hs'.held_eq, hp.held_eq]
  · by_cases hq : q = p
    · subst hq
      rw [hself, hs'.fetching_eq, h.running q, hp.fetching_eq]
    · rw [hother q hq]
      exact h.running q

/-- The surroundings act. -/
lemma files (h : LocksAgree cacheDir stages w) {fs' : FS} (hkept : Kept cacheDir w.fs fs') :
    LocksAgree cacheDir stages { w with fs := fs' } where
  ok q := (h.ok q).stable (fun _ _ hm => hm) (fun _ _ _ _ hb => hb) hkept
  map := h.map
  held := h.held
  running := h.running
  numbered := ⟨h.numbered.injective, h.numbered.made⟩
  present b hb := hkept b (h.present b hb)

/-- Before the first call. -/
lemma first (cacheDir : String) (fs : FS) :
    LocksAgree cacheDir (fun _ => .loop []) (LockWorld.first fs) where
  ok _ := Stage.Quiet.ok ⟨rfl, rfl⟩ _ _
  map _ := iff_of_false (fun h => by cases h) Bool.false_ne_true
  held _ _ := iff_of_false (fun h => by cases h) fun h => by cases h
  running _ := rfl
  numbered := ⟨fun _ _ _ h => (by cases h), fun _ _ h => (by cases h)⟩
  present _ h := h.elim

end LocksAgree

end Niphas
