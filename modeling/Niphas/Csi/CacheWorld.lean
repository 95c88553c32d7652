import Niphas.Csi.ExtractTree
import Niphas.Lib.Triple

/-!
# The node-local cache as a system

The calls of `NarCache` by any number of tasks at once, over a file system all of whose calls may
fail, with any answers of the binary caches.  The driver may crash at any point, which ends all
calls and leaves the files; it then starts again, with some process id.

**What a step is.**  One step of a task is one call: of the file system, of a mutex, of the binary
cache client.  Between any two of them all other tasks may have their turn.  A call of the file
system is one step, though `create_dir_all`, `write` and `remove_dir_all` are more than one on a
real node.  What they are used on belongs to one task, and a call that fails may leave part of its
work behind (`FsOp.Sem`), so a crash in the middle of one is covered as well.  Nobody but the driver
changes the files.

**What may be asked for.**  `ensure_cached` is given any text.  It fails on one that is no store
path, but it does not ask whether the text has a `/` behind the dash, and the parser lets it through
(`accepted_children`).  Such a path is extracted below the entry of another one, and changes that
entry.  So what is said of entries in the modules on this system holds for calls whose paths name
single entries, and `CacheCall.Begins` has this as a condition on every call.  Nix itself writes no
such names.

**How it is proved.**  By rely and guarantee: a task relies on what is under a mutex of its own, and
guarantees that it changes nothing else.  What has been fetched for a path is remembered in the
world, in a field that no call reads, so that an entry can be compared with it.

* `nodeCache` — the system.
* `CacheInv` — nothing outside the cache directory changes, and an entry that is not a temporary
  directory is the tree of one NAR that matches a narinfo fetched for it.
* `cacheRules` — a task owns the temporary directory of the path whose mutex it holds.
-/

namespace Niphas

open FileSystem System

/-! ## The system -/

/-- What the driver on the node is doing. -/
inductive DriverPhase where
  | down
  | starting (p : ℕ)
  | serving

/-- The state of a node: its files, the holders of the mutexes, and the driver. -/
structure CacheWorld where
  fs : FS
  locks : String → Option ℕ
  pid : ℕ
  phase : DriverPhase
  /-- The narinfos fetched so far for each path, by the task that held its mutex.  No call reads
  this. -/
  fetched : String → NarInfo → Prop

/-- What is called. -/
inductive CacheCall where
  | startUp
  | ensureCached (paths : List String)

/-- What an operation of task `p` may answer and leave. -/
def CacheOp.Sem (p : ℕ) : (o : CacheOp) → CacheWorld → cacheInterface.Answer o → CacheWorld → Prop
  | .fs o, w, r, w' => ∃ fs', o.Sem w.fs r fs' ∧ w' = { w with fs := fs' }
  | .lock b, w, _, w' =>
      w.locks b = none ∧ w' = { w with locks := Function.update w.locks b (some p) }
  | .unlock b, w, _, w' => w' = { w with locks := Function.update w.locks b none }
  | .fetchNarinfoByHash _, w, r, w' =>
      w' = { w with fetched := fun b info => w.fetched b info ∨ w.locks b = some p ∧ r = .ok info }
  | .fetchNar _, w, _, w' => w' = w
  | .processId, w, r, w' => r = w.pid ∧ w' = w
  | .listen, w, r, w' =>
      match r with
      | .ok () => w' = { w with phase := .serving }
      | .error _ => w' = w

/-- The driver starts when it is down, and takes calls when it has started.  The paths of a call
name single entries of the cache directory.  `parse_basename` lets `/` through in a name, so the
driver itself would also take a path that leads into the entry of another one. -/
def CacheCall.Begins (w : CacheWorld) (p : ℕ) : CacheCall → CacheWorld → Prop
  | .startUp, w' => w.phase = .down ∧ ∃ pid, w' = { w with phase := .starting p, pid }
  | .ensureCached paths, w' =>
      w.phase = .serving ∧ (∀ path ∈ paths, IsName (stripStoreDir path)) ∧ w' = w

/-- The cache of a node, for calls whose paths name single entries of the cache directory
(`CacheCall.Begins`). -/
def nodeCache (lib : Libraries) (cacheDir : String) : System where
  iface := cacheInterface
  World := CacheWorld
  Call := CacheCall
  Out := Result Unit
  program
    | .startUp => startUp cacheDir
    | .ensureCached paths => ensureCached lib cacheDir paths
  sem := CacheOp.Sem
  begins w _ p call w' := call.Begins w p w'
  env _ _ := False
  crash w w' := w' = { w with locks := fun _ => none, phase := .down }

/-- A node before its driver starts for the first time. -/
def CacheWorld.first (fs : FS) : CacheWorld where
  fs := fs
  locks _ := none
  pid := 0
  phase := .down
  fetched _ _ := False

/-! ## What holds in every state

Entries are compared with narinfos that were *fetched for them*.  A tree that matches some narinfo
of another path would not do.
-/

/-- A NAR whose bytes match both hashes of the narinfo holds this tree. -/
def MatchesNar (lib : Libraries) (info : NarInfo) (node : NarNode) : Prop :=
  ∃ data nar, sha256Hash lib.sha256 data = info.fileHash ∧
    decompressNar lib info data = .ok nar ∧
      NarReader.parse lib.sha256 (NarReader.new nar) = .ok (node, info.narHash)

/-- `t` is the tree of one NAR that matches a narinfo fetched for `basename`. -/
def CacheWorld.Intact (lib : Libraries) (w : CacheWorld) (basename : String) (t : FS) : Prop :=
  ∃ info node, w.fetched basename info ∧ MatchesNar lib info node ∧ t = nodeTree node

/-- Where a path is extracted. -/
def tmpPath (d : Path) (basename : String) (pid : ℕ) : Path := d ++ [tmpName basename pid]

/-- The invariant, where the cache directory is `d` and `fs₀` were the files at the beginning, and
every narinfo that is fetched is to be `Good`. -/
structure CacheInv (lib : Libraries) (cacheDir : String) (d : Path) (fs₀ : FS)
    (Good : String → NarInfo → Prop) (w : CacheWorld) : Prop where
  owned : Owned fs₀ cacheDir d w.fs
  good : ∀ b info, w.fetched b info → Good b info
  free : w.phase ≠ .serving → ∀ b, w.locks b = none
  entries : ∀ name, ¬ IsTmp name → subtree w.fs (d ++ [name]) = subtree fs₀ (d ++ [name]) ∨
    w.Intact lib name (subtree w.fs (d ++ [name]))

/-! ## Rely and guarantee

A task owns the temporary directories of the paths whose mutexes it holds.  That is not a lock on a
region of the file system, and nobody checks it; it holds because all tasks keep to it.
-/

/-- What task `p` relies on: the driver keeps running, and nobody else touches what is under a
mutex of its own. -/
structure CacheRely (d : Path) (p : ℕ) (w w' : CacheWorld) : Prop where
  starting : w.phase = .starting p → w'.phase = .starting p
  serving : w.phase = .serving → w'.phase = .serving ∧ w'.pid = w.pid
  own : w.phase = .serving → ∀ b, w.locks b = some p → w'.locks b = some p ∧
    subtree w'.fs (tmpPath d b w.pid) = subtree w.fs (tmpPath d b w.pid)
  fetched : ∀ b info, w.fetched b info → w'.fetched b info

/-- Task `p` changes files in a temporary directory of its own only, or moves it away. -/
def LocalChange (d : Path) (p : ℕ) (w w' : CacheWorld) : Prop :=
  w'.fs = w.fs ∨ ∃ b, w.locks b = some p ∧
    (SameBut (tmpPath d b w.pid) w.fs w'.fs ∨
      w.fs (tmpPath d b w.pid) ≠ none ∧ w'.fs (tmpPath d b w.pid) = none)

/-- What task `p` guarantees. -/
structure CacheGuar (d : Path) (p : ℕ) (w w' : CacheWorld) : Prop where
  others : ∀ q, q ≠ p → CacheRely d q w w'
  change : w.phase = .serving → LocalChange d p w w'
  fetched : ∀ b info, w.fetched b info → w'.fetched b info

/-- The answers considered: a temporary directory that is created was vacant, and a narinfo that is
fetched is `Good`. -/
def CacheAllowed (cacheDir : String) (d : Path) (Good : String → NarInfo → Prop) (p : ℕ) :
    (o : CacheOp) → cacheInterface.Answer o → CacheWorld → Prop
  | .fs (.createDirAll path), _, w => ∀ b, w.locks b = some p →
      path = joinPath cacheDir (tmpName b w.pid) → Vacant w.fs (tmpPath d b w.pid)
  | .fetchNarinfoByHash _, r, w => ∀ b info, w.locks b = some p → r = .ok info → Good b info
  | _, _, _ => True

section

variable {lib : Libraries} {cacheDir : String} {d : Path} {fs₀ : FS}
  {Good : String → NarInfo → Prop} {p : ℕ} {w w' w'' : CacheWorld}

lemma CacheRely.refl (d : Path) (p : ℕ) (w : CacheWorld) : CacheRely d p w w :=
  ⟨id, fun h => ⟨h, rfl⟩, fun _ _ h => ⟨h, rfl⟩, fun _ _ h => h⟩

lemma CacheRely.trans (h : CacheRely d p w w') (h' : CacheRely d p w' w'') :
    CacheRely d p w w'' := by
  refine ⟨fun hp => h'.starting (h.starting hp), fun hs => ?_, fun hs b hb => ?_,
    fun b info hb => h'.fetched b info (h.fetched b info hb)⟩
  · obtain ⟨hs', hpid⟩ := h.serving hs
    exact ⟨(h'.serving hs').1, (h'.serving hs').2.trans hpid⟩
  · obtain ⟨hs', hpid⟩ := h.serving hs
    obtain ⟨hb', hsub⟩ := h.own hs b hb
    obtain ⟨hb'', hsub'⟩ := h'.own hs' b hb'
    rw [hpid] at hsub'
    exact ⟨hb'', hsub'.trans hsub⟩

lemma CacheGuar.refl (d : Path) (p : ℕ) (w : CacheWorld) : CacheGuar d p w w :=
  ⟨fun q _ => CacheRely.refl d q w, fun _ => .inl rfl, fun _ _ h => h⟩

/-- A crash keeps the invariant. -/
lemma CacheInv.crash (h : CacheInv lib cacheDir d fs₀ Good w) :
    CacheInv lib cacheDir d fs₀ Good { w with locks := fun _ => none, phase := .down } :=
  ⟨h.owned, h.good, fun _ _ => rfl, h.entries⟩

end

/-- The rules of the cache. -/
def cacheRules (lib : Libraries) (cacheDir : String) (d : Path) (fs₀ : FS)
    (Good : String → NarInfo → Prop) : RelyGuarantee (nodeCache lib cacheDir) where
  inv := CacheInv lib cacheDir d fs₀ Good
  allowed := CacheAllowed cacheDir d Good
  rely := CacheRely d
  guar := CacheGuar d
  rely_refl := CacheRely.refl d
  rely_trans := CacheRely.trans
  guar_rely hpq _ hguar := hguar.others _ (Ne.symm hpq)
  env_ok _ henv := henv.elim
  crash_ok hinv hcrash := by
    subst hcrash
    exact hinv.crash

/-! ## What a task holds -/

/-- Task `p` is extracting `b`: it holds the mutex, and `t` is in the temporary directory. -/
structure Working (d : Path) (p : ℕ) (b : String) (pid : ℕ) (t : FS) (w : CacheWorld) : Prop where
  serving : w.phase = .serving
  pid_eq : w.pid = pid
  lock : w.locks b = some p
  tree : subtree w.fs (tmpPath d b pid) = t

/-- Task `p` holds the mutex of `b`. -/
structure Holding (p : ℕ) (b : String) (w : CacheWorld) : Prop where
  serving : w.phase = .serving
  lock : w.locks b = some p

section

variable {lib : Libraries} {cacheDir : String} {d : Path} {fs₀ : FS}
  {Good : String → NarInfo → Prop} {p pid : ℕ} {b : String} {t : FS} {w w' : CacheWorld}

lemma Working.holding (h : Working d p b pid t w) : Holding p b w := ⟨h.serving, h.lock⟩

lemma stable_working :
    (cacheRules lib cacheDir d fs₀ Good).Stable p (Working d p b pid t) := by
  rintro w w' - ⟨hs, rfl, hb, rfl⟩ hr -
  obtain ⟨hs', hpid⟩ := hr.serving hs
  obtain ⟨hb', hsub⟩ := hr.own hs b hb
  exact ⟨hs', hpid, hb', hsub⟩

lemma stable_holding : (cacheRules lib cacheDir d fs₀ Good).Stable p (Holding p b) := by
  rintro w w' - ⟨hs, hb⟩ hr -
  exact ⟨(hr.serving hs).1, (hr.own hs b hb).1⟩

lemma stable_serving :
    (cacheRules lib cacheDir d fs₀ Good).Stable p fun w => w.phase = .serving :=
  fun _ _ _ hs hr _ => (hr.serving hs).1

lemma stable_starting :
    (cacheRules lib cacheDir d fs₀ Good).Stable p fun w => w.phase = .starting p :=
  fun _ _ _ hs hr _ => hr.starting hs

lemma stable_fetched {info : NarInfo} :
    (cacheRules lib cacheDir d fs₀ Good).Stable p fun w => w.fetched b info :=
  fun _ _ _ hb hr _ => hr.fetched b info hb

end

end Niphas
