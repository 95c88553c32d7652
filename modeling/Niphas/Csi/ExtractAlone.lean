import Niphas.Csi.Extraction

/-!
# Extraction with nothing in between

`extract_node` on files that nobody else touches, in a directory of its own: what a run leaves, by
the answers of its calls.

Among other tasks, only what holds of every answer can be said (`Extraction`).  On its own, a run is
determined by the files it starts from and the answers it gets, and the two directions of an
equivalence can be asked for: it leaves a trace exactly when .., it succeeds exactly when ...  The
run is recorded as a log of calls and answers, and what is said about a failure is said about the
log.

Two file systems are used for this.  In the one any call may fail at any time (`FsOp.Sem`); in the
other no call fails that could succeed (`FsOp.Ideal`), so that "it fails" means that the code has
asked for something impossible.

* `CacheOp.OnDisk` — the operations of the cache on files alone.
* `extractNode_lookup` — wherever it extracts to, every path leads where it led.
* `extractNode_error_iff` — it fails when one of its calls does.
* `extractNode_leaves` — at a free place it changes nothing else, and where it succeeds, the tree is
  there.
* `extractNode_ideal` — it succeeds where every call does that can, and every target is one.
-/

namespace Niphas

open FileSystem

/-! ## Operations on files alone -/

/-- What an operation does to the files, given what the calls of the file system do.  The caches
answer anything. -/
def CacheOp.OnDisk (pid : ℕ) (sem : (o : FsOp) → FS → o.Answer → FS → Prop) :
    (o : CacheOp) → FS → cacheInterface.Answer o → FS → Prop
  | .fs o, files, r, files' => sem o files r files'
  | .processId, files, r, files' => r = pid ∧ files' = files
  | _, files, _, files' => files' = files

/-- The calls a run makes, with their answers. -/
abbrev CacheLog := List (Σ o : CacheOp, cacheInterface.Answer o)

/-- A run of the cache's code on files alone. -/
abbrev DiskRun (pid : ℕ) (sem : (o : FsOp) → FS → o.Answer → FS → Prop) {α : Type} (prog : CacheM α)
    (fs : FS) (log : CacheLog) (r : Result α) (fs' : FS) : Prop :=
  prog.run.Runs (CacheOp.OnDisk pid sem) fs log r fs'

section

variable {pid : ℕ} {sem : (o : FsOp) → FS → o.Answer → FS → Prop} {fs fs' : FS} {log : CacheLog}
  {α : Type}

/-- A file system that does less. -/
lemma DiskRun.weaken {sem' : (o : FsOp) → FS → o.Answer → FS → Prop}
    (hsem : ∀ o fs r fs', sem o fs r fs' → sem' o fs r fs') {prog : CacheM α} {r : Result α}
    (h : DiskRun pid sem prog fs log r fs') : DiskRun pid sem' prog fs log r fs' := by
  refine Prog.Runs.imp (fun o fs r fs' hs => ?_) h
  cases o with
  | fs o => exact hsem o _ _ _ hs
  | _ => exact hs

/-- A call with `?` on its answer. -/
lemma DiskRun.of_io {o : FsOp} {f : o.Answer → Except String Unit} {rest : Unit → CacheM α}
    {r : Result α}
    (h : DiskRun pid sem (CacheM.op (.fs o) >>= fun a => CacheM.ofIo (f a) >>= rest) fs log r fs') :
    ∃ a fs₁ log', log = ⟨.fs o, a⟩ :: log' ∧ sem o fs a fs₁ ∧
      ((∃ e, f a = .error e ∧ r = fail (.io e) ∧ log' = [] ∧ fs' = fs₁) ∨
        f a = .ok () ∧ DiskRun pid sem (rest ()) fs₁ log' r fs') := by
  obtain ⟨a, log', fs₁, rfl, hsem, h⟩ := Prog.Runs.of_call h
  refine ⟨a, fs₁, log', rfl, hsem, ?_⟩
  change DiskRun pid sem (CacheM.ofIo (f a) >>= rest) fs₁ log' r fs' at h
  cases hf : f a with
  | error e =>
      rw [hf] at h
      obtain ⟨rfl, rfl, rfl⟩ := Prog.Runs.of_pure h
      exact .inl ⟨e, rfl, rfl, rfl, rfl⟩
  | ok u =>
      rw [hf] at h
      exact .inr ⟨rfl, h⟩

/-- The same with nothing behind it. -/
lemma DiskRun.of_lastIo {o : FsOp} {f : o.Answer → Except String Unit} {r : Result Unit}
    (h : DiskRun pid sem (CacheM.op (.fs o) >>= fun a => CacheM.ofIo (f a)) fs log r fs') :
    ∃ a, log = [⟨.fs o, a⟩] ∧ sem o fs a fs' ∧
      ((∃ e, f a = .error e ∧ r = fail (.io e)) ∨ f a = .ok () ∧ r = .ok ()) := by
  have heq : (fun a => CacheM.ofIo (f a)) = fun a => CacheM.ofIo (f a) >>= pure :=
    funext fun a => (bind_pure _).symm
  rw [heq] at h
  obtain ⟨a, fs₁, log', rfl, hsem, ⟨e, he, rfl, rfl, rfl⟩ | ⟨hok, h⟩⟩ := DiskRun.of_io h
  · exact ⟨a, rfl, hsem, .inl ⟨e, he, rfl⟩⟩
  · obtain ⟨rfl, rfl, rfl⟩ := Prog.Runs.of_pure h
    exact ⟨a, rfl, hsem, .inr ⟨hok, rfl⟩⟩

end

/-- What an operation does to a node, it does to its files. -/
lemma CacheOp.Sem.onDisk {p : ℕ} {o : CacheOp} {w w' : CacheWorld} {r : cacheInterface.Answer o}
    (hs : o.Sem p w r w') : CacheOp.OnDisk w.pid FsOp.Sem o w.fs r w'.fs ∧ w'.pid = w.pid := by
  cases o with
  | fs o =>
      obtain ⟨fs', hs, rfl⟩ := hs
      exact ⟨hs, rfl⟩
  | processId =>
      obtain ⟨rfl, rfl⟩ := hs
      exact ⟨⟨rfl, rfl⟩, rfl⟩
  | lock b =>
      obtain ⟨-, rfl⟩ := hs
      exact ⟨rfl, rfl⟩
  | listen => rcases r with e | u <;> cases hs <;> exact ⟨rfl, rfl⟩
  | unlock b | fetchNarinfoByHash hash | fetchNar info =>
      cases hs
      exact ⟨rfl, rfl⟩

/-- **A call of the node that runs alone** is a run on its files. -/
lemma exists_diskRun_of_solo {lib : Libraries} {cacheDir : String}
    {Q : (nodeCache lib cacheDir).OpCond}
    {p : ℕ} {α : Type} {prog : CacheM α} {w w' : CacheWorld} {r : Result α}
    (h : System.Solo (nodeCache lib cacheDir) Q p prog.run w r w') :
    ∃ log, DiskRun w.pid FsOp.Sem prog w.fs log r w'.fs := by
  obtain ⟨log, hrun⟩ := h.runs
  obtain ⟨_, hdisk, rfl, -⟩ := hrun.simulate (R := fun w₁ fs => fs = w₁.fs ∧ w₁.pid = w.pid)
    (fun o w₁ r w₂ fs hw hs => by
      obtain ⟨rfl, hpid⟩ := hw
      obtain ⟨hdisk, hpid'⟩ := CacheOp.Sem.onDisk hs
      rw [hpid] at hdisk hpid'
      exact ⟨_, hdisk, rfl, hpid'⟩) ⟨rfl, rfl⟩
  exact ⟨log, hdisk⟩

/-! ## Which calls it makes -/

/-- The calls of `extract_node`: it asks whether a path is there, and makes and changes entries. -/
def CacheOp.Extracts : CacheOp → Prop
  | .fs (.exists _) => True
  | .fs o => o.Writes
  | _ => False

mutual

lemma extractNode_all :
    ∀ (node : NarNode) (path : String), (extractNode node path).run.All CacheOp.Extracts
  | .regular executable contents, path => by
      rw [extractNode]
      refine ⟨trivial, fun a => ?_⟩
      cases a with
      | error e => exact trivial
      | ok u => exact ⟨trivial, fun a' => by cases a' <;> exact trivial⟩
  | .symlink target, path => by
      rw [extractNode]
      exact ⟨trivial, fun a => by cases a <;> exact trivial⟩
  | .directory entries, path => by
      rw [extractNode]
      refine ⟨trivial, fun a => ?_⟩
      cases a with
      | true => exact extractEntries_all entries path
      | false =>
          refine ⟨trivial, fun a => ?_⟩
          cases a with
          | error e => exact trivial
          | ok u => exact extractEntries_all entries path

lemma extractEntries_all :
    ∀ (entries : List NarEntry) (path : String),
      (extractEntries entries path).run.All CacheOp.Extracts
  | [], path => by
      rw [extractEntries]
      exact trivial
  | ⟨name, node⟩ :: rest, path => by
      rw [extractEntries]
      exact (extractNode_all node _).bindExcept fun _ => extractEntries_all rest path

end

/-- **It leaves every path where it leads**, also where something stands in its way. -/
lemma extractNode_lookup {pid : ℕ} {sem : (o : FsOp) → FS → o.Answer → FS → Prop}
    (hsem : ∀ o fs r fs', sem o fs r fs' → FsOp.Sem o fs r fs') {node : NarNode}
    {path path' : String} {fs fs' : FS} {log : CacheLog} {r : Result Unit}
    (h : DiskRun pid sem (extractNode node path) fs log r fs') {v : Path}
    (hv : lookup fs false path' = some v) : lookup fs' false path' = some v := by
  refine h.keeps (φ := fun fs => lookup fs false path' = some v) (fun o fs r fs' ho hs hv => ?_)
    (extractNode_all node path) hv
  cases o with
  | fs o =>
      have hs := hsem o fs r fs' hs
      cases o with
      | «exists» path => exact hs.1 ▸ hv
      | write | setPermissions | symlink | createDirAll =>
          exact hs.keeps_lookup (by exact trivial) hv
      | rename | removeDirAll | readDir => exact ho.elim
  | _ => exact ho.elim

/-! ## Which calls fail it -/

/-- A call that makes or changes an entry failed. -/
def WriteFailed : (Σ o : CacheOp, cacheInterface.Answer o) → Prop
  | ⟨.fs (.write _ _), r⟩ => ∃ e, r = .error e
  | ⟨.fs (.setPermissions _ _), r⟩ => ∃ e, r = .error e
  | ⟨.fs (.symlink _ _), r⟩ => ∃ e, r = .error e
  | ⟨.fs (.createDirAll _), r⟩ => ∃ e, r = .error e
  | _ => False

section

variable {pid : ℕ} {sem : (o : FsOp) → FS → o.Answer → FS → Prop}

/-- A failed call is the last one. -/
lemma DiskRun.error_iff_of_io {o : FsOp} {f : o.Answer → Except String Unit}
    (ho : ∀ a, WriteFailed ⟨.fs o, a⟩ ↔ ∃ e, f a = .error e) {rest : Unit → CacheM Unit}
    {fs fs' : FS} {log : CacheLog} {r : Result Unit}
    (h : DiskRun pid sem (CacheM.op (.fs o) >>= fun a => CacheM.ofIo (f a) >>= rest) fs log r fs')
    (hrest : ∀ {fs log r fs'}, DiskRun pid sem (rest ()) fs log r fs' →
      ((∃ e, r = .error e) ↔ ∃ x ∈ log, WriteFailed x)) :
    (∃ e, r = .error e) ↔ ∃ x ∈ log, WriteFailed x := by
  obtain ⟨a, fs₁, log', rfl, -, ⟨e, he, rfl, -, -⟩ | ⟨hok, h⟩⟩ := h.of_io
  · exact iff_of_true ⟨_, rfl⟩ ⟨_, List.mem_cons_self, (ho a).mpr ⟨e, he⟩⟩
  · have hdone : ¬ WriteFailed ⟨.fs o, a⟩ := by
      rw [ho a, hok]
      rintro ⟨e, he⟩
      cases he
    rw [hrest h, List.exists_mem_cons_iff, or_iff_right hdone]

lemma DiskRun.error_iff_of_lastIo {o : FsOp} {f : o.Answer → Except String Unit}
    (ho : ∀ a, WriteFailed ⟨.fs o, a⟩ ↔ ∃ e, f a = .error e) {fs fs' : FS} {log : CacheLog}
    {r : Result Unit}
    (h : DiskRun pid sem (CacheM.op (.fs o) >>= fun a => CacheM.ofIo (f a)) fs log r fs') :
    (∃ e, r = .error e) ↔ ∃ x ∈ log, WriteFailed x := by
  have heq : (fun a => CacheM.ofIo (f a)) = fun a => CacheM.ofIo (f a) >>= pure :=
    funext fun a => (bind_pure _).symm
  rw [heq] at h
  refine h.error_iff_of_io ho fun h => ?_
  obtain ⟨rfl, rfl, rfl⟩ := Prog.Runs.of_pure h
  exact iff_of_false (fun he => by cases he.choose_spec) fun hx => List.not_mem_nil hx.choose_spec.1

mutual

/-- **Extraction fails when one of its calls does**, and not otherwise. -/
lemma extractNode_error_iff :
    ∀ (node : NarNode) {path : String} {fs fs' : FS} {log : CacheLog} {r : Result Unit},
      DiskRun pid sem (extractNode node path) fs log r fs' →
      ((∃ e, r = .error e) ↔ ∃ x ∈ log, WriteFailed x)
  | .regular executable contents, path, fs, fs', log, r, h => by
      rw [extractNode] at h
      refine @DiskRun.error_iff_of_io pid sem (.write path contents) (fun a => a)
        (fun _ => Iff.rfl) _ _ _ _ _ h fun h => ?_
      exact @DiskRun.error_iff_of_lastIo pid sem (.setPermissions path _) (fun a => a)
        (fun _ => Iff.rfl) _ _ _ _ h
  | .symlink target, path, fs, fs', log, r, h => by
      rw [extractNode] at h
      exact @DiskRun.error_iff_of_lastIo pid sem (.symlink target path) (fun a => a)
        (fun _ => Iff.rfl) _ _ _ _ h
  | .directory entries, path, fs, fs', log, r, h => by
      rw [extractNode] at h
      obtain ⟨a, log', fs₁, rfl, -, h⟩ := Prog.Runs.of_call h
      have hexists : ¬ WriteFailed ⟨.fs (.exists path), a⟩ := id
      rw [List.exists_mem_cons_iff, or_iff_right hexists]
      cases a with
      | true => exact extractEntries_error_iff entries h
      | false =>
          exact @DiskRun.error_iff_of_io pid sem (.createDirAll path) (fun a => a)
            (fun _ => Iff.rfl) _ _ _ _ _ h (extractEntries_error_iff entries)

lemma extractEntries_error_iff :
    ∀ (entries : List NarEntry) {path : String} {fs fs' : FS} {log : CacheLog} {r : Result Unit},
      DiskRun pid sem (extractEntries entries path) fs log r fs' →
      ((∃ e, r = .error e) ↔ ∃ x ∈ log, WriteFailed x)
  | [], path, fs, fs', log, r, h => by
      rw [extractEntries] at h
      obtain ⟨rfl, rfl, rfl⟩ := Prog.Runs.of_pure h
      exact iff_of_false (fun he => by cases he.choose_spec) fun hx =>
        List.not_mem_nil hx.choose_spec.1
  | ⟨name, node⟩ :: rest, path, fs, fs', log, r, h => by
      rw [extractEntries] at h
      rcases Prog.Runs.of_bindExcept h with ⟨e, h₁, rfl⟩ | ⟨u, log₁, log₂, fs₁, rfl, h₁, h₂⟩
      · exact iff_of_true ⟨e, rfl⟩ ((extractNode_error_iff node h₁).mp ⟨e, rfl⟩)
      · rw [extractEntries_error_iff rest h₂]
        have hnone : ¬ ∃ x ∈ log₁, WriteFailed x := fun hx => by
          obtain ⟨e, he⟩ := (extractNode_error_iff node h₁).mpr hx
          cases he
        constructor
        · rintro ⟨x, hx, hf⟩
          exact ⟨x, List.mem_append_right _ hx, hf⟩
        · rintro ⟨x, hx, hf⟩
          exact ⟨x, (List.mem_append.mp hx).resolve_left fun hx => hnone ⟨x, hx, hf⟩, hf⟩

end

end

/-! ## What it leaves

A place is free if its path leads to it and nothing stands there.  For a new entry of a directory
that has just been made it always is.
-/

/-- A free place below the directory `dir`, for something new. -/
structure Spot (fs₀ : FS) (dir : String) (d : Path) (fs : FS) (path : String) (rel : Path) :
    Prop where
  owned : Owned fs₀ dir d fs
  names : Names dir path rel
  ne_nil : rel ≠ []
  way : Through (subtree fs d) rel
  free : subtree fs (d ++ rel) = emptyTree

/-- A directory below `dir`, or `dir` itself, with the entries `done` in it. -/
structure Inside (fs₀ : FS) (dir : String) (d : Path) (fs : FS) (path : String) (rel : Path)
    (done : List NarEntry) : Prop where
  owned : Owned fs₀ dir d fs
  names : Names dir path rel
  way : Through (subtree fs d) rel
  tree : subtree fs (d ++ rel) = nodeTree (.directory done)

/-- Nothing but the place changes, and `t` is there when it has succeeded. -/
structure Leaves (v : Path) (t : FS) (fs : FS) (r : Result Unit) (fs' : FS) : Prop where
  same : SameBut v fs fs'
  tree : r = .ok () → subtree fs' v = t

section

variable {fs₀ fs fs' : FS} {dir path : String} {d rel : Path} {done : List NarEntry} {pid : ℕ}
  {log : CacheLog} {r : Result Unit}

lemma Spot.none_at (h : Spot fs₀ dir d fs path rel) : fs (d ++ rel) = none := by
  have hroot := congrFun h.free []
  rwa [subtree, List.append_nil] at hroot

lemma Spot.not_link (h : Spot fs₀ dir d fs path rel) (target : String) :
    fs (d ++ rel) ≠ some (.symlink target) := by
  rw [h.none_at]
  exact fun heq => by cases heq

section

variable {sem : (o : FsOp) → FS → o.Answer → FS → Prop}
  (hsem : ∀ o fs r fs', sem o fs r fs' → FsOp.Sem o fs r fs') (h : Spot fs₀ dir d fs path rel)

include hsem h

/-- How a file is extracted: it is written, and then its mode is set. -/
lemma regular_run {executable : Bool} {contents : List UInt8}
    (hrun : DiskRun pid sem (extractNode (.regular executable contents) path) fs log r fs') :
    ∃ a fs₁, sem (.write path contents) fs a fs₁ ∧ SameBut (d ++ rel) fs fs₁ ∧
      ((∃ e, a = .error e ∧ r = fail (.io e) ∧ fs' = fs₁) ∨
        a = .ok () ∧ ∃ mode a', fs₁ = set fs (d ++ rel) (some (.file contents mode)) ∧
          fs₁ (d ++ rel) = some (.file contents mode) ∧
          sem (.setPermissions path (fileMode executable)) fs₁ a' fs' ∧
          ((∃ e, a' = .error e ∧ r = fail (.io e)) ∨ a' = .ok () ∧ r = .ok ())) := by
  rw [extractNode] at hrun
  obtain ⟨a, fs₁, log', -, hs, hrest⟩ :=
    @DiskRun.of_io pid _ _ _ _ _ (.write path contents) (fun a => a) _ _ hrun
  obtain ⟨hsame, hset⟩ := h.owned.write_sem h.names h.ne_nil h.way h.not_link (hsem _ _ _ _ hs)
  refine ⟨a, fs₁, hs, hsame, ?_⟩
  rcases hrest with ⟨e, he, rfl, -, rfl⟩ | ⟨hok, hrest⟩
  · exact .inl ⟨e, he, rfl, rfl⟩
  · obtain ⟨mode, hmode⟩ := hset hok
    obtain ⟨a', -, hs', hlast⟩ := @DiskRun.of_lastIo pid _ _ _ _ (.setPermissions path _)
      (fun a => a) _ hrest
    refine .inr ⟨hok, mode, a', hmode, ?_, hs', hlast⟩
    rw [hmode]
    exact set_self _ _ _

/-- How a directory is: it is not there, so it is made, and then filled. -/
lemma directory_run {entries : List NarEntry}
    (hrun : DiskRun pid sem (extractNode (.directory entries) path) fs log r fs') :
    ∃ a fs₁ log', sem (.createDirAll path) fs a fs₁ ∧ SameBut (d ++ rel) fs fs₁ ∧
      ((∃ e, a = .error e ∧ r = fail (.io e) ∧ fs' = fs₁) ∨
        a = .ok () ∧ fs₁ = set fs (d ++ rel) (some .dir) ∧
          DiskRun pid sem (extractEntries entries path) fs₁ log' r fs') := by
  rw [extractNode] at hrun
  obtain ⟨there, log', fs₁, rfl, hs, htail⟩ := Prog.Runs.of_call hrun
  obtain ⟨rfl, hthere⟩ :=
    h.owned.exists_sem h.names h.ne_nil h.way h.not_link (hsem _ _ _ _ hs)
  cases there with
  | true => exact absurd h.none_at (hthere rfl)
  | false =>
      obtain ⟨a, fs₂, log'', -, hs', hrest⟩ :=
        @DiskRun.of_io pid _ _ _ _ _ (.createDirAll path) (fun a => a) _ _ htail
      obtain ⟨hsame, hset⟩ := h.owned.createDirAll_sem h.names h.ne_nil h.way (.inl h.none_at)
        (hsem _ _ _ _ hs')
      refine ⟨a, fs₂, log'', hs', hsame, ?_⟩
      rcases hrest with ⟨e, he, rfl, -, rfl⟩ | ⟨hok, hrest⟩
      · exact .inl ⟨e, he, rfl, rfl⟩
      · exact .inr ⟨hok, hset hok, hrest⟩

end

/-- A file. -/
lemma regular_leaves (h : Spot fs₀ dir d fs path rel) {executable : Bool} {contents : List UInt8}
    (hrun : DiskRun pid FsOp.Sem (extractNode (.regular executable contents) path) fs log r fs') :
    Leaves (d ++ rel) (nodeTree (.regular executable contents)) fs r fs' := by
  obtain ⟨a, fs₁, -, hsame, ⟨e, -, rfl, rfl⟩ | ⟨-, mode, a', hmode, hfile, hs', hlast⟩⟩ :=
    regular_run (fun _ _ _ _ hs => hs) h hrun
  · exact ⟨hsame, fun hr => by cases hr⟩
  · obtain ⟨hsame', hset'⟩ := (h.owned.sameBut h.ne_nil hsame).setPermissions_sem h.names h.ne_nil
      (h.way.sameBut hsame) hfile hs'
    refine ⟨hsame.trans hsame', fun hr => ?_⟩
    rcases hlast with ⟨e, -, rfl⟩ | ⟨hok', -⟩
    · cases hr
    · rw [hset' hok', hmode, set_set, subtree_set_self, h.free, nodeTree_leaf rfl, nodeTree]

/-- A symlink. -/
lemma symlink_leaves (h : Spot fs₀ dir d fs path rel) {target : String}
    (hrun : DiskRun pid FsOp.Sem (extractNode (.symlink target) path) fs log r fs') :
    Leaves (d ++ rel) (nodeTree (.symlink target)) fs r fs' := by
  rw [extractNode] at hrun
  obtain ⟨a, -, hs, hlast⟩ := @DiskRun.of_lastIo pid _ _ _ _ (.symlink target path)
    (fun a => a) _ hrun
  obtain ⟨hsame, hset⟩ := h.owned.symlink_sem h.names h.ne_nil h.way hs
  refine ⟨hsame, fun hr => ?_⟩
  rcases hlast with ⟨e, -, rfl⟩ | ⟨hok, -⟩
  · cases hr
  · rw [hset hok, subtree_set_self, h.free, nodeTree_leaf rfl, nodeTree]

/-- A new directory. -/
lemma Spot.mkdir (h : Spot fs₀ dir d fs path rel) {fs₁ : FS}
    (hset : fs₁ = set fs (d ++ rel) (some .dir)) : Inside fs₀ dir d fs₁ path rel [] := by
  have hsame : SameBut (d ++ rel) fs fs₁ := by
    rw [hset]
    exact sameBut_set _ (List.prefix_refl _) _
  refine ⟨h.owned.sameBut h.ne_nil hsame, h.names, h.way.sameBut hsame, ?_⟩
  rw [hset, subtree_set_self, h.free, nodeTree_empty]
  rfl

namespace Inside

lemma isDir (h : Inside fs₀ dir d fs path rel done) : fs (d ++ rel) = some .dir := by
  have hroot := congrFun h.tree []
  rwa [subtree, List.append_nil, nodeTree] at hroot

/-- Under a new name there is a free place. -/
lemma spot (h : Inside fs₀ dir d fs path rel done) {name : String} (hname : IsName name)
    (hnew : name ∉ done.map NarEntry.name) :
    Spot fs₀ dir d fs (joinPath path name) (rel ++ [name]) where
  owned := h.owned
  names := h.names.join hname
  ne_nil := List.append_ne_nil_of_right_ne_nil _ (List.cons_ne_nil _ _)
  way := h.way.snoc h.isDir hname.2.2.1
  free := by
    rw [← List.append_assoc, ← subtree_subtree, h.tree]
    funext q
    rw [subtree, List.singleton_append, nodeTree, entriesTree_of_not_mem q hnew]
    rfl

/-- And then there is a new entry. -/
lemma put (h : Inside fs₀ dir d fs path rel done) {name : String} {node : NarNode}
    (hnew : name ∉ done.map NarEntry.name)
    (hleaves : Leaves (d ++ (rel ++ [name])) (nodeTree node) fs (.ok ()) fs') :
    Inside fs₀ dir d fs' path rel (done ++ [⟨name, node⟩]) := by
  have hne : rel ++ [name] ≠ [] := List.append_ne_nil_of_right_ne_nil _ (List.cons_ne_nil _ _)
  have hsame : SameBut (d ++ rel) fs fs' := by
    have hbelow := hleaves.same
    rw [← List.append_assoc] at hbelow
    exact hbelow.mono
  refine ⟨h.owned.sameBut hne hleaves.same, h.names, h.way.sameBut hsame, ?_⟩
  rw [hleaves.same.eq_graft, hleaves.tree rfl, ← List.append_assoc, subtree_graft_below, h.tree,
    graft_nodeTree_directory hnew]

end Inside

mutual

/-- **What extraction leaves** at a free place. -/
lemma extractNode_leaves :
    ∀ (node : NarNode) {depth : ℕ} {path : String} {rel : Path} {fs fs' : FS} {log : CacheLog}
      {r : Result Unit}, node.WellFormed depth → Spot fs₀ dir d fs path rel →
      DiskRun pid FsOp.Sem (extractNode node path) fs log r fs' →
      Leaves (d ++ rel) (nodeTree node) fs r fs'
  | .regular executable contents, _, _, _, _, _, _, _, _, h, hrun => regular_leaves h hrun
  | .symlink target, _, _, _, _, _, _, _, _, h, hrun => symlink_leaves h hrun
  | .directory entries, 0, _, _, _, _, _, _, hwf, _, _ => hwf.elim
  | .directory entries, depth + 1, path, rel, fs, fs', log, r, hwf, h, hrun => by
      obtain ⟨a, fs₁, log', -, hsame, ⟨e, -, rfl, rfl⟩ | ⟨-, hset, hrest⟩⟩ :=
        directory_run (fun _ _ _ _ hs => hs) h hrun
      · exact ⟨hsame, fun hr => by cases hr⟩
      · obtain ⟨-, hleaves⟩ := extractEntries_leaves entries hwf.2 (h.mkdir hset)
          (by simpa only [List.nil_append] using hwf.1) hrest
        exact ⟨hsame.trans hleaves.same, hleaves.tree⟩

/-- **What the entries of a directory leave** in it. -/
lemma extractEntries_leaves :
    ∀ (rest : List NarEntry) {depth : ℕ} {path : String} {rel : Path} {done : List NarEntry}
      {fs fs' : FS} {log : CacheLog} {r : Result Unit}, EntriesWellFormed depth rest →
      Inside fs₀ dir d fs path rel done →
      ((done ++ rest).map NarEntry.name).IsChain NarReader.nameLt →
      DiskRun pid FsOp.Sem (extractEntries rest path) fs log r fs' →
      Owned fs₀ dir d fs' ∧ Leaves (d ++ rel) (nodeTree (.directory (done ++ rest))) fs r fs'
  | [], _, path, rel, done, fs, fs', log, r, _, h, _, hrun => by
      rw [extractEntries] at hrun
      obtain ⟨rfl, rfl, rfl⟩ := Prog.Runs.of_pure hrun
      rw [List.append_nil]
      exact ⟨h.owned, SameBut.refl _ _, fun _ => h.tree⟩
  | ⟨name, node⟩ :: rest, _, path, rel, done, fs, fs', log, r, hwf, h, hchain, hrun => by
      obtain ⟨⟨hname, -⟩, hnode, hrest⟩ := hwf
      have hnew := not_mem_of_isChain hchain
      have hmono {fs fs' : FS} (hs : SameBut (d ++ (rel ++ [name])) fs fs') :
          SameBut (d ++ rel) fs fs' := by
        rw [← List.append_assoc] at hs
        exact hs.mono
      rw [extractEntries] at hrun
      rcases Prog.Runs.of_bindExcept hrun with ⟨e, h₁, rfl⟩ | ⟨⟨⟩, log₁, log₂, fs₁, rfl, h₁, h₂⟩
      · have hleaves := extractNode_leaves node hnode (h.spot hname hnew) h₁
        exact ⟨h.owned.sameBut (h.spot hname hnew).ne_nil hleaves.same, hmono hleaves.same,
          fun hr => by cases hr⟩
      · have hleaves := extractNode_leaves node hnode (h.spot hname hnew) h₁
        have happ : done ++ [⟨name, node⟩] ++ rest = done ++ ⟨name, node⟩ :: rest := by
          rw [List.append_assoc, List.singleton_append]
        obtain ⟨howned, hall⟩ := extractEntries_leaves rest hrest (h.put hnew hleaves)
          (by rwa [happ]) h₂
        rw [happ] at hall
        exact ⟨howned, (hmono hleaves.same).trans hall.same, hall.tree⟩

end

end

/-! ## When it succeeds -/

mutual

/-- All its symlinks can be made. -/
def NarNode.Linkable : NarNode → Prop
  | .regular _ _ => True
  | .symlink target => IsTarget target
  | .directory entries => EntriesLinkable entries

def EntriesLinkable : List NarEntry → Prop
  | [] => True
  | ⟨_, node⟩ :: rest => node.Linkable ∧ EntriesLinkable rest

end

mutual

/-- Where extraction succeeds, the symlinks have been made. -/
lemma extractNode_linkable {pid : ℕ} :
    ∀ (node : NarNode) {path : String} {fs fs' : FS} {log : CacheLog},
      DiskRun pid FsOp.Sem (extractNode node path) fs log (.ok ()) fs' → node.Linkable
  | .regular _ _, _, _, _, _, _ => trivial
  | .symlink target, path, fs, fs', log, h => by
      rw [extractNode] at h
      obtain ⟨a, -, hs, ⟨e, -, hr⟩ | ⟨rfl, -⟩⟩ :=
        @DiskRun.of_lastIo pid _ _ _ _ (.symlink target path) (fun a => a) _ h
      · cases hr
      · exact hs.1
  | .directory entries, path, fs, fs', log, h => by
      rw [extractNode] at h
      obtain ⟨a, log', fs₁, rfl, -, htail⟩ := Prog.Runs.of_call h
      cases a with
      | true => exact extractEntries_linkable entries htail
      | false =>
          obtain ⟨a, fs₂, log'', -, -, ⟨e, -, hr, -, -⟩ | ⟨-, hrest⟩⟩ :=
            @DiskRun.of_io pid _ _ _ _ _ (.createDirAll path) (fun a => a) _ _ htail
          · cases hr
          · exact extractEntries_linkable entries hrest

lemma extractEntries_linkable {pid : ℕ} :
    ∀ (entries : List NarEntry) {path : String} {fs fs' : FS} {log : CacheLog},
      DiskRun pid FsOp.Sem (extractEntries entries path) fs log (.ok ()) fs' →
        EntriesLinkable entries
  | [], _, _, _, _, _ => trivial
  | ⟨name, node⟩ :: rest, path, fs, fs', log, h => by
      rw [extractEntries] at h
      rcases Prog.Runs.of_bindExcept h with ⟨e, -, hr⟩ | ⟨u, log₁, log₂, fs₁, rfl, h₁, h₂⟩
      · cases hr
      · exact ⟨extractNode_linkable node h₁, extractEntries_linkable rest h₂⟩

end

section

variable {fs₀ fs fs' : FS} {dir path : String} {d rel : Path} {done : List NarEntry} {pid : ℕ}
  {log : CacheLog} {r : Result Unit} {α : Type}

lemma regular_ideal (h : Spot fs₀ dir d fs path rel) {executable : Bool} {contents : List UInt8}
    (hrun : DiskRun pid FsOp.Ideal (extractNode (.regular executable contents) path) fs log r fs') :
    r = .ok () := by
  obtain ⟨a, fs₁, hs, hsame, ⟨e, he, -⟩ | ⟨-, mode, a', -, hfile, hs', hlast⟩⟩ :=
    regular_run (fun _ _ _ _ hs => hs.1) h hrun
  · rw [hs.done (h.owned.write_ok h.names h.ne_nil h.way h.none_at contents 0) rfl] at he
    cases he
  · have hset' : a' = .ok () :=
      hs'.done ((h.owned.sameBut h.ne_nil hsame).setPermissions_ok h.names h.ne_nil
        (h.way.sameBut hsame) hfile (fileMode executable)) rfl
    rcases hlast with ⟨e, he, -⟩ | ⟨-, hr⟩
    · rw [hset'] at he
      cases he
    · exact hr

lemma symlink_ideal (h : Spot fs₀ dir d fs path rel) {target : String} (htarget : IsTarget target)
    (hrun : DiskRun pid FsOp.Ideal (extractNode (.symlink target) path) fs log r fs') :
    r = .ok () := by
  rw [extractNode] at hrun
  obtain ⟨a, -, hs, hlast⟩ := @DiskRun.of_lastIo pid _ _ _ _ (.symlink target path)
    (fun a => a) _ hrun
  have hmade : a = .ok () :=
    hs.done (h.owned.symlink_ok h.names h.ne_nil h.way h.none_at htarget) rfl
  rcases hlast with ⟨e, he, -⟩ | ⟨-, hr⟩
  · rw [hmade] at he
    cases he
  · exact hr

mutual

/-- **Extraction succeeds** at a free place, where every call does that can. -/
lemma extractNode_ideal :
    ∀ (node : NarNode) {depth : ℕ} {path : String} {rel : Path} {fs fs' : FS} {log : CacheLog}
      {r : Result Unit}, node.WellFormed depth → node.Linkable → Spot fs₀ dir d fs path rel →
      DiskRun pid FsOp.Ideal (extractNode node path) fs log r fs' → r = .ok ()
  | .regular executable contents, _, _, _, _, _, _, _, _, _, h, hrun => regular_ideal h hrun
  | .symlink target, _, _, _, _, _, _, _, _, hlink, h, hrun => symlink_ideal h hlink hrun
  | .directory entries, 0, _, _, _, _, _, _, hwf, _, _, _ => hwf.elim
  | .directory entries, depth + 1, path, rel, fs, fs', log, r, hwf, hlink, h, hrun => by
      obtain ⟨a, fs₁, log', hs, -, ⟨e, he, -⟩ | ⟨-, hset, hrest⟩⟩ :=
        directory_run (fun _ _ _ _ hs => hs.1) h hrun
      · rw [hs.done (h.owned.createDirAll_ok h.names h.ne_nil h.way (.inl h.none_at)) rfl] at he
        cases he
      · exact extractEntries_ideal entries hwf.2 hlink (h.mkdir hset)
          (by simpa only [List.nil_append] using hwf.1) hrest

lemma extractEntries_ideal :
    ∀ (rest : List NarEntry) {depth : ℕ} {path : String} {rel : Path} {done : List NarEntry}
      {fs fs' : FS} {log : CacheLog} {r : Result Unit}, EntriesWellFormed depth rest →
      EntriesLinkable rest → Inside fs₀ dir d fs path rel done →
      ((done ++ rest).map NarEntry.name).IsChain NarReader.nameLt →
      DiskRun pid FsOp.Ideal (extractEntries rest path) fs log r fs' → r = .ok ()
  | [], _, path, rel, done, fs, fs', log, r, _, _, _, _, hrun => by
      rw [extractEntries] at hrun
      exact (Prog.Runs.of_pure hrun).2.1
  | ⟨name, node⟩ :: rest, _, path, rel, done, fs, fs', log, r, hwf, hlink, h, hchain, hrun => by
      obtain ⟨⟨hname, -⟩, hnode, hrest⟩ := hwf
      have hnew := not_mem_of_isChain hchain
      rw [extractEntries] at hrun
      rcases Prog.Runs.of_bindExcept hrun with ⟨e, h₁, rfl⟩ | ⟨⟨⟩, log₁, log₂, fs₁, rfl, h₁, h₂⟩
      · exact extractNode_ideal node hnode hlink.1 (h.spot hname hnew) h₁
      · have hleaves := extractNode_leaves node hnode (h.spot hname hnew)
          (DiskRun.weaken (fun _ _ _ _ hs => hs.1) h₁)
        have happ : done ++ [⟨name, node⟩] ++ rest = done ++ ⟨name, node⟩ :: rest := by
          rw [List.append_assoc, List.singleton_append]
        exact extractEntries_ideal rest hrest hlink.2 (h.put hnew hleaves) (by rwa [happ]) h₂

end

/-! ## At the root -/

/-- What extraction leaves of the directory it is called on: the directory, and the tree in it when
it has succeeded, which it only does for a directory. -/
structure RootLeaves (fs₀ : FS) (dir : String) (d : Path) (node : NarNode) (r : Result Unit)
    (fs' : FS) : Prop where
  owned : Owned fs₀ dir d fs'
  tree : r = .ok () → node.isDirectory = true ∧ subtree fs' d = nodeTree node

/-- A directory is in the way of a file. -/
lemma write_dir (ho : Owned fs₀ dir d fs) {contents : List UInt8} {a : Except String Unit}
    (hs : (FsOp.write dir contents).Sem fs a fs') : a ≠ .ok () ∧ fs' = fs := by
  have hnot (mode : ℕ) {v : Path} (hv : lookup fs true dir = some v) : ¬ Writable fs v mode := by
    rw [← Option.some.inj (ho.lookup_dir.symm.trans hv), Writable, ho.isDir]
    rintro (h | ⟨contents, h⟩) <;> cases h
  rcases a with e | ⟨⟩
  · refine ⟨fun h => (by cases h), ?_⟩
    rcases hs with rfl | ⟨v, mode, other, hv, hw, -⟩
    · rfl
    · exact absurd hw (hnot mode hv)
  · obtain ⟨v, mode, hv, hw, -⟩ := hs
    exact absurd hw (hnot mode hv)

/-- And of a symlink. -/
lemma symlink_dir (ho : Owned fs₀ dir d fs) {target : String} {a : Except String Unit}
    (hs : (FsOp.symlink target dir).Sem fs a fs') : a ≠ .ok () ∧ fs' = fs := by
  rcases a with e | ⟨⟩
  · exact ⟨fun h => (by cases h), hs⟩
  · obtain ⟨-, v, hv, hnone, -⟩ := hs
    rw [lookup, if_neg ho.first.names.2] at hv
    exact absurd hnone (resolve_entry_ne_none ho.isDir _ _ _ _ ho.resolve_eq hv)

/-- **Extraction in a directory of its own.** -/
lemma extractNode_root {depth : ℕ} {node : NarNode} (hwf : node.WellFormed depth)
    (h : Inside fs₀ dir d fs dir [] [])
    (hrun : DiskRun pid FsOp.Sem (extractNode node dir) fs log r fs') :
    RootLeaves fs₀ dir d node r fs' ∧ SameBut d fs fs' := by
  cases node with
  | regular executable contents =>
      rw [extractNode] at hrun
      obtain ⟨a, fs₁, log', -, hs, hrest⟩ :=
        @DiskRun.of_io pid _ _ _ _ _ (.write dir contents) (fun a => a) _ _ hrun
      obtain ⟨hne, rfl⟩ := write_dir h.owned hs
      rcases hrest with ⟨e, -, rfl, -, rfl⟩ | ⟨hok, -⟩
      · exact ⟨⟨h.owned, fun hr => by cases hr⟩, SameBut.refl _ _⟩
      · exact absurd hok hne
  | symlink target =>
      rw [extractNode] at hrun
      obtain ⟨a, -, hs, hlast⟩ :=
        @DiskRun.of_lastIo pid _ _ _ _ (.symlink target dir) (fun a => a) _ hrun
      obtain ⟨hne, rfl⟩ := symlink_dir h.owned hs
      rcases hlast with ⟨e, -, rfl⟩ | ⟨hok, -⟩
      · exact ⟨⟨h.owned, fun hr => by cases hr⟩, SameBut.refl _ _⟩
      · exact absurd hok hne
  | directory entries =>
      cases depth with
      | zero => exact hwf.elim
      | succ depth =>
      rw [extractNode] at hrun
      -- the directory is there, whatever `exists` answers
      have hentries {log : CacheLog}
          (hrun : DiskRun pid FsOp.Sem (extractEntries entries dir) fs log r fs') :
          RootLeaves fs₀ dir d (.directory entries) r fs' ∧ SameBut d fs fs' := by
        obtain ⟨howned, hleaves⟩ := extractEntries_leaves entries hwf.2 h
          (by simpa only [List.nil_append] using hwf.1) hrun
        rw [List.append_nil] at hleaves
        exact ⟨⟨howned, fun hr => ⟨rfl, hleaves.tree hr⟩⟩, hleaves.same⟩
      obtain ⟨a, log', fs₁, rfl, hs, htail⟩ := Prog.Runs.of_call hrun
      obtain rfl : fs₁ = fs := hs.1
      cases a with
      | true => exact hentries htail
      | false =>
          obtain ⟨a, fs₂, log'', -, hs', hrest⟩ :=
            @DiskRun.of_io pid _ _ _ _ _ (.createDirAll dir) (fun a => a) _ _ htail
          obtain rfl : fs₂ = fs₁ := h.owned.createDirAll_dir hs'
          rcases hrest with ⟨e, -, rfl, -, rfl⟩ | ⟨-, hrest⟩
          · exact ⟨⟨h.owned, fun hr => by cases hr⟩, SameBut.refl _ _⟩
          · exact hentries hrest

/-- It succeeds for a directory, where every call does that can. -/
lemma extractNode_root_ideal {depth : ℕ} {entries : List NarEntry}
    (hwf : (NarNode.directory entries).WellFormed depth)
    (hlink : (NarNode.directory entries).Linkable)
    (h : Inside fs₀ dir d fs dir [] [])
    (hrun : DiskRun pid FsOp.Ideal (extractNode (.directory entries) dir) fs log r fs') :
    r = .ok () := by
  cases depth with
  | zero => exact hwf.elim
  | succ depth =>
      rw [extractNode] at hrun
      obtain ⟨a, log', fs₁, rfl, hs, htail⟩ := Prog.Runs.of_call hrun
      obtain rfl : fs₁ = fs := hs.1.1
      have hthere : (FsOp.exists dir).Sem fs₁ true fs₁ :=
        ⟨rfl, fun _ => ⟨d, h.owned.lookup_dir, by rw [h.owned.isDir]; exact Option.some_ne_none _⟩⟩
      obtain rfl : a = true := hs.done hthere rfl
      exact extractEntries_ideal entries hwf.2 hlink h
        (by simpa only [List.nil_append] using hwf.1) htail

end

end Niphas
