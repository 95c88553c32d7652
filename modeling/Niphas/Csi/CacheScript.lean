import Niphas.Csi.CacheCalls
import Niphas.Lib.Monitor

/-!
# What the calls of the cache do, by their notes

What a call of the cache may do next follows from the answers it has had so far: what it has seen,
which temporary directory it has made, whether a call has failed on it.  This is a property of the
code alone.  What the notes say of the files is in the modules that follow.

The triples of `Extraction` say what becomes of one attempt.  They do not say that an attempt leaves
nothing behind, nor that a call which has succeeded has had every path before it; for both, one has
to know which calls have been made.  So the code is gone through once more, with a monitor.  Its
notes are few: the paths that were found or put in place, the process id, the mutex that is held,
whether the temporary directory has been made and whether anything is in it, and whether a call that
changes files has failed.

Nothing here depends on what the answers are.  A call that fails is noted, and from then on the code
may leave its temporary directory: `extract_node` does.

* `cacheMonitor` — what a task notes of the answers to its calls.
* `CacheOk` — what it may do by its notes: it creates, moves and removes no other directory than its
  own temporary one, and gives back no mutex before that is gone, unless a call has failed.
* `shows_program` — every call does what it may, and has seen all its paths when it succeeds.
-/

namespace Niphas

open FileSystem System

/-! ## The notes -/

/-- What a task has learned from the answers to its calls. -/
structure CacheNotes where
  /-- The paths it has found, or moved something to. -/
  seen : List String
  /-- What it has read from the cache directory. -/
  listed : Option (List String)
  /-- The paths it has removed since. -/
  removed : List String
  /-- The mutex it holds. -/
  held : Option String
  pid : Option ℕ
  /-- It has a temporary directory. -/
  made : Bool
  /-- Something has been put into that. -/
  touched : Bool
  /-- A call that creates, changes, removes or lists has failed. -/
  failed : Bool
  listens : Bool

/-- What is noted of a call on the files. -/
def CacheNotes.noteFs (s : CacheNotes) : (o : FsOp) → o.Answer → CacheNotes
  | .exists path, found => if found then { s with seen := path :: s.seen } else s
  | .createDirAll _, r =>
      { s with made := s.made || r.isOk, touched := s.made, failed := s.failed || !r.isOk }
  | .write _ _, r | .setPermissions _ _, r | .symlink _ _, r =>
      { s with touched := true, failed := s.failed || !r.isOk }
  | .rename _ dst, r =>
      { s with seen := if r.isOk then dst :: s.seen else s.seen, made := s.made && !r.isOk }
  | .removeDirAll path, r =>
      { s with
        made := false
        removed := if r.isOk then path :: s.removed else s.removed
        failed := s.failed || !r.isOk }
  | .readDir _, r => { s with listed := r.toOption, removed := [], failed := s.failed || !r.isOk }

/-- What is noted of a call. -/
def CacheNotes.note (s : CacheNotes) : (o : CacheOp) → cacheInterface.Answer o → CacheNotes
  | .fs o, r => s.noteFs o r
  | .lock b, _ => { s with held := some b, made := false }
  | .unlock _, _ => { s with held := none, made := false }
  | .processId, n => { s with pid := some n }
  | .listen, r => { s with listens := r.isOk }
  | .fetchNarinfoByHash _, _ | .fetchNar _, _ => s

/-- The notes of a task of the cache. -/
def cacheMonitor : Monitor cacheInterface where
  Notes := CacheNotes
  start :=
    { seen := [], listed := none, removed := [], held := none, pid := none, made := false
      touched := false, failed := false, listens := false }
  note := CacheNotes.note

/-! ## What a call may do

For each kind of operation, what the notes must say before it.  Operations that neither change files
nor give back a mutex may come at any time.
-/

/-- The path is the task's own temporary directory. -/
def CacheNotes.OwnTmp (s : CacheNotes) (cacheDir path : String) (b : String) : Prop :=
  s.held = some b ∧ ∃ pid, s.pid = some pid ∧ path = joinPath cacheDir (tmpName b pid)

/-- The path goes on below an entry of the cache directory. -/
def Deep (cacheDir path : String) : Prop :=
  (components cacheDir).length + 1 < (components path).length

/-- The temporary directory may be created: there is none, or nothing in it. -/
def CacheNotes.MayMake (s : CacheNotes) (cacheDir path : String) : Prop :=
  (∃ b, s.OwnTmp cacheDir path b) ∧ (s.made = true → s.touched = false)

/-- A temporary directory is left only where a call has failed. -/
def CacheNotes.Clean (s : CacheNotes) : Prop := s.failed = true ∨ s.made = false

/-- What a call of `ensure_cached` does, by its notes. -/
def EnsureOk (cacheDir : String) (paths : List String) (s : CacheNotes) : CacheOp → Prop
  | .fs (.createDirAll path) => s.made = true ∧ Deep cacheDir path ∨ s.MayMake cacheDir path
  | .fs (.rename src dst) =>
      s.made = true ∧ ∃ b, s.OwnTmp cacheDir src b ∧ ¬ IsTmp b ∧ dst = joinPath cacheDir b
  | .fs (.removeDirAll path) => ∃ b, s.OwnTmp cacheDir path b
  | .fs (.write _ _) | .fs (.setPermissions _ _) | .fs (.symlink _ _) => s.made = true
  | .lock b => ∃ path ∈ paths, b = stripStoreDir path
  | .unlock b => s.held = some b ∧ s.Clean
  | .fs (.readDir _) | .listen => False
  | _ => True

/-- What a start does, by its notes. -/
def StartOk (cacheDir : String) (s : CacheNotes) (o : CacheOp) : Prop :=
  s.listens = false ∧
    match o with
    | .fs (.createDirAll path) => path = cacheDir
    | .fs (.readDir path) => path = cacheDir
    | .fs (.removeDirAll path) => ∃ names, s.listed = some names ∧
        ∃ name ∈ names, IsTmp name ∧ path = joinPath cacheDir name
    | .listen => s.failed = true ∨ ∃ names, s.listed = some names ∧
        ∀ name ∈ names, IsTmp name → joinPath cacheDir name ∈ s.removed
    | _ => False

/-- What a call does, by its notes. -/
def CacheOk (cacheDir : String) : CacheCall → CacheNotes → CacheOp → Prop
  | .startUp, s, o => StartOk cacheDir s o
  | .ensureCached paths, s, o => EnsureOk cacheDir paths s o

/-- When `ensure_cached` succeeds, it has seen all its paths. -/
def CachePost (cacheDir : String) : CacheCall → Result Unit → CacheNotes → Prop
  | .startUp, _, _ => True
  | .ensureCached paths, out, s =>
      out = .ok () → ∀ path ∈ paths, joinPath cacheDir (stripStoreDir path) ∈ s.seen

/-! ## What a task does -/

section

variable {cacheDir path : String} {paths : List String} {α β : Type} {s : CacheNotes} {b : String}
  {n : ℕ}

/-- Nothing that was seen is forgotten, and the mutex is still held. -/
structure CacheNotes.Later (s s' : CacheNotes) : Prop where
  seen : s.seen ⊆ s'.seen
  held : s'.held = s.held

lemma CacheNotes.Later.refl (s : CacheNotes) : s.Later s := ⟨List.Subset.refl _, rfl⟩

lemma CacheNotes.Later.trans {s s' s'' : CacheNotes} (h : s.Later s') (h' : s'.Later s'') :
    s.Later s'' := ⟨List.Subset.trans h.seen h'.seen, h'.held.trans h.held⟩

/-- One operation. -/
lemma shows_op {ok : CacheNotes → CacheOp → Prop} {o : CacheOp}
    {post : cacheInterface.Answer o → CacheNotes → Prop} (ho : ok s o)
    (hpost : ∀ r, post r (s.note o r)) : cacheMonitor.Shows ok post (cacheOp o) s := ⟨ho, hpost⟩

/-- A part of `ensure_cached` does what it may from the notes `s` on. -/
abbrev Ensures (cacheDir : String) (paths : List String) (prog : CacheM α) (s : CacheNotes)
    (post : Result α → CacheNotes → Prop) : Prop :=
  cacheMonitor.Shows (EnsureOk cacheDir paths) post prog.run s

/-- What comes of a part: the notes are later ones, which meet `post` where it succeeds, and are
clean where it does not. -/
def After (s : CacheNotes) (post : α → CacheNotes → Prop) : Result α → CacheNotes → Prop
  | .ok a, s' => s.Later s' ∧ post a s'
  | .error _, s' => s.Later s' ∧ s'.Clean

lemma Ensures.bind {prog : CacheM α} {f : α → CacheM β} {mid : α → CacheNotes → Prop}
    {post : β → CacheNotes → Prop} (h : Ensures cacheDir paths prog s (After s mid))
    (hf : ∀ a s', mid a s' → Ensures cacheDir paths (f a) s' (After s' post)) :
    Ensures cacheDir paths (prog >>= f) s (After s post) := by
  refine Monitor.Shows.bindExcept h (fun a s' ⟨hlater, hmid⟩ => ?_) fun _ _ hlater => hlater
  refine (hf a s' hmid).mono fun r s'' hr => ?_
  cases r with
  | ok a => exact ⟨hlater.trans hr.1, hr.2⟩
  | error e => exact ⟨hlater.trans hr.1, hr.2⟩

lemma ensures_op {o : CacheOp} {post : cacheInterface.Answer o → CacheNotes → Prop}
    (ho : EnsureOk cacheDir paths s o) (hlater : ∀ r, s.Later (s.note o r))
    (hpost : ∀ r, post r (s.note o r)) :
    Ensures cacheDir paths (CacheM.op o) s (After s post) :=
  ⟨ho, fun r => ⟨hlater r, hpost r⟩⟩

/-- A call of which nothing is noted. -/
lemma ensures_plain {o : CacheOp} (ho : EnsureOk cacheDir paths s o)
    (hnote : ∀ r, s.note o r = s) :
    Ensures cacheDir paths (CacheM.op o) s (After s fun _ s' => s' = s) :=
  ensures_op ho (fun r => (hnote r).symm ▸ .refl s) hnote

lemma ensures_ofResult {r : Result α} {post : α → CacheNotes → Prop} (hclean : s.Clean)
    (h : ∀ a, r = .ok a → post a s) :
    Ensures cacheDir paths (CacheM.ofResult r) s (After s post) := by
  cases r with
  | ok a => exact ⟨.refl s, h a rfl⟩
  | error e => exact ⟨.refl s, hclean⟩

lemma ensures_pure {a : α} {post : α → CacheNotes → Prop} (h : post a s) :
    Ensures cacheDir paths (pure a) s (After s post) := ⟨.refl s, h⟩

lemma ensures_same (hclean : s.Clean) (r : Result α) :
    Ensures cacheDir paths (CacheM.ofResult r) s (After s fun _ s' => s' = s) :=
  ensures_ofResult hclean fun _ _ => rfl

lemma ensures_ofIo {r : Except String Unit} {post : CacheNotes → Prop}
    (hclean : ∀ e, r = .error e → s.Clean) (h : r = .ok () → post s) :
    Ensures cacheDir paths (CacheM.ofIo r) s (After s fun _ => post) := by
  rcases r with e | ⟨⟩
  · exact ⟨.refl s, hclean e rfl⟩
  · exact ⟨.refl s, h rfl⟩

/-! ### Extraction -/

/-- The task has its temporary directory. -/
structure Made (b : String) (n : ℕ) (s : CacheNotes) : Prop where
  held : s.held = some b
  pid : s.pid = some n
  made : s.made = true

/-- The path is below the cache directory. -/
def Within (cacheDir path : String) : Prop :=
  (components cacheDir).length < (components path).length

lemma Within.join {name : String} (h : Within cacheDir path) (hname : IsName name) :
    Deep cacheDir (joinPath path name) := by
  rw [Within] at h
  rw [Deep, hname.components_joinPath, List.length_append, List.length_singleton]
  omega

lemma Deep.within (h : Deep cacheDir path) : Within cacheDir path := by
  rw [Deep] at h
  rw [Within]
  omega

lemma not_isAbsolute_tmpName (b : String) (n : ℕ) : isAbsolute (tmpName b n) = false := by
  rw [isAbsolute, toList_tmpName]
  rfl

lemma within_tmpName (cacheDir b : String) (n : ℕ) :
    Within cacheDir (joinPath cacheDir (tmpName b n)) := by
  have hmem : 't' ∈ (tmpName b n).toList := by
    rw [toList_tmpName]
    exact List.mem_append_left _ (List.mem_append_left _ (List.mem_append_left _ (by decide)))
  have hne := List.length_pos_iff.mpr (components_ne_nil hmem (by decide) (by decide))
  rw [Within, components_joinPath _ (not_isAbsolute_tmpName b n), List.length_append]
  omega

/-- A call of the extraction whose error is passed on. -/
lemma ensures_io {o : FsOp} (f : o.Answer → Except String Unit) (hs : Made b n s) (ho : o.Writes)
    (hok : EnsureOk cacheDir paths s (.fs o))
    (hfailed : ∀ r e, f r = .error e → (s.noteFs o r).failed = true) :
    Ensures cacheDir paths (CacheM.op (.fs o) >>= fun r => CacheM.ofIo (f r)) s
      (After s fun _ => Made b n) := by
  have hnote : ∀ r : o.Answer, s.Later (s.noteFs o r) ∧ Made b n (s.noteFs o r) := by
    intro r
    cases o with
    | createDirAll path =>
        refine ⟨⟨List.Subset.refl _, rfl⟩, hs.held, hs.pid, ?_⟩
        exact (congrArg (· || _) hs.made).trans (Bool.true_or _)
    | write | setPermissions | symlink =>
        exact ⟨⟨List.Subset.refl _, rfl⟩, hs.held, hs.pid, hs.made⟩
    | «exists» | rename | removeDirAll | readDir => cases ho
  have hop : Ensures cacheDir paths (CacheM.op (.fs o)) s
      (After s fun r s' => Made b n s' ∧ ∀ e, f r = .error e → s'.failed = true) :=
    ensures_op hok (fun r => (hnote r).1) fun r => ⟨(hnote r).2, hfailed r⟩
  exact hop.bind fun r s' hr => ensures_ofIo (fun e he => .inl (hr.2 e he)) fun _ => hr.1

/-- The answer of a call that fails says so. -/
lemma failed_of_error {r : Except String Unit} {e : String} (h : r = .error e) (failed : Bool) :
    (failed || !r.isOk) = true := by
  rw [h]
  exact Bool.or_true _

mutual

/-- Extraction. -/
lemma ensures_extractNode : ∀ (node : NarNode) {depth : ℕ} {path : String} {s : CacheNotes},
    node.WellFormed depth → Within cacheDir path → Made b n s →
      (Deep cacheDir path ∨ s.MayMake cacheDir path) →
        Ensures cacheDir paths (extractNode node path) s (After s fun _ => Made b n)
  | .regular executable contents, _, path, s, _, _, hs, _ => by
      rw [extractNode, ← bind_assoc]
      refine Ensures.bind (ensures_io (o := .write path contents) id hs trivial hs.made
        fun r e he => failed_of_error he _) fun _ s' hs' => ?_
      exact ensures_io (o := .setPermissions path (fileMode executable)) id hs' trivial hs'.made
        fun r e he => failed_of_error he _
  | .symlink target, _, path, s, _, _, hs, _ => by
      rw [extractNode]
      exact ensures_io (o := .symlink target path) id hs trivial hs.made
        fun r e he => failed_of_error he _
  | .directory entries, 0, _, _, hwf, _, _, _ => hwf.elim
  | .directory entries, depth + 1, path, s, hwf, hin, hs, hput => by
      rw [extractNode]
      have hexists : Ensures cacheDir paths (CacheM.op (.fs (.exists path))) s
          (After s fun _ s' => Made b n s' ∧ (Deep cacheDir path ∨ s'.MayMake cacheDir path)) := by
        refine ensures_op trivial (fun found => ?_) fun found => ?_
        · cases found with
          | true => exact ⟨List.subset_cons_self _ _, rfl⟩
          | false => exact .refl s
        · cases found with
          | true => exact ⟨⟨hs.held, hs.pid, hs.made⟩, hput⟩
          | false => exact ⟨hs, hput⟩
      refine hexists.bind fun found s' ⟨hs', hput'⟩ => ?_
      cases found with
      | true => exact ensures_extractEntries entries hwf.2 hin hs'
      | false =>
          have hcreate := @ensures_io cacheDir paths s' b n (.createDirAll path) id hs' trivial
            (hput'.imp_left fun hdeep => ⟨hs'.made, hdeep⟩) fun r e he => failed_of_error he _
          simp only [Bool.false_eq_true, if_false]
          rw [← bind_assoc]
          exact hcreate.bind fun _ s'' hs'' => ensures_extractEntries entries hwf.2 hin hs''

lemma ensures_extractEntries : ∀ (entries : List NarEntry) {depth : ℕ} {path : String}
    {s : CacheNotes}, EntriesWellFormed depth entries → Within cacheDir path → Made b n s →
      Ensures cacheDir paths (extractEntries entries path) s (After s fun _ => Made b n)
  | [], _, path, s, _, _, hs => by
      rw [extractEntries]
      exact ensures_pure hs
  | ⟨name, node⟩ :: rest, _, path, s, ⟨⟨hname, _⟩, hnode, hrest⟩, hin, hs => by
      rw [extractEntries]
      have hdeep := hin.join hname
      exact (ensures_extractNode node hnode hdeep.within hs (.inl hdeep)).bind fun _ s' hs' =>
        ensures_extractEntries rest hrest hin hs'

end

/-! ### One attempt -/

/-- The temporary directory is removed, and an error returned. -/
lemma ensures_discardDir (hs : s.held = some b) (hpid : s.pid = some n) (e : Fault)
    {post : Unit → CacheNotes → Prop} :
    Ensures cacheDir paths (do
      CacheM.discardDir (joinPath cacheDir (tmpName b n))
      CacheM.ofResult (.error e)) s (After s post) := by
  have hop : Ensures cacheDir paths
      (CacheM.op (.fs (.removeDirAll (joinPath cacheDir (tmpName b n))))) s
      (After s fun _ s' => s'.Clean) :=
    ensures_op ⟨b, hs, n, hpid, rfl⟩ (fun _ => ⟨List.Subset.refl _, rfl⟩) fun _ => .inr rfl
  have hdiscard : Ensures cacheDir paths (CacheM.discardDir (joinPath cacheDir (tmpName b n))) s
      (After s fun _ s' => s'.Clean) := hop.bind fun _ _ hclean => ensures_pure hclean
  exact hdiscard.bind fun _ _ hclean => ensures_ofResult hclean fun _ h => (by cases h)

/-- What is done in the temporary directory, and the move to its place. -/
lemma ensures_extractNar {lib : Libraries} {info : NarInfo} {nar : List UInt8} (hs : Made b n s)
    (hfresh : s.touched = false) (hb : ¬ IsTmp b) :
    Ensures cacheDir paths
      (extractNar lib info nar (joinPath cacheDir (tmpName b n)) (joinPath cacheDir b)) s
      (After s fun _ s' => joinPath cacheDir b ∈ s'.seen ∧ s'.Clean) := by
  rw [extractNar]
  split
  · exact ensures_discardDir hs.held hs.pid _
  next node narHash hparse =>
  split
  · exact ensures_discardDir hs.held hs.pid _
  have hown : s.OwnTmp cacheDir (joinPath cacheDir (tmpName b n)) b := ⟨hs.held, n, hs.pid, rfl⟩
  refine (ensures_extractNode node (parse_new_eq_ok.mp hparse).1 (within_tmpName _ _ _) hs
    (.inr ⟨⟨b, hown⟩, fun _ => hfresh⟩)).bind fun _ s' hs' => ?_
  have hrename : Ensures cacheDir paths
      (CacheM.op (.fs (.rename (joinPath cacheDir (tmpName b n)) (joinPath cacheDir b)))) s'
      (After s' fun r s'' => s''.held = some b ∧ s''.pid = some n ∧
        (r = .ok () → joinPath cacheDir b ∈ s''.seen ∧ s''.Clean)) := by
    refine ensures_op ⟨hs'.made, b, ⟨hs'.held, n, hs'.pid, rfl⟩, hb, rfl⟩ (fun r => ?_) fun r => ?_
    · rcases r with e | ⟨⟩
      · exact ⟨List.Subset.refl _, rfl⟩
      · exact ⟨List.subset_cons_self _ _, rfl⟩
    · refine ⟨hs'.held, hs'.pid, ?_⟩
      rintro rfl
      exact ⟨List.mem_cons_self, .inr (Bool.and_false _)⟩
  refine hrename.bind ?_
  rintro (e | ⟨⟩) s'' ⟨hheld, hpid, hseen⟩
  · exact ensures_discardDir hheld hpid _
  · exact ensures_pure (hseen rfl)

/-- What is done with a NAR that was downloaded. -/
lemma ensures_unpackNar {lib : Libraries} {info : NarInfo} {data : List UInt8}
    (hs : s.held = some b) (hnone : s.made = false) (hb : ¬ IsTmp b) :
    Ensures cacheDir paths (unpackNar lib cacheDir b info data) s
      (After s fun _ s' => joinPath cacheDir b ∈ s'.seen ∧ s'.Clean) := by
  rw [unpackNar]
  dsimp only
  split
  · exact ensures_ofResult (.inr hnone) fun _ h => (by cases h)
  refine (ensures_same (.inr hnone) _).bind ?_
  rintro nar s₁ rfl
  have hpid : Ensures cacheDir paths (CacheM.op .processId) s₁
      (After s₁ fun pid s₂ => s₂.held = some b ∧ s₂.pid = some pid ∧ s₂.made = false) :=
    ensures_op trivial (fun _ => ⟨List.Subset.refl _, rfl⟩) fun _ => ⟨hs, rfl, hnone⟩
  refine hpid.bind ?_
  rintro pid s₂ ⟨hheld, hpid, hnone₂⟩
  have hcreate : Ensures cacheDir paths
      (CacheM.op (.fs (.createDirAll (joinPath cacheDir (tmpName b pid))))) s₂
      (After s₂ fun r s₃ => (∀ e, r = .error e → s₃.Clean) ∧
        (r = .ok () → Made b pid s₃ ∧ s₃.touched = false)) := by
    refine ensures_op (.inr ⟨⟨b, hheld, pid, hpid, rfl⟩, fun hmade => ?_⟩)
      (fun r => ⟨List.Subset.refl _, rfl⟩) fun r => ⟨fun e he => ?_, ?_⟩
    · cases hnone₂.symm.trans hmade
    · exact .inl (failed_of_error he _)
    · rintro rfl
      exact ⟨⟨hheld, hpid, Bool.or_true _⟩, hnone₂⟩
  refine hcreate.bind ?_
  rintro r s₃ ⟨herror, hr⟩
  have hio : Ensures cacheDir paths (CacheM.ofIo r) s₃
      (After s₃ fun _ s₄ => Made b pid s₄ ∧ s₄.touched = false) := ensures_ofIo herror hr
  exact hio.bind fun _ s₄ hmade => ensures_extractNar hmade.1 hmade.2 hb

/-- One attempt. -/
lemma ensures_fetchAndExtract (lib : Libraries) (hs : s.held = some b) (hnone : s.made = false) :
    Ensures cacheDir paths (fetchAndExtract lib cacheDir b) s
      (After s fun _ s' => joinPath cacheDir b ∈ s'.seen ∧ s'.Clean) := by
  rw [fetchAndExtract]
  have hparse : Ensures cacheDir paths (CacheM.ofResult (StorePath.parseBasename b)) s
      (After s fun sp s' => StorePath.parseBasename b = .ok sp ∧ s' = s) :=
    ensures_ofResult (.inr hnone) fun _ hsp => ⟨hsp, rfl⟩
  refine hparse.bind ?_
  rintro sp _ ⟨hsp, rfl⟩
  -- nothing is noted of the answers of the binary caches
  refine (ensures_plain (o := .fetchNarinfoByHash _) trivial fun _ => rfl).bind ?_
  rintro answer _ rfl
  refine (ensures_same (.inr hnone) answer).bind ?_
  rintro info _ rfl
  refine (ensures_plain (o := .fetchNar info) trivial fun _ => rfl).bind ?_
  rintro data _ rfl
  refine (ensures_same (.inr hnone) _).bind ?_
  rintro nar _ rfl
  exact ensures_unpackNar hs hnone (not_isTmp_of_parseBasename hsp)

/-- What is done for one path under its mutex. -/
lemma ensures_ensureLocked (lib : Libraries) (hs : s.held = some b) (hnone : s.made = false) :
    Ensures cacheDir paths (ensureLocked lib cacheDir b) s
      (After s fun _ s' => joinPath cacheDir b ∈ s'.seen ∧ s'.Clean) := by
  rw [ensureLocked]
  have hexists : Ensures cacheDir paths (CacheM.op (.fs (.exists (joinPath cacheDir b)))) s
      (After s fun found s' => s'.held = some b ∧ s'.made = false ∧
        (found = true → joinPath cacheDir b ∈ s'.seen)) := by
    refine ensures_op trivial (fun found => ?_) fun found => ?_
    · cases found with
      | true => exact ⟨List.subset_cons_self _ _, rfl⟩
      | false => exact .refl s
    · cases found with
      | true => exact ⟨hs, hnone, fun _ => List.mem_cons_self⟩
      | false => exact ⟨hs, hnone, fun h => (by cases h)⟩
  refine hexists.bind ?_
  rintro found s' ⟨hheld, hnone', hseen⟩
  cases found with
  | true => exact ensures_pure ⟨hseen rfl, .inr hnone'⟩
  | false => exact ensures_fetchAndExtract lib hheld hnone'

/-! ### The calls -/

/-- **`ensure_cached`** does what it may, and has seen all its paths when it succeeds. -/
lemma shows_ensureCached (lib : Libraries) : ∀ {rest : List String} {s : CacheNotes},
    (∀ path ∈ rest, path ∈ paths) →
      cacheMonitor.Shows (EnsureOk cacheDir paths)
        (fun out s' => s.seen ⊆ s'.seen ∧
          (out = .ok () → ∀ path ∈ rest, joinPath cacheDir (stripStoreDir path) ∈ s'.seen))
        (ensureCached lib cacheDir rest) s
  | [], s, _ => ⟨List.Subset.refl _, fun _ _ h => (List.not_mem_nil h).elim⟩
  | path :: rest, s, hrest => by
      have hnext : ∀ {s₁ : CacheNotes}, s.seen ⊆ s₁.seen →
          joinPath cacheDir (stripStoreDir path) ∈ s₁.seen →
          cacheMonitor.Shows (EnsureOk cacheDir paths)
            (fun out s' => s.seen ⊆ s'.seen ∧ (out = .ok () →
              ∀ path' ∈ path :: rest, joinPath cacheDir (stripStoreDir path') ∈ s'.seen))
            (ensureCached lib cacheDir rest) s₁ := by
        intro s₁ hsub hseen
        refine (shows_ensureCached lib fun path' hmem =>
          hrest path' (List.mem_cons_of_mem path hmem)).mono ?_
        rintro out s' ⟨hsub', hall⟩
        exact ⟨List.Subset.trans hsub hsub', fun hout =>
          List.forall_mem_cons.mpr ⟨hsub' hseen, hall hout⟩⟩
      rw [ensureCached]
      refine Monitor.Shows.bind (shows_op trivial fun found => ?_)
      cases found with
      | true => exact hnext (List.subset_cons_self _ _) List.mem_cons_self
      | false =>
          refine Monitor.Shows.bind (shows_op ⟨path, hrest path List.mem_cons_self, rfl⟩
            fun _ => ?_)
          refine Monitor.Shows.bind ((ensures_ensureLocked lib rfl rfl).mono fun r s₁ hr => ?_)
          rcases r with e | ⟨⟩
          · refine Monitor.Shows.bind (shows_op ⟨hr.1.held, hr.2⟩ fun _ => ?_)
            exact ⟨hr.1.seen, fun h => (by cases h)⟩
          · refine Monitor.Shows.bind (shows_op ⟨hr.1.held, hr.2.2⟩ fun _ => ?_)
            exact hnext hr.1.seen hr.2.1

/-- The loop of the cleanup removes what was listed. -/
lemma shows_removeTempDirs {listed : List String} :
    ∀ {names : List String} {s : CacheNotes}, s.listed = some listed → s.listens = false →
      (∀ name ∈ names, name ∈ listed) →
      (s.failed = true ∨ ∀ name ∈ listed, IsTmp name →
        name ∈ names ∨ joinPath cacheDir name ∈ s.removed) →
      cacheMonitor.Shows (StartOk cacheDir)
        (fun _ s' => s'.listens = false ∧ (s'.failed = true ∨ ∃ names, s'.listed = some names ∧
          ∀ name ∈ names, IsTmp name → joinPath cacheDir name ∈ s'.removed))
        (removeTempDirs cacheDir names) s
  | [], s, hlisted, hlistens, _, hremoved =>
      ⟨hlistens, hremoved.imp_right fun hall => ⟨listed, hlisted, fun name hname htmp =>
        (hall name hname htmp).resolve_left List.not_mem_nil⟩⟩
  | name :: rest, s, hlisted, hlistens, hnames, hremoved => by
      have hrest : ∀ name' ∈ rest, name' ∈ listed := fun name' hmem =>
        hnames name' (List.mem_cons_of_mem name hmem)
      have hname := hnames name List.mem_cons_self
      rw [removeTempDirs]
      split
      next htmp =>
        refine Monitor.Shows.bind (shows_op ⟨hlistens, listed, hlisted, name, hname, htmp, rfl⟩
          fun r => shows_removeTempDirs hlisted hlistens hrest ?_)
        rcases r with e | ⟨⟩
        · exact .inl (Bool.or_true _)
        · refine hremoved.imp (fun hfailed => ?_) fun hall name' hname' htmp' => ?_
          · exact (congrArg (· || _) hfailed).trans (Bool.true_or _)
          · rcases hall name' hname' htmp' with hmem | hmem
            · rcases List.mem_cons.mp hmem with rfl | hmem
              · exact .inr List.mem_cons_self
              · exact .inl hmem
            · exact .inr (List.mem_cons_of_mem _ hmem)
      next htmp =>
        refine shows_removeTempDirs hlisted hlistens hrest (hremoved.imp_right
          fun hall name' hname' htmp' => (hall name' hname' htmp').imp_left fun hmem => ?_)
        rcases List.mem_cons.mp hmem with rfl | hmem
        · exact absurd htmp' htmp
        · exact hmem

/-- The cleanup removes all that was listed, unless a call fails. -/
lemma shows_cleanupTempDirs (hlistens : s.listens = false) :
    cacheMonitor.Shows (StartOk cacheDir)
      (fun _ s' => s'.listens = false ∧ (s'.failed = true ∨ ∃ names, s'.listed = some names ∧
        ∀ name ∈ names, IsTmp name → joinPath cacheDir name ∈ s'.removed))
      (cleanupTempDirs cacheDir) s := by
  refine Monitor.Shows.bind (shows_op ⟨hlistens, rfl⟩ fun r => ?_)
  rcases r with e | names
  · exact ⟨hlistens, .inl (Bool.or_true _)⟩
  · exact shows_removeTempDirs rfl hlistens (fun _ h => h) (.inr fun _ hname _ => .inl hname)

/-- **A start** does what it may. -/
lemma shows_startUp (hlistens : s.listens = false) :
    cacheMonitor.Shows (StartOk cacheDir) (fun _ _ => True) (startUp cacheDir) s := by
  refine Monitor.Shows.bind (shows_op ⟨hlistens, rfl⟩ fun r => ?_)
  rcases r with e | ⟨⟩
  · exact trivial
  have hclean := @shows_cleanupTempDirs cacheDir
    (s.note (.fs (.createDirAll cacheDir)) (.ok ())) hlistens
  refine Monitor.Shows.bind (hclean.mono fun _ s' hs' => ?_)
  refine Monitor.Shows.bind (shows_op hs' fun r => ?_)
  rcases r with e | ⟨⟩ <;> exact trivial

lemma shows_program (lib : Libraries) (call : CacheCall) :
    cacheMonitor.Shows (CacheOk cacheDir call) (CachePost cacheDir call)
      ((nodeCache lib cacheDir).program call) cacheMonitor.start := by
  cases call with
  | startUp => exact (shows_startUp rfl).mono fun _ _ _ => trivial
  | ensureCached paths =>
      exact (shows_ensureCached lib fun _ h => h).mono fun _ _ h => h.2

end

end Niphas
