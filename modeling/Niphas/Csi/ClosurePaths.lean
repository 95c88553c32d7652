import Niphas.Csi.PublishSource
import Niphas.Csi.VolumeContext
import Niphas.Csi.ExtractTree
import Niphas.Lib.Render
import Niphas.Nix.ParserPanics

/-!
# The way of a store path into the driver

The operator joins the paths of a closure with commas, the driver splits them again, cuts each one
at byte 32 and takes it for the name of a directory.  None of the three steps is guarded against
what the parser of store paths lets through in a name.

The parser asks for 32 characters of a hash, a dash, and a name that is not empty.  It does not look
at the characters of the name.  Nix has a set of characters for names, which neither a comma nor a
slash is in; a path that keeps to it takes all three steps as it should.  Each of the three results
says for which of the other paths a step goes wrong, as an equivalence over all texts:

* `store_path_panics` — on which strings the parsers panic, and with them the driver.
* `accepted_children` — which accepted paths name an entry of the cache directory.
* `closurePaths_read_back` — which lists are split as they were joined.

What the driver does with a path it has been given is the code of `Cache`, run on any answers.
-/

namespace Niphas

open FileSystem

/-! ## A path cut inside a character -/

/-- The binary cache client does not panic. -/
def QuietClient : (o : CacheOp) → cacheInterface.Answer o → Prop
  | .fetchNarinfoByHash _, r => r ≠ .error .panic
  | _, _ => True

/-- Where the client does not panic, this code does not either. -/
def NoPanic {α : Type} (p : CacheM α) : Prop := p.run.Returns QuietClient (· ≠ .error .panic)

namespace NoPanic

lemma bind {α β : Type} {p : CacheM α} {f : α → CacheM β} (hp : NoPanic p)
    (hf : ∀ a, NoPanic (f a)) : NoPanic (p >>= f) := Prog.Returns.bindExcept hp hf

lemma op (o : CacheOp) : NoPanic (CacheM.op o) := by
  intro r _ h
  cases h

lemma ofResult {α : Type} {r : Result α} (h : r ≠ .error .panic) : NoPanic (CacheM.ofResult r) := h

lemma ofIo (r : Except String Unit) : NoPanic (CacheM.ofIo r) := by
  cases r with
  | ok u => exact ofResult fun h => by cases h
  | error e => exact ofResult fun h => by cases h

lemma discardDir (path : String) : NoPanic (CacheM.discardDir path) :=
  bind (op _) fun _ => ofResult fun h => by cases h

end NoPanic

mutual

/-- Extracting does not panic. -/
lemma noPanic_extractNode : ∀ (node : NarNode) (path : String), NoPanic (extractNode node path)
  | .regular executable contents, path => by
      rw [extractNode]
      exact .bind (.op _) fun _ => .bind (.ofIo _) fun _ => .bind (.op _) fun _ => .ofIo _
  | .symlink target, path => by
      rw [extractNode]
      exact .bind (.op _) fun _ => .ofIo _
  | .directory entries, path => by
      rw [extractNode]
      refine .bind (.op _) fun isThere => ?_
      split
      · exact noPanic_extractEntries entries path
      · exact .bind (.op _) fun _ => .bind (.ofIo _) fun _ => noPanic_extractEntries entries path

lemma noPanic_extractEntries : ∀ (entries : List NarEntry) (path : String),
    NoPanic (extractEntries entries path)
  | [], path => by
      rw [extractEntries]
      exact .ofResult fun h => by cases h
  | ⟨name, node⟩ :: rest, path => by
      rw [extractEntries]
      exact .bind (noPanic_extractNode node _) fun _ => noPanic_extractEntries rest path

end

lemma noPanic_extractNar (lib : Libraries) (narinfo : NarInfo) (nar : List UInt8)
    (tmpDir finalDir : String) : NoPanic (extractNar lib narinfo nar tmpDir finalDir) := by
  have hfail : ∀ e, NoPanic (CacheM.ofResult (fail e : Result Unit)) :=
    fun e => .ofResult fun h => by cases h
  rw [extractNar]
  split
  · exact .bind (.discardDir _) fun _ => hfail _
  split
  · exact .bind (.discardDir _) fun _ => hfail _
  refine .bind (noPanic_extractNode _ _) fun _ => .bind (.op _) fun r => ?_
  cases r with
  | ok u => exact .ofResult fun h => by cases h
  | error e => exact .bind (.discardDir _) fun _ => hfail _

/-- `fetch_and_extract` panics on its name, or not at all. -/
lemma noPanic_fetchAndExtract (lib : Libraries) (cacheDir : String) {b : String}
    (h : ¬ StorePath.CutsChar b) : NoPanic (fetchAndExtract lib cacheDir b) := by
  have hfetch : ∀ hash, NoPanic (CacheM.op (.fetchNarinfoByHash hash) >>= CacheM.ofResult) := by
    intro hash r hr
    exact hr
  rw [fetchAndExtract]
  refine .bind (.ofResult (mt (StorePath.parseBasename_eq_panic b).mp h)) fun storePath => ?_
  rw [← bind_assoc]
  refine .bind (hfetch _) fun narinfo => .bind (.op _) fun data => ?_
  refine .bind (.ofResult (NarInfo.ofExcept_ne_panic _)) fun narData => ?_
  rw [unpackNar]
  split
  · exact .ofResult fun h => by cases h
  · refine .bind (.ofResult (NarInfo.ofExcept_ne_panic _)) fun nar => .bind (.op _) fun pid => ?_
    exact .bind (.op _) fun _ => .bind (.ofIo _) fun _ => noPanic_extractNar _ _ _ _ _

/-- The name is parsed before anything else. -/
lemma fetchAndExtract_of_cutsChar (lib : Libraries) (cacheDir : String) {b : String}
    (h : StorePath.CutsChar b) : (fetchAndExtract lib cacheDir b).run = .pure (.error .panic) := by
  rw [fetchAndExtract, (StorePath.parseBasename_eq_panic b).mpr h]
  rfl

/-- `ensure_cached` panics on one of its names, or not at all. -/
lemma noPanic_ensureCached (lib : Libraries) (cacheDir : String) :
    ∀ {paths : List String}, (∀ path ∈ paths, ¬ StorePath.CutsChar (stripStoreDir path)) →
      (ensureCached lib cacheDir paths).Returns QuietClient (· ≠ .error .panic)
  | [], _ => fun h => by cases h
  | path :: rest, h => by
      obtain ⟨hpath, hrest⟩ := List.forall_mem_cons.mp h
      have ih := noPanic_ensureCached lib cacheDir hrest
      have hlocked : NoPanic (ensureLocked lib cacheDir (stripStoreDir path)) := by
        refine .bind (.op _) fun isThere => ?_
        split
        · exact .ofResult fun h => by cases h
        · exact noPanic_fetchAndExtract lib cacheDir hpath
      rw [ensureCached]
      intro isThere _
      cases isThere with
      | true => exact ih
      | false =>
          intro _ _
          show Prog.Returns QuietClient _
            ((ensureLocked lib cacheDir (stripStoreDir path)).run >>= _)
          refine Prog.Returns.bind hlocked fun r hr => ?_
          intro _ _
          cases r with
          | ok u => exact ih
          | error e => exact hr

/-- The client panics in none of these answers. -/
def QuietLog (log : List (Σ o : CacheOp, cacheInterface.Answer o)) : Prop :=
  ∀ call ∈ log, QuietClient call.1 call.2

/-- A path that is there is not looked at any further. -/
lemma exec_ensureCached_skip {lib : Libraries} {cacheDir : String} {r : Result Unit}
    {rest : List String} {log : List (Σ o : CacheOp, cacheInterface.Answer o)} (path : String)
    (h : (ensureCached lib cacheDir rest).Exec log r) :
    (ensureCached lib cacheDir (path :: rest)).Exec
      (⟨.fs (.exists (joinPath cacheDir (stripStoreDir path))), true⟩ :: log) r := .call h

/-- **When the driver panics** though its client does not. -/
lemma panics_ensureCached (lib : Libraries) (cacheDir : String) (paths : List String) :
    (∃ log, (ensureCached lib cacheDir paths).Exec log (.error .panic) ∧ QuietLog log) ↔
      ∃ path ∈ paths, StorePath.CutsChar (stripStoreDir path) := by
  constructor
  · rintro ⟨log, hexec, hquiet⟩
    by_contra hnone
    have hcut : ∀ path ∈ paths, ¬ StorePath.CutsChar (stripStoreDir path) :=
      fun path hpath h => hnone ⟨path, hpath, h⟩
    exact Prog.returns_iff.mp (noPanic_ensureCached lib cacheDir hcut) log _ hexec hquiet rfl
  · rintro ⟨path, hpath, hcut⟩
    -- the paths before it are cached, it is not
    induction paths with
    | nil => cases hpath
    | cons first rest ih =>
        rcases List.mem_cons.mp hpath with rfl | hrest
        · let dest : FsOp := .exists (joinPath cacheDir (stripStoreDir path))
          refine ⟨[⟨.fs dest, false⟩, ⟨.lock (stripStoreDir path), ()⟩, ⟨.fs dest, false⟩,
            ⟨.unlock (stripStoreDir path), ()⟩], ?_, ?_⟩
          · refine .call (.call (.call ?_))
            have hrun := fetchAndExtract_of_cutsChar lib cacheDir hcut
            have hlocked : ((fetchAndExtract lib cacheDir (stripStoreDir path)).run).Exec []
                (.error .panic) := by
              rw [hrun]
              exact .pure _
            exact Prog.Exec.bind hlocked (.call (.pure _))
          · simp [QuietLog, QuietClient]
        · obtain ⟨log, hexec, hquiet⟩ := ih hrest
          exact ⟨_, exec_ensureCached_skip first hexec, List.forall_mem_cons.mpr ⟨trivial, hquiet⟩⟩

/-- **When a store path panics.**  A basename of 34 bytes or more is cut at byte 32 before its dash
is looked for; it panics exactly when a character is in the way.  So a store path does behind the
store directory, a `References` line at its first name that is not accepted, and a `closurePaths`
attribute at a path that is not cached yet. -/
theorem store_path_panics (s : String) :
    (StorePath.parseBasename s = .error .panic ↔ StorePath.CutsChar s) ∧
    (StorePath.parse s = .error .panic ↔
      ∃ rest, s = storeDir ++ ("/" ++ rest) ∧ StorePath.CutsChar rest) ∧
    (StorePathRef.parse s = .error .panic ↔ StorePath.CutsChar s) ∧
    (∀ lib f, NarInfo.readField lib f "References" s = .error .panic ↔
      NarInfo.CutsCharFirst (Str.splitWhitespace s)) ∧
    ∀ lib cacheDir,
      (∃ log, (ensureCached lib cacheDir (splitClosurePaths s)).Exec log (.error .panic) ∧
        QuietLog log) ↔
      ∃ path ∈ splitClosurePaths s, StorePath.CutsChar (stripStoreDir path) := by
  refine ⟨StorePath.parseBasename_eq_panic s, StorePath.parse_eq_panic s,
    StorePathRef.parse_eq_panic s, fun lib f => ?_, fun lib dir => panics_ensureCached lib dir _⟩
  rw [NarInfo.readField_eq_panic]
  simp [NarInfo.HashLinePanics, NarInfo.PathLinePanics]

/-- A name of 34 bytes with a character of two bytes at byte 31. -/
def cutName : String := String.ofList (List.replicate 31 '0') ++ "é-"

/-- **A name that is cut inside a character** panics wherever it is read. -/
theorem store_path_panics_cut :
    StorePath.parseBasename cutName = .error .panic ∧
      StorePath.parse (storeDir ++ ("/" ++ cutName)) = .error .panic ∧
      StorePathRef.parse cutName = .error .panic ∧
      NarInfo.parse NarInfo.zeroLib ("References: " ++ cutName) = .error .panic ∧
      ∀ lib cacheDir, ∃ log,
        (ensureCached lib cacheDir (splitClosurePaths cutName)).Exec log (.error .panic) ∧
          QuietLog log := by
  have hpanic : StorePath.parseBasename cutName = .error .panic := by decide +kernel
  have hcut : StorePath.CutsChar cutName := (StorePath.parseBasename_eq_panic _).mp hpanic
  have hline : NarInfo.parse NarInfo.zeroLib ("References: " ++ cutName) = .error .panic := by
    decide +kernel
  refine ⟨hpanic, ?_, (StorePathRef.parse_eq_panic _).mpr hcut, hline, fun lib dir => ?_⟩
  · exact (StorePath.parse_eq_panic _).mpr ⟨cutName, rfl, hcut⟩
  · have hpaths : splitClosurePaths cutName = [cutName] := by decide +kernel
    have hstrip : stripStoreDir cutName = cutName := by decide +kernel
    rw [hpaths]
    exact (panics_ensureCached lib dir _).mpr ⟨cutName, List.mem_singleton_self _,
      hstrip.symm ▸ hcut⟩

/-! ## A path as the name of an entry

The two joins of the source are with the name itself and with the name of a temporary directory that
has it in the middle.  A slash changes both.
-/

/-- Joined to the cache directory, `name` is an entry of it. -/
def DirectChild (cacheDir name : String) : Prop := ∃ n, IsChild cacheDir (joinPath cacheDir name) n

/-- `path` goes down from `dir`, and never up. -/
def GoesDown (dir path : String) : Prop :=
  isAbsolute path = isAbsolute dir ∧
    ∃ n rest, components path = components dir ++ n :: rest ∧ ∀ c ∈ n :: rest, c ≠ ".."

/-- The operation changes nothing outside `dir`. -/
def ChangesInside (dir : String) : CacheOp → Prop
  | .fs o => ∀ path ∈ o.changes, GoesDown dir path
  | _ => True

/-- Whatever the answers, the code changes nothing outside `dir`. -/
def StaysInside {α : Type} (dir : String) (p : CacheM α) : Prop := p.run.All (ChangesInside dir)

/-- An accepted path begins like no path of dots. -/
lemma isName_iff_of_parseBasename {s : String} {p : StorePath}
    (h : StorePath.parseBasename s = .ok p) : IsName s ↔ '/' ∉ s.toList ∧ '\x00' ∉ s.toList := by
  obtain ⟨c, cs, hchars, hc⟩ := exists_head_of_parseBasename h
  have hother : ∀ t : String, t.toList.head? ∉ nixBase32Chars.map some → s ≠ t := by
    rintro t ht rfl
    rw [hchars] at ht
    exact ht (List.mem_map_of_mem hc)
  refine ⟨fun hname => hname.2.2.2, fun hfree => ?_⟩
  exact ⟨hother _ (by decide), hother _ (by decide), hother _ (by decide), hfree⟩

/-- What is neither a digit nor a dash is in the name. -/
lemma mem_iff_of_parseBasename {s : String} {p : StorePath} (h : StorePath.parseBasename s = .ok p)
    {d : Char} (hd : d ∉ nixBase32Chars) (hdash : d ≠ '-') : d ∈ s.toList ↔ d ∈ p.name.toList := by
  have hhash : d ∉ p.hashStr.toList := fun hmem => hd (mem_nixBase32Chars_of_mem hmem)
  have hdash' : d ∉ ("-" : String).toList := fun hmem => hdash (List.mem_singleton.mp hmem)
  rw [← (StorePath.of_parseBasename h).2, StorePath.basename, String.toList_append,
    String.toList_append, List.mem_append, List.mem_append]
  simp only [hhash, hdash', false_or]

lemma DirectChild.of_isName {name : String} (h : IsName name) (cacheDir : String) :
    DirectChild cacheDir name := by
  refine ⟨name, isAbsolute_joinPath cacheDir h.not_isAbsolute, h.components_joinPath cacheDir, ?_⟩
  exact h.2.2.1

/-- A slash in the name splits the name of the temporary directory. -/
lemma not_directChild_tmpName {s : String} (h : '/' ∈ s.toList) (cacheDir : String) (pid : ℕ) :
    ¬ DirectChild cacheDir (tmpName s pid) := by
  rintro ⟨n, hchild⟩
  obtain ⟨as, bs, hchars⟩ := List.append_of_mem h
  have hsplit : tmpName s pid =
      (tmpPrefix ++ String.ofList as) ++ "/" ++ (String.ofList bs ++ "-" ++ Nat.repr pid) := by
    apply String.toList_inj.mp
    simp [tmpName, hchars]
  have hrel : isAbsolute (tmpName s pid) = false := by
    rw [tmpName, String.append_assoc, String.append_assoc]
    exact isAbsolute_append (by decide) _
  have hfront : components (tmpPrefix ++ String.ofList as) ≠ [] :=
    components_ne_nil (c := 't') (by simp [tmpPrefix]) (by decide) (by decide)
  have hback : components (String.ofList bs ++ "-" ++ Nat.repr pid) ≠ [] :=
    components_ne_nil (c := '-') (by simp) (by decide) (by decide)
  have hcomponents := hchild.components
  rw [components_joinPath cacheDir hrel, List.append_cancel_left_eq, hsplit, components_slash]
    at hcomponents
  have hlen := congrArg List.length hcomponents
  rw [List.length_append, List.length_singleton] at hlen
  have hfront' := List.length_pos_iff.mpr hfront
  have hback' := List.length_pos_iff.mpr hback
  omega

/-- One name further down. -/
lemma GoesDown.join {dir path n : String} (h : GoesDown dir path) (hn : IsName n) :
    GoesDown dir (joinPath path n) := by
  obtain ⟨habs, first, rest, hcomponents, hdown⟩ := h
  refine ⟨(isAbsolute_joinPath path hn.not_isAbsolute).trans habs, first, rest ++ [n], ?_, ?_⟩
  · rw [hn.components_joinPath, hcomponents, List.append_assoc, List.cons_append]
  · intro c hc
    rcases List.mem_append.mp (List.cons_append ▸ hc) with hc | hc
    · exact hdown c hc
    · rw [List.mem_singleton.mp hc]
      exact hn.2.2.1

lemma GoesDown.child {n : String} (hn : IsName n) (dir : String) : GoesDown dir (joinPath dir n) :=
  ⟨isAbsolute_joinPath dir hn.not_isAbsolute, n, [], hn.components_joinPath dir, fun c hc => by
    rw [List.mem_singleton.mp hc]
    exact hn.2.2.1⟩

namespace StaysInside

variable {dir : String}

lemma bind {α β : Type} {p : CacheM α} {f : α → CacheM β} (hp : StaysInside dir p)
    (hf : ∀ a, StaysInside dir (f a)) : StaysInside dir (p >>= f) := Prog.All.bindExcept hp hf

lemma op {o : CacheOp} (h : ChangesInside dir o) : StaysInside dir (CacheM.op o) :=
  ⟨h, fun _ => trivial⟩

lemma ofResult {α : Type} (r : Result α) : StaysInside dir (CacheM.ofResult r) := trivial

lemma ofIo (r : Except String Unit) : StaysInside dir (CacheM.ofIo r) := by
  cases r with
  | ok u => exact trivial
  | error e => exact trivial

lemma discardDir {path : String} (h : GoesDown dir path) :
    StaysInside dir (CacheM.discardDir path) :=
  bind (op (List.forall_mem_singleton.mpr h)) fun _ => ofResult _

/-- One call below the directory, whose error is passed on. -/
lemma change {α : Type} {path : String} (h : GoesDown dir path) (o : FsOp)
    (ho : o.changes = [path]) (f : cacheInterface.Answer (.fs o) → CacheM α)
    (hf : ∀ r, StaysInside dir (f r)) : StaysInside dir (CacheM.op (.fs o) >>= f) := by
  refine bind (op ?_) hf
  rw [ChangesInside, ho]
  exact List.forall_mem_singleton.mpr h

end StaysInside

mutual

/-- Extracting stays where it begins. -/
lemma staysInside_extractNode {dir : String} : ∀ {d : ℕ} {node : NarNode} {path : String},
    node.WellFormed d → GoesDown dir path → StaysInside dir (extractNode node path)
  | _, .regular executable contents, path, _, h => by
      rw [extractNode]
      refine .change h _ rfl _ fun _ => .bind (.ofIo _) fun _ => ?_
      exact .change h _ rfl _ fun _ => .ofIo _
  | _, .symlink target, path, _, h => by
      rw [extractNode]
      exact .change h _ rfl _ fun _ => .ofIo _
  | d + 1, .directory entries, path, hwf, h => by
      have hentries := staysInside_extractEntries hwf.2 h
      rw [extractNode]
      refine .bind (.op (List.forall_mem_nil _)) fun isThere => ?_
      split
      · exact hentries
      · exact .change h _ rfl _ fun _ => .bind (.ofIo _) fun _ => hentries

lemma staysInside_extractEntries {dir : String} : ∀ {d : ℕ} {entries : List NarEntry}
    {path : String}, EntriesWellFormed d entries → GoesDown dir path →
      StaysInside dir (extractEntries entries path)
  | _, [], path, _, _ => by
      rw [extractEntries]
      exact .ofResult _
  | d, ⟨name, node⟩ :: rest, path, ⟨⟨hname, _⟩, hnode, hrest⟩, h => by
      rw [extractEntries]
      exact .bind (staysInside_extractNode hnode (h.join hname)) fun _ =>
        staysInside_extractEntries hrest h

end

lemma staysInside_extractNar {dir tmpDir finalDir : String} (lib : Libraries) (narinfo : NarInfo)
    (nar : List UInt8) (htmp : GoesDown dir tmpDir) (hfinal : GoesDown dir finalDir) :
    StaysInside dir (extractNar lib narinfo nar tmpDir finalDir) := by
  rw [extractNar]
  split
  · exact .bind (.discardDir htmp) fun _ => .ofResult _
  next node narHash hparse =>
  split
  · exact .bind (.discardDir htmp) fun _ => .ofResult _
  have hwf := (parse_new_eq_ok.mp hparse).1
  refine .bind (staysInside_extractNode hwf htmp) fun _ => .bind (.op ?_) fun r => ?_
  · exact List.forall_mem_cons.mpr ⟨htmp, List.forall_mem_singleton.mpr hfinal⟩
  cases r with
  | ok u => exact .ofResult _
  | error e => exact .bind (.discardDir htmp) fun _ => .ofResult _

/-- The code that fetches a name stays below the cache directory. -/
lemma staysInside_fetchAndExtract (lib : Libraries) (cacheDir : String) {s : String}
    (h : IsName s) :
    StaysInside cacheDir (fetchAndExtract lib cacheDir s) := by
  have hfinal := GoesDown.child h cacheDir
  rw [fetchAndExtract]
  refine .bind (.ofResult _) fun storePath => .bind (.op trivial) fun r => ?_
  refine .bind (.ofResult _) fun narinfo => .bind (.op trivial) fun data => ?_
  refine .bind (.ofResult _) fun narData => ?_
  rw [unpackNar]
  split
  · exact .ofResult _
  refine .bind (.ofResult _) fun nar => .bind (.op trivial) fun pid => ?_
  have htmp := GoesDown.child (isName_tmpName h pid) cacheDir
  exact .change htmp _ rfl _ fun _ => .bind (.ofIo _) fun _ =>
    staysInside_extractNar lib narinfo nar htmp hfinal

/-- What is to hold of an accepted path: the directory it is extracted to and the directory it ends
up in are entries of the cache directory, and nothing outside is changed on the way. -/
structure KeptInside (lib : Libraries) (cacheDir s : String) : Prop where
  final : DirectChild cacheDir s
  tmp : ∀ pid, DirectChild cacheDir (tmpName s pid)
  noNul : '\x00' ∉ s.toList
  stays : StaysInside cacheDir (fetchAndExtract lib cacheDir s)

/-- **Which accepted paths are entries of the cache directory**: those without a slash and without a
NUL behind the dash. -/
theorem accepted_children (lib : Libraries) (cacheDir s : String) (p : StorePath)
    (h : StorePath.parseBasename s = .ok p) :
    KeptInside lib cacheDir s ↔ '/' ∉ p.name.toList ∧ '\x00' ∉ p.name.toList := by
  rw [← mem_iff_of_parseBasename h (by decide) (by decide),
    ← mem_iff_of_parseBasename h (by decide) (by decide), ← isName_iff_of_parseBasename h]
  constructor
  · intro hkept
    refine (isName_iff_of_parseBasename h).mpr ⟨fun hslash => ?_, hkept.noNul⟩
    exact not_directChild_tmpName hslash cacheDir 0 (hkept.tmp 0)
  · intro hname
    exact ⟨.of_isName hname cacheDir, fun pid => .of_isName (isName_tmpName hname pid) cacheDir,
      hname.2.2.2.2, staysInside_fetchAndExtract lib cacheDir hname⟩

/-- The cache directory of the deployed driver. -/
def nodeCacheDir : String := "/var/lib/niphas/cache"

/-- The path of a name. -/
def helloPath : StorePath := .zeroHashed "hello"

/-- A name without a slash. -/
theorem accepted_children_hello :
    StorePath.parseBasename helloPath.basename = .ok helloPath ∧
      ∀ lib, KeptInside lib nodeCacheDir helloPath.basename := by
  have hparse := StorePath.parseBasename_basename helloPath (by decide)
  exact ⟨hparse, fun lib => (accepted_children lib nodeCacheDir _ helloPath hparse).mpr (by decide)⟩

/-- A path whose name climbs out of the cache directory. -/
def climbingPath : StorePath := .zeroHashed "x/../../../../../etc/y"

/-- **A path that leaves the cache directory**: it is accepted, and where every directory is there,
its place in the cache is `/etc/y`. -/
theorem accepted_children_climbing :
    StorePath.parseBasename climbingPath.basename = .ok climbingPath ∧
      FileSystem.lookup (fun _ => some .dir) true (joinPath nodeCacheDir climbingPath.basename) =
        some ["etc", "y"] ∧
      ∀ lib, ¬ KeptInside lib nodeCacheDir climbingPath.basename := by
  have hslash : '/' ∈ climbingPath.basename.toList := by decide +kernel
  refine ⟨StorePath.parseBasename_basename _ (by decide), by decide +kernel, fun lib hkept => ?_⟩
  exact not_directChild_tmpName hslash nodeCacheDir 0 (hkept.tmp 0)

/-! ## The list in the attribute

There are two things to get through: the comma that separates, and the white space around a piece
that the driver trims.
-/

/-- A path that can be an element of the list: no comma in it, no white space around it. -/
def IsPiece (s : String) : Prop := ',' ∉ s.toList ∧ Str.trim s = s

/-- What the driver reads has no commas and is trimmed. -/
lemma isPiece_of_mem_splitClosurePaths {raw s : String} (h : s ∈ splitClosurePaths raw) :
    IsPiece s := by
  obtain ⟨piece, hpiece, rfl⟩ := List.mem_map.mp (List.mem_filter.mp h).1
  obtain ⟨cs, hcs, rfl⟩ := List.mem_map.mp hpiece
  refine ⟨fun hcomma => ?_, Str.trim_trim _⟩
  rw [Str.trim, String.toList_ofList, String.toList_ofList] at hcomma
  have hmem := (Str.trimChars_sublist cs).subset hcomma
  exact absurd rfl (of_decide_eq_false (Str.sep_of_mem_splitChars hcs ',' hmem))

/-- Such pieces are read back. -/
lemma splitClosurePaths_intercalate {paths : List String} (hne : paths ≠ [])
    (hpaths : ∀ s ∈ paths, IsPiece s ∧ s ≠ "") :
    splitClosurePaths (String.intercalate "," paths) = paths := by
  have hsplit : Str.split ',' (String.intercalate "," paths) = paths := by
    have hfree : ∀ s ∈ paths, ∀ c ∈ s.toList, decide (c = ',') = false := fun s hs c hc =>
      decide_eq_false (ne_of_mem_of_not_mem hc (hpaths s hs).1.1)
    rw [Str.split, Str.splitChars_intercalate (decide_eq_true rfl) rfl hfree hne, List.map_map]
    simp [Function.comp_def]
  have htrim : paths.map Str.trim = paths := by
    conv_rhs => rw [← List.map_id paths]
    exact List.map_congr_left fun s hs => (hpaths s hs).1.2
  rw [splitClosurePaths, hsplit, htrim, List.filter_eq_self]
  exact fun s hs => decide_eq_true (hpaths s hs).2

/-- The driver reads the list that the operator was given. -/
def ReadBack (workload : NiphasWorkload) (evalResult : EvalResult) (name ns : String) : Prop :=
  ((volumeContextOf (buildDeployment workload evalResult name ns)).lookup "closurePaths").map
    splitClosurePaths = some evalResult.closurePaths

/-- **Which closures are read back.**  A list of store paths survives the attribute exactly when
each of them can be an element of it; among paths without white space, when none has a comma. -/
theorem closurePaths_read_back (workload : NiphasWorkload) (evalResult : EvalResult)
    (name ns : String) (hne : evalResult.closurePaths ≠ [])
    (haccepted : ∀ s ∈ evalResult.closurePaths, ∃ p, StorePath.parse s = .ok p) :
    (ReadBack workload evalResult name ns ↔ ∀ s ∈ evalResult.closurePaths, IsPiece s) ∧
    ((∀ s ∈ evalResult.closurePaths, ∀ c ∈ s.toList, Str.isWhitespace c = false) →
      (ReadBack workload evalResult name ns ↔
        ∀ s ∈ evalResult.closurePaths, ',' ∉ s.toList)) := by
  have hback : ReadBack workload evalResult name ns ↔
      ∀ s ∈ evalResult.closurePaths, IsPiece s := by
    rw [ReadBack, volumeContextOf_buildDeployment, List.lookup_cons_self, Option.map_some,
      Option.some.injEq]
    constructor
    · intro h s hs
      exact isPiece_of_mem_splitClosurePaths (h ▸ hs)
    · intro h
      refine splitClosurePaths_intercalate hne fun s hs => ⟨h s hs, ?_⟩
      rintro rfl
      obtain ⟨p, hp⟩ := haccepted "" hs
      cases hp
  refine ⟨hback, fun hblank => hback.trans ?_⟩
  refine forall₂_congr fun s hs => and_iff_left (Str.trim_eq_self ⟨?_, ?_⟩)
  · exact fun c hc => hblank s hs c (List.mem_of_mem_head? hc)
  · exact fun c hc => hblank s hs c (List.mem_of_getLast? hc)

/-- An evaluation of the first path, with this closure. -/
def closureOf (p : StorePath) (rest : List StorePath) : EvalResult where
  storePath := p.toString
  name := p.name
  mainProgram := none
  closurePaths := (p :: rest).map (·.toString)

/-- What `hello` refers to. -/
def glibcPath : StorePath := .zeroHashed "glibc-2.40"

/-- Two paths without a comma come back in their order. -/
theorem closurePaths_read_back_hello :
    (closureOf helloPath [glibcPath]).closurePaths =
        ["/nix/store/00000000000000000000000000000000-hello",
          "/nix/store/00000000000000000000000000000000-glibc-2.40"] ∧
      ∀ workload name ns, ReadBack workload (closureOf helloPath [glibcPath]) name ns := by
  refine ⟨by decide +kernel, fun workload name ns => ?_⟩
  have haccepted : ∀ s ∈ (closureOf helloPath [glibcPath]).closurePaths,
      ∃ p, StorePath.parse s = .ok p :=
    List.forall_mem_cons.mpr ⟨⟨_, StorePath.parse_toString helloPath (by decide)⟩,
      List.forall_mem_singleton.mpr ⟨_, StorePath.parse_toString glibcPath (by decide)⟩⟩
  have hback := closurePaths_read_back workload (closureOf helloPath [glibcPath]) name ns
    (List.cons_ne_nil _ _) haccepted
  exact (hback.2 (by decide +kernel)).mpr (by decide +kernel)

/-- A path whose name has a comma. -/
def commaNamed : StorePath := .zeroHashed "a,b"

/-- **A closure that is read as another one**: its path is accepted, and split in two. -/
theorem closurePaths_read_comma :
    StorePath.parse commaNamed.toString = .ok commaNamed ∧
      (∀ c ∈ commaNamed.toString.toList, Str.isWhitespace c = false) ∧
      splitClosurePaths (String.intercalate "," (closureOf commaNamed []).closurePaths) =
        [(StorePath.zeroHashed "a").toString, "b"] ∧
      ∀ workload name ns, ¬ ReadBack workload (closureOf commaNamed []) name ns := by
  have hsplit : splitClosurePaths (String.intercalate "," (closureOf commaNamed []).closurePaths) =
      [(StorePath.zeroHashed "a").toString, "b"] := by decide +kernel
  refine ⟨StorePath.parse_toString _ (by decide), by decide +kernel, hsplit, ?_⟩
  intro workload name ns hback
  rw [ReadBack, volumeContextOf_buildDeployment, List.lookup_cons_self, Option.map_some, hsplit,
    Option.some.injEq] at hback
  cases hback

end Niphas
