import Niphas.Csi.CacheRuns

/-!
# Calls of the cache that nothing comes between

How `ensure_cached` gets on with one path, when the binary caches answer with a NAR that matches its
narinfo, up to the extraction and from there to its end.

The results about the cache are about all runs, and each of them is to be seen at work in one: with
a path that is fetched, with an extraction that fails half-way, with an attempt that comes after
that.  These runs have all but the extraction in common.  So everything else is done once, for any
such attempt (`Attempt`), and a run is made by putting an extraction into it.  The conditions on the
answers are those of the result at hand, and are passed along.

The extractions themselves are those of small trees, on a cache directory `/c` that is empty at
first.  Hashes are the identity, so that a narinfo matches its NAR and no other.

* `extractNar_eq`, `fetchAndExtract_eq` — what is left of an attempt behind its checks.
* `ensureCached_goes` — the call up to the extraction.
* `ensureCached_ok`, `ensureCached_failed` — the whole call, where the extraction succeeds and where
  it fails.  A failed extraction leaves the temporary directory as it is.
-/

namespace Niphas

open FileSystem System NarReader

variable {lib : Libraries} {cacheDir : String} {b : String} {sp : StorePath} {info : NarInfo}
  {data nar : List UInt8} {node : NarNode} {p : ℕ} {w : CacheWorld}

/-! ## What is left of an attempt -/

/-- The end of an attempt, behind the extraction. -/
def renameInto (tmpDir finalDir : String) : CacheM Unit := do
  match ← CacheM.op (.fs (.rename tmpDir finalDir)) with
  | .ok () => CacheM.ofResult (.ok ())
  | .error e =>
      CacheM.discardDir tmpDir
      CacheM.ofResult (fail (.io e))

lemma extractNar_eq
    (hparse : NarReader.parse lib.sha256 (NarReader.new nar) = .ok (node, info.narHash))
    (tmpDir finalDir : String) :
    extractNar lib info nar tmpDir finalDir =
      extractNode node tmpDir >>= fun _ => renameInto tmpDir finalDir := by
  rw [extractNar, hparse]
  dsimp only
  rw [if_neg (not_not_intro rfl)]
  rfl

lemma unpackNar_eq (hfile : sha256Hash lib.sha256 data = info.fileHash)
    (hdec : decompressNar lib info data = .ok nar) :
    unpackNar lib cacheDir b info data = (do
      let pid ← CacheM.op .processId
      CacheM.ofIo (← CacheM.op (.fs (.createDirAll (joinPath cacheDir (tmpName b pid)))))
      extractNar lib info nar (joinPath cacheDir (tmpName b pid)) (joinPath cacheDir b)) := by
  rw [unpackNar]
  dsimp only
  rw [if_neg (not_not_intro hfile), hdec]
  rfl

lemma fetchAndExtract_eq (hsp : StorePath.parseBasename b = .ok sp) :
    fetchAndExtract lib cacheDir b = (do
      let narinfo ← CacheM.ofResult (← CacheM.op (.fetchNarinfoByHash sp.hashStr))
      let narData ← CacheM.ofResult (Result.ofExcept (← CacheM.op (.fetchNar narinfo)))
      unpackNar lib cacheDir b narinfo narData) := by
  rw [fetchAndExtract, hsp]
  rfl

/-! ## Up to the extraction -/

/-- The operations on which nothing depends but the files, where they do what they are to do. -/
def CacheOp.Plain : (o : CacheOp) → cacheInterface.Answer o → Prop
  | .fs (.createDirAll _), _ | .fs (.readDir _), _ | .fetchNarinfoByHash _, _ => False
  | .fs (.write _ _), r | .fs (.setPermissions _ _), r | .fs (.symlink _ _), r
  | .fs (.removeDirAll _), r => r = .ok ()
  | _, _ => True

/-- The node while task `p` extracts `b` under `info`, with the files `fs`. -/
def CacheWorld.attempting (w : CacheWorld) (p : ℕ) (b : String) (info : NarInfo) (fs : FS) :
    CacheWorld :=
  { w with
    fs := fs
    locks := Function.update w.locks b (some p)
    fetched := fun b' info' => w.fetched b' info' ∨
      Function.update w.locks b (some p) b' = some p ∧
        (Except.ok info : Result NarInfo) = .ok info' }

/-- A call on the files, during an attempt. -/
lemma sem_attempting {o : FsOp} {r : o.Answer} {fs fs' : FS} (h : o.Sem fs r fs') :
    CacheOp.Sem p (.fs o) (w.attempting p b info fs) r (w.attempting p b info fs') := ⟨fs', h, rfl⟩

/-- The node after that. -/
def CacheWorld.attempted (w : CacheWorld) (p : ℕ) (b : String) (info : NarInfo) (fs : FS) :
    CacheWorld :=
  { w.attempting p b info fs with
    locks := Function.update (w.attempting p b info fs).locks b none }

/-- The mutex is free again. -/
lemma free_attempted (w : CacheWorld) (p : ℕ) (b : String) (info : NarInfo) (fs : FS) :
    (w.attempted p b info fs).locks b = none := Function.update_self _ _ _

/-- What is left of `ensure_cached` behind the extraction. -/
def afterExtract (cacheDir b : String) (pid : ℕ) (prog : CacheM Unit) :
    Prog cacheInterface (Result Unit) := do
  let r ← (prog >>= fun _ =>
    renameInto (joinPath cacheDir (tmpName b pid)) (joinPath cacheDir b)).run
  cacheOp (.unlock b)
  match r with
  | .ok () => return .ok ()
  | .error e => return .error e

section

variable {Q : (nodeCache lib cacheDir).OpCond} {path : String} {fs₁ fs₂ fs₃ : FS}

/-- What an attempt finds, and what is asked of its answers. -/
structure Attempt (lib : Libraries) (cacheDir : String) (Q : (nodeCache lib cacheDir).OpCond)
    (p : ℕ) (w : CacheWorld) (b : String) (info : NarInfo) (node : NarNode) (fs₁ : FS) :
    Prop where
  parses : ∃ sp, StorePath.parseBasename b = .ok sp
  free : w.locks b = none
  matchesNar : MatchesNar lib info node
  create : (FsOp.createDirAll (joinPath cacheDir (tmpName b w.pid))).Sem w.fs (.ok ()) fs₁
  plain : ∀ o r w', CacheOp.Plain o r → Q p o r w'
  fetch : ∀ hash, Q p (.fetchNarinfoByHash hash) (.ok info)
    { w with locks := Function.update w.locks b (some p) }
  vacant : Q p (.fs (.createDirAll (joinPath cacheDir (tmpName b w.pid)))) (.ok ())
    (w.attempting p b info w.fs)

/-- One operation, with the answer `r`. -/
lemma goes_op {α : Type} {o : CacheOp} {k : cacheInterface.Answer o → Prog cacheInterface α}
    (r : cacheInterface.Answer o) {prog : Prog cacheInterface α} {w w' w'' : CacheWorld}
    (hs : CacheOp.Sem p o w r w') (hq : Q p o r w)
    (h : Goes (nodeCache lib cacheDir) Q p (k r) w' prog w'') :
    Goes (nodeCache lib cacheDir) Q p (Prog.call o k) w prog w'' := .call hs hq h

/-- An attempt up to the extraction. -/
lemma fetchAndExtract_goes (h : Attempt lib cacheDir Q p w b info node fs₁) :
    Goes (nodeCache lib cacheDir) Q p (fetchAndExtract lib cacheDir b).run
      { w with locks := Function.update w.locks b (some p) }
      (extractNode node (joinPath cacheDir (tmpName b w.pid)) >>= fun _ =>
        renameInto (joinPath cacheDir (tmpName b w.pid)) (joinPath cacheDir b)).run
      (w.attempting p b info fs₁) := by
  obtain ⟨sp, hsp⟩ := h.parses
  obtain ⟨data, nar, hfile, hdec, hparse⟩ := h.matchesNar
  rw [fetchAndExtract_eq hsp]
  have hfetch : CacheOp.Sem p (.fetchNarinfoByHash sp.hashStr)
      { w with locks := Function.update w.locks b (some p) } (.ok info)
      (w.attempting p b info w.fs) := rfl
  have hdata : CacheOp.Sem p (.fetchNar info) (w.attempting p b info w.fs) (.ok data)
      (w.attempting p b info w.fs) := rfl
  have hpid : CacheOp.Sem p .processId (w.attempting p b info w.fs) w.pid
      (w.attempting p b info w.fs) := ⟨rfl, rfl⟩
  have hcreate : CacheOp.Sem p (.fs (.createDirAll (joinPath cacheDir (tmpName b w.pid))))
      (w.attempting p b info w.fs) (.ok ()) (w.attempting p b info fs₁) := ⟨fs₁, h.create, rfl⟩
  refine goes_op (Except.ok info : Result _) hfetch (h.fetch _) ?_
  refine goes_op (Except.ok data : Except NiphasError _) hdata (h.plain _ _ _ trivial) ?_
  change Goes (nodeCache lib cacheDir) Q p (unpackNar lib cacheDir b info data).run _ _ _
  rw [unpackNar_eq hfile hdec]
  refine goes_op w.pid hpid (h.plain _ _ _ trivial) ?_
  refine goes_op (Except.ok () : Except String _) hcreate h.vacant ?_
  change Goes (nodeCache lib cacheDir) Q p (extractNar lib info nar _ _).run _ _ _
  rw [extractNar_eq hparse]
  exact Goes.refl

/-- **The call up to the extraction.** -/
lemma ensureCached_goes (hpath : stripStoreDir path = b)
    (h : Attempt lib cacheDir Q p w b info node fs₁) :
    Goes (nodeCache lib cacheDir) Q p (ensureCached lib cacheDir [path]) w
      (afterExtract cacheDir b w.pid
        (extractNode node (joinPath cacheDir (tmpName b w.pid))))
      (w.attempting p b info fs₁) := by
  subst hpath
  have habsent : ∀ w' : CacheWorld, CacheOp.Sem p
      (.fs (.exists (joinPath cacheDir (stripStoreDir path)))) w' false w' := fun w' =>
    ⟨w'.fs, ⟨rfl, nofun⟩, rfl⟩
  have hlock : CacheOp.Sem p (.lock (stripStoreDir path)) w ()
      { w with locks := Function.update w.locks (stripStoreDir path) (some p) } := ⟨h.free, rfl⟩
  rw [ensureCached]
  refine goes_op false (habsent w) (h.plain _ _ _ trivial) ?_
  refine goes_op () hlock (h.plain _ _ _ trivial) ?_
  refine @Goes.bind (nodeCache lib cacheDir) Q p _ _ _ (extractNode node _ >>= fun _ =>
    renameInto _ _).run _ _ _ ?_
  rw [ensureLocked]
  refine goes_op false (habsent _) (h.plain _ _ _ trivial) ?_
  exact fetchAndExtract_goes h

/-! ## To the end -/

/-- The extraction succeeds, and the tree takes its place. -/
lemma ensureCached_ok (hpath : stripStoreDir path = b)
    (h : Attempt lib cacheDir Q p w b info node fs₁)
    (hextract : Solo (nodeCache lib cacheDir) Q p
      (extractNode node (joinPath cacheDir (tmpName b w.pid))).run
      (w.attempting p b info fs₁) (.ok ())
      (w.attempting p b info fs₂))
    (hrename : (FsOp.rename (joinPath cacheDir (tmpName b w.pid))
      (joinPath cacheDir b)).Sem fs₂ (.ok ()) fs₃) :
    Solo (nodeCache lib cacheDir) Q p (ensureCached lib cacheDir [path]) w (.ok ())
      (w.attempted p b info fs₃) := by
  have hren : CacheOp.Sem p (.fs (.rename (joinPath cacheDir (tmpName (b) w.pid))
      (joinPath cacheDir (b)))) (w.attempting p (b) info fs₂)
      (.ok ()) (w.attempting p (b) info fs₃) := ⟨fs₃, hrename, rfl⟩
  have hunlock : CacheOp.Sem p (.unlock (b))
      (w.attempting p (b) info fs₃) ()
      (w.attempted p (b) info fs₃) := rfl
  have hend : Goes (nodeCache lib cacheDir) Q p
      (afterExtract cacheDir (b) w.pid
        (extractNode node (joinPath cacheDir (tmpName (b) w.pid))))
      (w.attempting p (b) info fs₁) (.pure (.ok ()))
      (w.attempted p (b) info fs₃) := by
    have hplace : Solo (nodeCache lib cacheDir) Q p
        (renameInto (joinPath cacheDir (tmpName (b) w.pid))
          (joinPath cacheDir (b))).run
        (w.attempting p (b) info fs₂) (.ok ())
        (w.attempting p (b) info fs₃) :=
      .call hren (h.plain _ _ _ trivial) .pure
    refine Solo.then (Solo.bindExcept hextract hplace) ?_
    exact goes_op () hunlock (h.plain _ _ _ trivial) Goes.refl
  exact ((ensureCached_goes hpath h).trans hend).solo rfl

/-- The extraction fails, and what it has done stays. -/
lemma ensureCached_failed (hpath : stripStoreDir path = b)
    (h : Attempt lib cacheDir Q p w b info node fs₁)
    {e : Fault} (hextract : Solo (nodeCache lib cacheDir) Q p
      (extractNode node (joinPath cacheDir (tmpName b w.pid))).run
      (w.attempting p b info fs₁) (.error e)
      (w.attempting p b info fs₂)) :
    Solo (nodeCache lib cacheDir) Q p (ensureCached lib cacheDir [path]) w (.error e)
      (w.attempted p b info fs₂) := by
  have hunlock : CacheOp.Sem p (.unlock (b))
      (w.attempting p (b) info fs₂) ()
      (w.attempted p (b) info fs₂) := rfl
  have hend : Goes (nodeCache lib cacheDir) Q p
      (afterExtract cacheDir (b) w.pid
        (extractNode node (joinPath cacheDir (tmpName (b) w.pid))))
      (w.attempting p (b) info fs₁) (.pure (.error e))
      (w.attempted p (b) info fs₂) := by
    refine Solo.then (Solo.bindError hextract) ?_
    exact goes_op () hunlock (h.plain _ _ _ trivial) Goes.refl
  exact ((ensureCached_goes hpath h).trans hend).solo rfl

/-- The driver starts, and finds nothing to clean up. -/
lemma startUp_ok {d : Path} {fs₀ : FS} (ho : Owned fs₀ cacheDir d w.fs)
    (hplain : ∀ o r w', CacheOp.Plain o r → Q p o r w')
    (hcreate : Q p (.fs (.createDirAll cacheDir)) (.ok ()) w)
    (hlisted : Q p (.fs (.readDir cacheDir)) (.ok []) w) :
    Solo (nodeCache lib cacheDir) Q p (startUp cacheDir) w (.ok ())
      { w with phase := .serving } := by
  have hmk : CacheOp.Sem p (.fs (.createDirAll cacheDir)) w (.ok ()) w :=
    ⟨w.fs, ho.createDirAll_dir_ok, rfl⟩
  have hread : CacheOp.Sem p (.fs (.readDir cacheDir)) w (.ok []) w := by
    refine ⟨w.fs, ⟨rfl, fun names hnames => ⟨d, ho.lookup_dir, fun n hn => ?_⟩⟩, rfl⟩
    rw [← Except.ok.inj hnames] at hn
    exact (List.not_mem_nil hn).elim
  have hlisten : CacheOp.Sem p .listen w (.ok ()) { w with phase := .serving } := rfl
  have hgo : Goes (nodeCache lib cacheDir) Q p (startUp cacheDir) w (.pure (.ok ()))
      { w with phase := .serving } := by
    refine goes_op (Except.ok () : Except String _) hmk hcreate ?_
    refine goes_op (Except.ok [] : Except String (List String)) hread hlisted ?_
    exact goes_op (Except.ok () : Except String _) hlisten (hplain _ _ _ trivial) Goes.refl
  exact hgo.solo rfl

end

/-! ## Runs of whole calls -/

section

variable {d : Path} {Good : String → NarInfo → Prop}

/-- Where the rules consider an answer, the step is one of those covered. -/
lemma fresh_of_allowed {c : (nodeCache lib cacheDir).Config} {o : CacheOp}
    {r : cacheInterface.Answer o} (h : CacheAllowed cacheDir d Good p o r c.world) :
    Fresh d c (.op p o r) ∧ Vouched Good c (.op p o r) := by
  constructor
  · rintro p' path r' hev b hlock hpath
    cases hev
    exact h b hlock hpath
  · rintro p' hash info hev b hlock
    cases hev
    exact h b info hlock rfl

lemma allowed_of_plain {d : Path} {Good : String → NarInfo → Prop} {o : CacheOp}
    {r : cacheInterface.Answer o} (ho : o.Plain r) : CacheAllowed cacheDir d Good p o r w := by
  cases o with
  | fs o =>
      cases o with
      | createDirAll path => cases ho
      | _ => exact trivial
  | fetchNarinfoByHash hash => cases ho
  | _ => exact trivial

/-- A call that runs alone, with such answers only. -/
lemma reaches_of_solo {call : CacheCall} {w₀ w' : CacheWorld} {out : Result Unit}
    (h : Solo (nodeCache lib cacheDir) (CacheAllowed cacheDir d Good) p
      ((nodeCache lib cacheDir).program call) w₀ out w') (hbegin : call.Begins w p w₀) :
    Reaches (nodeCache lib cacheDir) (fun c ev => Fresh d c ev ∧ Vouched Good c ev)
      (Config.idle w) (Config.idle w') := by
  exact @Solo.run (nodeCache lib cacheDir) _ _ p call out w w₀ w' h hbegin
    ⟨fun _ _ _ hev => (by cases hev), fun _ _ _ hev => (by cases hev)⟩
    (fun w rest o r hq => fresh_of_allowed hq)
    ⟨fun _ _ _ hev => (by cases hev), fun _ _ _ hev => (by cases hev)⟩

end

/-! ## A node -/

/-- Libraries that hash with the identity and take every signature. -/
def plainLibraries : Libraries where
  sha256 := id
  base64Decode _ := .ok (List.replicate 64 0)
  checkKey _ := .ok ()
  verify _ _ _ := true
  decoder _ data := .ok data

/-- The cache directory is `/c`, and empty; there is also `/etc`. -/
def plainFiles : FS := fun p => if p = [] ∨ p = ["c"] ∨ p = ["etc"] then some .dir else none

lemma emptyDir_plainFiles : EmptyDir plainFiles "/c" ["c"] := by
  refine ⟨by decide +kernel, rfl, ?_⟩
  rintro p ⟨c, q, rfl⟩
  rfl

/-- The path that is asked for. -/
def hello : String := (StorePath.zeroHashed "hello").basename

lemma parseBasename_hello : StorePath.parseBasename hello = .ok (.zeroHashed "hello") :=
  StorePath.parseBasename_basename _ (by decide)

lemma isName_hello : IsName hello := by decide +kernel

lemma stripStoreDir_hello : stripStoreDir hello = hello := by decide +kernel

lemma isName_hello_paths : ∀ path ∈ [hello], IsName (stripStoreDir path) := by
  intro path hpath
  rw [List.mem_singleton.mp hpath, stripStoreDir_hello]
  exact isName_hello

/-- The narinfo of a NAR that is not compressed. -/
def narinfoOf (node : NarNode) (signatures : List NarSignature) : NarInfo where
  storePath := .zeroHashed "hello"
  url := "nar/hello.nar"
  compression := .none
  fileHash := sha256Hash plainLibraries.sha256 (archiveEncode node)
  fileSize := (archiveEncode node).length
  narHash := sha256Hash plainLibraries.sha256 (archiveEncode node)
  narSize := (archiveEncode node).length
  references := []
  deriver := none
  signatures := signatures
  ca := none

variable {node node' : NarNode} {signatures : List NarSignature}

lemma parse_archiveEncode (hwf : node.WellFormed 256) :
    NarReader.parse plainLibraries.sha256 (NarReader.new (archiveEncode node)) =
      .ok (node, (narinfoOf node signatures).narHash) :=
  parse_new_eq_ok.mpr ⟨hwf, List.prefix_refl _, rfl⟩

lemma matchesNar_narinfoOf (hwf : node.WellFormed 256) :
    MatchesNar plainLibraries (narinfoOf node signatures) node :=
  ⟨archiveEncode node, archiveEncode node, rfl, rfl, parse_archiveEncode hwf⟩

/-- No other tree matches it. -/
lemma eq_of_matchesNar (hwf : node.WellFormed 256)
    (h : MatchesNar plainLibraries (narinfoOf node signatures) node') : node' = node := by
  obtain ⟨data, nar, hfile, hdec, hparse⟩ := h
  have hdata : data = archiveEncode node := congrArg NixHash.digest hfile
  have hnar : nar = data := (Except.ok.inj hdec).symm
  rw [hnar, hdata, @parse_archiveEncode _ signatures hwf, Except.ok.injEq, Prod.mk.injEq] at hparse
  exact hparse.1.symm

/-- The node once its driver serves. -/
def servingNode : CacheWorld := { CacheWorld.first plainFiles with phase := .serving, pid := 1 }

lemma owned_plainFiles : Owned plainFiles "/c" ["c"] plainFiles :=
  ⟨emptyDir_plainFiles.home, fun _ _ => rfl⟩

lemma begins_startUp : CacheCall.startUp.Begins (CacheWorld.first plainFiles) 0
    { CacheWorld.first plainFiles with phase := .starting 0, pid := 1 } := ⟨rfl, 1, rfl⟩

/-- The name of the temporary directory. -/
def helloTmp : String := tmpName hello 1

lemma isName_helloTmp : IsName helloTmp := isName_tmpName isName_hello 1

lemma names_helloTmp : Names "/c" (joinPath "/c" helloTmp) [helloTmp] :=
  emptyDir_plainFiles.home.names.join isName_helloTmp

/-- The files with an empty temporary directory. -/
def createdFiles : FS := set plainFiles (["c"] ++ [helloTmp]) (some .dir)

lemma owned_createdFiles : Owned plainFiles "/c" ["c"] createdFiles :=
  owned_plainFiles.sameBut (List.cons_ne_nil _ _) (sameBut_set _ (List.prefix_refl _) _)

/-- Below the temporary directory. -/
lemma through_helloTmp {fs : FS} (hc : fs ["c"] = some .dir) :
    Through (subtree fs ["c"]) [helloTmp] :=
  Through.cons hc isName_helloTmp.2.2.1 (through_nil _)

lemma through_entry {fs : FS} (hc : fs ["c"] = some .dir) (htmp : fs ["c", helloTmp] = some .dir)
    {n : String} (hn : IsName n) : Through (subtree fs ["c"]) [helloTmp, n] :=
  (through_helloTmp hc).snoc htmp hn.2.2.1

/-- The tree that is asked for: a directory with one executable file. -/
def helloNode : NarNode := .directory [⟨"a", .regular true [104]⟩]

lemma wellFormed_helloNode : helloNode.WellFormed 256 := by decide

/-- The files after its extraction. -/
def extractedFiles : FS :=
  set (set createdFiles (["c"] ++ [helloTmp, "a"]) (some (.file [104] 0)))
    (["c"] ++ [helloTmp, "a"]) (some (.file [104] (fileMode true)))

/-- What has taken its place is what was there. -/
lemma subtree_moveTree (fs : FS) (u v : Path) : subtree (moveTree fs u v) v = subtree fs u :=
  subtree_graft _ _ _

lemma extractedFiles_tmp : extractedFiles (["c"] ++ [helloTmp]) = some .dir := by
  rw [extractedFiles, set_of_ne _ (by simp), set_of_ne _ (by simp)]
  exact set_self _ _ _

lemma owned_extractedFiles : Owned plainFiles "/c" ["c"] extractedFiles :=
  (owned_createdFiles.sameBut (List.cons_ne_nil _ _)
    (sameBut_set _ (List.prefix_refl (["c"] ++ [helloTmp, "a"])) _)).sameBut
      (List.cons_ne_nil _ _) (sameBut_set _ (List.prefix_refl _) _)

/-- And when they have taken their place. -/
def helloFiles : FS := moveTree extractedFiles (["c"] ++ [helloTmp]) (["c"] ++ [hello])

lemma helloFiles_hello : helloFiles (["c"] ++ [hello]) ≠ none := by
  have hroot := congrFun (subtree_moveTree extractedFiles (["c"] ++ [helloTmp])
    (["c"] ++ [hello])) []
  rw [subtree, subtree, List.append_nil, List.append_nil, extractedFiles_tmp] at hroot
  rw [helloFiles, hroot]
  exact Option.some_ne_none _

section

variable {Q : (nodeCache plainLibraries "/c").OpCond}
  (hplain : ∀ o r w', CacheOp.Plain o r → Q 0 o r w')

include hplain in
/-- Extraction of one file. -/
lemma extractHello_ok (w : CacheWorld) (info : NarInfo) :
    Solo (nodeCache plainLibraries "/c") Q 0 (extractNode helloNode (joinPath "/c" helloTmp)).run
      (w.attempting 0 hello info createdFiles) (.ok ())
      (w.attempting 0 hello info extractedFiles) := by
  have hdir : createdFiles ["c", helloTmp] = some .dir := set_self _ _ _
  have hway : Through (subtree createdFiles ["c"]) [helloTmp, "a"] :=
    through_entry rfl hdir (by decide)
  have hname : Names "/c" (joinPath (joinPath "/c" helloTmp) "a") [helloTmp, "a"] :=
    names_helloTmp.join (by decide)
  have ho := owned_createdFiles
  have hexists := ho.exists_ok names_helloTmp (List.cons_ne_nil _ _) (through_helloTmp rfl) hdir
  have hwrite := ho.write_ok hname (List.cons_ne_nil _ _) hway rfl [104] 0
  have hsame := (ho.write_sem hname (List.cons_ne_nil _ _) hway nofun hwrite).1
  have hway' : Through (subtree (set createdFiles (["c"] ++ [helloTmp, "a"]) (some (.file [104] 0)))
      ["c"]) [helloTmp, "a"] :=
    through_entry rfl ((set_of_ne _ (by simp) _).trans hdir) (by decide)
  have hmode := (ho.sameBut (List.cons_ne_nil _ _) hsame).setPermissions_ok hname
    (List.cons_ne_nil _ _) hway' (set_self _ _ _) (fileMode true)
  refine Goes.solo ?_ rfl
  refine goes_op true (sem_attempting hexists) (hplain _ _ _ trivial) ?_
  refine goes_op (Except.ok () : Except String _) (sem_attempting hwrite)
    (hplain (.fs (.write _ _)) (.ok ()) _ rfl) ?_
  exact goes_op (Except.ok () : Except String _) (sem_attempting hmode)
    (hplain (.fs (.setPermissions _ _)) (.ok ()) _ rfl) Goes.refl

lemma not_isTmp_hello : ¬ IsTmp hello := not_isTmp_of_parseBasename parseBasename_hello

lemma hello_ne_helloTmp : hello ≠ helloTmp := fun h => not_isTmp_hello (h ▸ isTmp_tmpName hello 1)

lemma not_prefix_hello : ¬ [helloTmp] <+: [hello] := by
  rw [List.cons_prefix_cons]
  exact fun h => hello_ne_helloTmp h.1.symm

/-- The tree takes its place. -/
lemma renameHello_ok : (FsOp.rename (joinPath "/c" helloTmp) (joinPath "/c" hello)).Sem
    extractedFiles (.ok ()) helloFiles := by
  refine owned_extractedFiles.rename_ok names_helloTmp (List.cons_ne_nil _ _)
    (through_helloTmp rfl)
    (emptyDir_plainFiles.home.names.join isName_hello) (List.cons_ne_nil _ _)
    (Through.cons rfl isName_hello.2.2.1 (through_nil _)) ?_ ?_ not_prefix_hello
  · rw [extractedFiles_tmp]
    exact nofun
  · rw [extractedFiles, set_of_ne _ (by simp), set_of_ne _ (by simp), createdFiles,
      set_of_ne _ (by simpa using hello_ne_helloTmp)]
    rfl

/-- The only mutex that is held. -/
lemma eq_hello_of_lock {locks : String → Option ℕ} (hfree : ∀ b, locks b = none) {b : String}
    {q : ℕ} (h : Function.update locks hello (some 0) b = some q) : b = hello := by
  by_contra hne
  rw [Function.update_of_ne hne, hfree] at h
  cases h

variable {Good : String → NarInfo → Prop}

/-- The driver starts. -/
lemma reaches_servingNode :
    Reaches (nodeCache plainLibraries "/c") (fun c ev => Fresh ["c"] c ev ∧ Vouched Good c ev)
      (Config.idle (CacheWorld.first plainFiles)) (Config.idle servingNode) :=
  @reaches_of_solo plainLibraries "/c" 0 _ _ _ .startUp _ _ _
    (startUp_ok owned_plainFiles (fun _ _ _ ho => allowed_of_plain ho)
      (fun _ hlock _ => by cases hlock) trivial) begins_startUp

/-- What the first attempt finds. -/
lemma attempt_hello {info : NarInfo} (hnar : MatchesNar plainLibraries info node)
    (hgood : Good hello info) :
    Attempt plainLibraries "/c" (CacheAllowed "/c" ["c"] Good) 0 servingNode hello info node
      createdFiles where
  parses := ⟨_, parseBasename_hello⟩
  free := rfl
  matchesNar := hnar
  create := owned_plainFiles.createDirAll_ok names_helloTmp (List.cons_ne_nil _ _)
    (through_helloTmp rfl) (.inl rfl)
  plain _ _ _ ho := allowed_of_plain ho
  fetch hash b info' hlock hr := by
    cases hr
    rwa [eq_hello_of_lock (fun _ => rfl) hlock]
  vacant b hlock _ := by
    rw [eq_hello_of_lock (fun _ => rfl) hlock]
    exact .inl rfl

/-- The path is fetched. -/
lemma ensureHello_ok (hgood : Good hello (narinfoOf helloNode signatures)) :
    Solo (nodeCache plainLibraries "/c") (CacheAllowed "/c" ["c"] Good) 0
      (ensureCached plainLibraries "/c" [hello]) servingNode (.ok ())
      (servingNode.attempted 0 hello (narinfoOf helloNode signatures) helloFiles) := by
  have hallowed : ∀ o r w', CacheOp.Plain o r →
      CacheAllowed "/c" ["c"] Good 0 o r w' := fun _ _ _ ho => allowed_of_plain ho
  exact ensureCached_ok stripStoreDir_hello
    (attempt_hello (matchesNar_narinfoOf wellFormed_helloNode) hgood)
    (extractHello_ok hallowed _ _) renameHello_ok

/-- **The path is fetched**, once and for all. -/
lemma reaches_hello (hgood : Good hello (narinfoOf helloNode signatures)) :
    Reaches (nodeCache plainLibraries "/c") (fun c ev => Fresh ["c"] c ev ∧ Vouched Good c ev)
      (Config.idle (CacheWorld.first plainFiles))
      (Config.idle
        (servingNode.attempted 0 hello (narinfoOf helloNode signatures) helloFiles)) :=
  reaches_servingNode.trans (@reaches_of_solo plainLibraries "/c" 0 _ _ _
    (.ensureCached [hello]) _ _ _ (ensureHello_ok hgood) ⟨rfl, isName_hello_paths, rfl⟩)

/-! ## What a failed extraction leaves

The same directory is found by the next attempt, which creates it without an error and goes on
inside.
-/

/-- A tree whose extraction fails at its second entry. -/
def brokenNode : NarNode := .directory [⟨"a", .symlink "/etc"⟩, ⟨"b", .regular false []⟩]

lemma wellFormed_brokenNode : brokenNode.WellFormed 256 := by decide

/-- The files after that: the temporary directory with the first entry. -/
def leftoverFiles : FS := set createdFiles (["c"] ++ [helloTmp, "a"]) (some (.symlink "/etc"))

lemma leftoverFiles_tmp : leftoverFiles (["c"] ++ [helloTmp]) = some .dir := by
  rw [leftoverFiles, set_of_ne _ (by simp)]
  exact set_self _ _ _

lemma owned_leftoverFiles : Owned plainFiles "/c" ["c"] leftoverFiles :=
  owned_createdFiles.sameBut (List.cons_ne_nil _ _) (sameBut_set _ (List.prefix_refl _) _)

/-- The error of the failed call. -/
def noSpace : Fault := .err (.io "No space left on device (os error 28)")

include hplain in
lemma extractBroken_failed (info : NarInfo) (hfull : ∀ w', Q 0
      (.fs (.write (joinPath (joinPath "/c" helloTmp) "b") []))
      (.error "No space left on device (os error 28)") w') :
    Solo (nodeCache plainLibraries "/c") Q 0 (extractNode brokenNode (joinPath "/c" helloTmp)).run
      (servingNode.attempting 0 hello info createdFiles) (.error noSpace)
      (servingNode.attempting 0 hello info leftoverFiles) := by
  have hdir : createdFiles ["c", helloTmp] = some .dir := set_self _ _ _
  have ho := owned_createdFiles
  have hexists := ho.exists_ok names_helloTmp (List.cons_ne_nil _ _) (through_helloTmp rfl) hdir
  have hlink : (FsOp.symlink "/etc" (joinPath (joinPath "/c" helloTmp) "a")).Sem createdFiles
      (.ok ()) leftoverFiles :=
    ho.symlink_ok (names_helloTmp.join (by decide)) (List.cons_ne_nil _ _)
      (through_entry rfl hdir (by decide)) rfl (by decide)
  have hwrite : (FsOp.write (joinPath (joinPath "/c" helloTmp) "b") []).Sem leftoverFiles
      (.error "No space left on device (os error 28)") leftoverFiles := .inl rfl
  refine Goes.solo ?_ rfl
  refine goes_op true (sem_attempting hexists) (hplain _ _ _ trivial) ?_
  refine goes_op (Except.ok () : Except String _) (sem_attempting hlink)
    (hplain (.fs (.symlink _ _)) (.ok ()) _ rfl) ?_
  exact goes_op (Except.error _ : Except String Unit) (sem_attempting hwrite) (hfull _)
    Goes.refl

/-- The node after that. -/
def leftoverNode : CacheWorld :=
  servingNode.attempted 0 hello (narinfoOf brokenNode []) leftoverFiles

/-- **The leftover.**  Nothing cleans up behind a failed extraction. -/
lemma reaches_leftoverNode (hgood : Good hello (narinfoOf brokenNode [])) :
    Reaches (nodeCache plainLibraries "/c") (fun c ev => Fresh ["c"] c ev ∧ Vouched Good c ev)
      (Config.idle (CacheWorld.first plainFiles)) (Config.idle leftoverNode) := by
  have hallowed : ∀ o r w', CacheOp.Plain o r →
      CacheAllowed "/c" ["c"] Good 0 o r w' := fun _ _ _ ho => allowed_of_plain ho
  exact reaches_servingNode.trans (@reaches_of_solo plainLibraries "/c" 0 _ _ _
    (.ensureCached [hello]) _ _ _ (ensureCached_failed stripStoreDir_hello
      (attempt_hello (matchesNar_narinfoOf wellFormed_brokenNode) hgood)
      (extractBroken_failed hallowed _ fun _ => trivial)) ⟨rfl, isName_hello_paths, rfl⟩)

/-- Another tree. -/
def emptyNode : NarNode := .directory []

lemma wellFormed_emptyNode : emptyNode.WellFormed 256 := by decide

/-- What the next attempt finds. -/
lemma attempt_leftover {info : NarInfo} (hnar : MatchesNar plainLibraries info node) :
    Attempt plainLibraries "/c" (fun _ _ _ _ => True) 0 leftoverNode hello info node
      leftoverFiles where
  parses := ⟨_, parseBasename_hello⟩
  free := free_attempted _ _ _ _ _
  matchesNar := hnar
  create := by
    have h := owned_leftoverFiles.createDirAll_ok names_helloTmp (List.cons_ne_nil _ _)
      (through_helloTmp rfl) (.inr leftoverFiles_tmp)
    rwa [set_eq_self leftoverFiles_tmp] at h
  plain _ _ _ _ := trivial
  fetch _ := trivial
  vacant := trivial

/-- The files when they have taken their place. -/
def mixedFiles : FS := moveTree leftoverFiles (["c"] ++ [helloTmp]) (["c"] ++ [hello])

lemma subtree_mixedFiles :
    subtree mixedFiles (["c"] ++ [hello]) = subtree leftoverFiles (["c"] ++ [helloTmp]) :=
  subtree_moveTree _ _ _

lemma mixedFiles_hello : mixedFiles (["c"] ++ [hello]) ≠ none := by
  have hroot := congrFun subtree_mixedFiles []
  rw [subtree, subtree, List.append_nil, List.append_nil, leftoverFiles_tmp] at hroot
  rw [hroot]
  exact Option.some_ne_none _

/-- The next attempt takes what it finds for its own. -/
lemma reaches_mixed :
    Reaches (nodeCache plainLibraries "/c") (AnyStep _) (Config.idle (CacheWorld.first plainFiles))
      (Config.idle (leftoverNode.attempted 0 hello (narinfoOf emptyNode []) mixedFiles)) := by
  have hexists := owned_leftoverFiles.exists_ok names_helloTmp (List.cons_ne_nil _ _)
    (through_helloTmp rfl) leftoverFiles_tmp
  have hextract : Solo (nodeCache plainLibraries "/c") (fun _ _ _ _ => True) 0
      (extractNode emptyNode (joinPath "/c" helloTmp)).run
      (leftoverNode.attempting 0 hello (narinfoOf emptyNode []) leftoverFiles) (.ok ())
      (leftoverNode.attempting 0 hello (narinfoOf emptyNode []) leftoverFiles) :=
    Goes.solo (goes_op true (sem_attempting hexists) trivial Goes.refl) rfl
  have hrename : (FsOp.rename (joinPath "/c" helloTmp) (joinPath "/c" hello)).Sem leftoverFiles
      (.ok ()) mixedFiles := by
    refine owned_leftoverFiles.rename_ok names_helloTmp (List.cons_ne_nil _ _)
      (through_helloTmp rfl)
      (emptyDir_plainFiles.home.names.join isName_hello) (List.cons_ne_nil _ _)
      (Through.cons rfl isName_hello.2.2.1 (through_nil _)) ?_ ?_ not_prefix_hello
    · rw [leftoverFiles_tmp]
      exact nofun
    · rw [leftoverFiles, set_of_ne _ (by simp), createdFiles,
        set_of_ne _ (by simpa using hello_ne_helloTmp)]
      rfl
  refine ((@reaches_leftoverNode (fun _ _ => True) trivial).imp fun _ _ _ => trivial).trans ?_
  exact @Solo.run (nodeCache plainLibraries "/c") (AnyStep _) (fun _ _ _ _ => True) 0
    (.ensureCached [hello]) _ _ _ _ (ensureCached_ok stripStoreDir_hello
      (attempt_leftover (matchesNar_narinfoOf wellFormed_emptyNode)) hextract hrename)
    ⟨rfl, isName_hello_paths, rfl⟩ trivial (fun _ _ _ _ _ => trivial) trivial

/-- A tree with a directory where the first one has a symlink. -/
def insideNode : NarNode := .directory [⟨"a", .directory [⟨"x", .regular false []⟩]⟩]

lemma wellFormed_insideNode : insideNode.WellFormed 256 := by decide

/-- The leftover symlink leads out of the cache directory. -/
lemma lookup_link : lookup leftoverFiles true (joinPath (joinPath "/c" helloTmp) "a") =
    some ["etc"] := by decide +kernel

lemma lookup_behind_link :
    lookup leftoverFiles true (joinPath (joinPath (joinPath "/c" helloTmp) "a") "x") =
      some ["etc", "x"] := by decide +kernel

/-- What stands behind it. -/
lemma leftoverFiles_etc :
    leftoverFiles ["etc"] = some .dir ∧ leftoverFiles ["etc", "x"] = none := by
  refine ⟨?_, ?_⟩ <;>
    · rw [leftoverFiles, set_of_ne _ (by simp), createdFiles, set_of_ne _ (by simp)]
      rfl

end

end Niphas
