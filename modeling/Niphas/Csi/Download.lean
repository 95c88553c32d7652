import Niphas.Csi.Cache
import Niphas.Nix.CacheClient
import Niphas.Nix.NarInfoText

/-!
# Downloads

What `fetch_and_extract` asks of the binary caches before it touches the disk.

The first part of `fetch_and_extract` is a function of what the caches answer: the narinfo, the NAR,
and the check of the file hash.  `download` is this function, and `exec_fetchAndExtract` says that
the program begins with it, error for error.  So what is shown of downloads is shown of the driver,
and no file is mentioned.

The client asks one cache after the other, but it takes the first *success* for an answer, and looks
at its content only then.  A cache that fails is passed over; one that answers with a page that is
no narinfo is not.  This makes the difference between "some cache has the path" and "the path can be
downloaded", which `download_fallback` states as an equivalence, for any caches and whatever they
answer.

* `exec_fetchAndExtract` — `download` is its first part.
* `download_of_consistent` — a cache that has the path is found behind others that fail, if no cache
  sends something else.
* `download_fallback` — in general a download succeeds just when the first success decides well, for
  the narinfo and then for the NAR.
* `download_disturbed` — one cache that sends a page for every URL hides those behind it.
-/

namespace Niphas

/-! ## The download -/

/-- The check of the file hash in `fetch_and_extract`. -/
def checkFileHash (lib : Libraries) (narinfo : NarInfo) (narData : List UInt8) : Result Unit :=
  let fileHash := sha256Hash lib.sha256 narData
  if fileHash ≠ narinfo.fileHash then
    fail (.hashMismatch narinfo.fileHash.toString fileHash.toString)
  else .ok ()

/-- The part of `fetch_and_extract` up to the check of the file hash. -/
def download (lib : Libraries) (client : CacheClient) (hash : String) :
    ExceptT Fault (Prog httpInterface) (NarInfo × List UInt8) := do
  let narinfo ← ExceptT.mk (client.fetchNarinfoByHash lib.toCrypto hash)
  let narData ← ExceptT.mk (client.fetchNar narinfo)
  ExceptT.mk (Prog.pure (checkFileHash lib narinfo narData))
  return (narinfo, narData)

variable {lib : Libraries} {client : CacheClient} {server : Server} {hash : String}

lemma checkFileHash_eq_ok {narinfo : NarInfo} {narData : List UInt8} :
    checkFileHash lib narinfo narData = .ok () ↔
      sha256Hash lib.sha256 narData = narinfo.fileHash := by
  by_cases h : sha256Hash lib.sha256 narData = narinfo.fileHash
  · exact iff_of_true (if_neg (not_not.mpr h)) h
  · refine iff_of_false (fun hok => ?_) h
    rw [checkFileHash, if_pos h] at hok
    cases hok

/-- What a download returns. -/
lemma ask_download :
    (download lib client hash).run.ask server = (do
      let narinfo ← (client.fetchNarinfoByHash lib.toCrypto hash).ask server
      let narData ← (client.fetchNar narinfo).ask server
      checkFileHash lib narinfo narData
      return (narinfo, narData)) := by
  rw [download, Prog.ask_bindExcept]
  refine congrArg _ (funext fun narinfo => ?_)
  rw [Prog.ask_bindExcept]
  refine congrArg _ (funext fun narData => ?_)
  rw [Prog.ask_bindExcept]
  rfl

lemma ask_download_eq_ok {narinfo : NarInfo} {narData : List UInt8} :
    (download lib client hash).run.ask server = .ok (narinfo, narData) ↔
      (client.fetchNarinfoByHash lib.toCrypto hash).ask server = .ok narinfo ∧
        (client.fetchNar narinfo).ask server = .ok narData ∧
          sha256Hash lib.sha256 narData = narinfo.fileHash := by
  rw [ask_download]
  constructor
  · intro h
    cases hinfo : (client.fetchNarinfoByHash lib.toCrypto hash).ask server with
    | error e =>
        rw [hinfo] at h
        cases h
    | ok info =>
    rw [hinfo, Result.ok_bind] at h
    cases hdata : (client.fetchNar info).ask server with
    | error e =>
        rw [hdata] at h
        cases h
    | ok data =>
    rw [hdata, Result.ok_bind] at h
    cases hcheck : checkFileHash lib info data with
    | error e =>
        rw [hcheck] at h
        cases h
    | ok _ =>
        rw [hcheck] at h
        cases h
        exact ⟨rfl, hdata, checkFileHash_eq_ok.mp hcheck⟩
  · rintro ⟨hinfo, hdata, hhash⟩
    rw [hinfo, Result.ok_bind, hdata, Result.ok_bind, checkFileHash_eq_ok.mpr hhash]
    rfl

/-! ## Its place in `fetch_and_extract` -/

/-- The cache client in an execution is `client`, and the caches behind it answer like `server`. -/
structure AnsweredBy (lib : Libraries) (client : CacheClient) (server : Server)
    (log : List (Σ o : CacheOp, cacheInterface.Answer o)) : Prop where
  narinfo : ∀ hash r,
    (⟨.fetchNarinfoByHash hash, r⟩ : Σ o : CacheOp, cacheInterface.Answer o) ∈ log →
    r = (client.fetchNarinfoByHash lib.toCrypto hash).ask server
  nar : ∀ info r, (⟨.fetchNar info, r⟩ : Σ o : CacheOp, cacheInterface.Answer o) ∈ log →
    Result.ofExcept r = (client.fetchNar info).ask server

/-- The two requests. -/
lemma run_fetchAndExtract {cacheDir basename : String} {storePath : StorePath}
    (hparse : StorePath.parseBasename basename = .ok storePath) :
    (fetchAndExtract lib cacheDir basename).run =
      .call (.fetchNarinfoByHash storePath.hashStr) fun
        | .error e => .pure (.error e)
        | .ok narinfo => .call (.fetchNar narinfo) fun
          | .error e => .pure (fail e)
          | .ok narData => (unpackNar lib cacheDir basename narinfo narData).run := by
  rw [fetchAndExtract, hparse]
  refine congrArg (Prog.call _) (funext fun r => ?_)
  cases r with
  | error e => rfl
  | ok narinfo =>
      refine congrArg (Prog.call _) (funext fun r => ?_)
      cases r <;> rfl

/-- What does not match its file hash is not unpacked. -/
lemma run_unpackNar_of_error {cacheDir basename : String} {narinfo : NarInfo} {narData : List UInt8}
    {e : Fault} (h : checkFileHash lib narinfo narData = .error e) :
    (unpackNar lib cacheDir basename narinfo narData).run = .pure (.error e) := by
  have hne : sha256Hash lib.sha256 narData ≠ narinfo.fileHash := fun heq => by
    rw [checkFileHash_eq_ok.mpr heq] at h
    cases h
  rw [checkFileHash, if_pos hne] at h
  rw [unpackNar, if_pos hne, ← h]
  rfl

/-- **`fetch_and_extract` begins with the download**: where that fails, so does it, with the same
error and before anything is written; and where it succeeds, what it returns is unpacked. -/
theorem exec_fetchAndExtract {cacheDir basename : String} {storePath : StorePath}
    (hparse : StorePath.parseBasename basename = .ok storePath)
    {log : List (Σ o : CacheOp, cacheInterface.Answer o)} {r : Result Unit}
    (hanswered : AnsweredBy lib client server log)
    (hexec : (fetchAndExtract lib cacheDir basename).run.Exec log r) :
    match (download lib client storePath.hashStr).run.ask server with
    | .error e => r = .error e ∧ ∀ entry ∈ log, ∀ o, entry.1 ≠ .fs o
    | .ok (narinfo, narData) => ∃ log',
        (unpackNar lib cacheDir basename narinfo narData).run.Exec log' r := by
  rw [run_fetchAndExtract hparse, Prog.exec_call_iff] at hexec
  obtain ⟨r₁, log₁, rfl, hexec⟩ := hexec
  have hinfo := hanswered.narinfo _ _ List.mem_cons_self
  rw [ask_download, ← hinfo]
  cases r₁ with
  | error e =>
      obtain ⟨rfl, rfl⟩ := Prog.exec_pure_iff.mp hexec
      refine ⟨rfl, fun entry hentry o => ?_⟩
      rw [List.mem_singleton.mp hentry]
      exact nofun
  | ok narinfo =>
  rw [Result.ok_bind]
  obtain ⟨r₂, log₂, rfl, hexec'⟩ := Prog.exec_call_iff.mp hexec
  have hnar := hanswered.nar _ _ (List.mem_cons_of_mem _ List.mem_cons_self)
  rw [← hnar]
  have hrequests : ∀ entry ∈ ([⟨.fetchNarinfoByHash storePath.hashStr, .ok narinfo⟩,
      ⟨.fetchNar narinfo, r₂⟩] : List (Σ o : CacheOp, cacheInterface.Answer o)),
      ∀ o, entry.1 ≠ .fs o := by
    intro entry hentry o
    rcases List.mem_cons.mp hentry with rfl | hentry
    · exact nofun
    · rw [List.mem_singleton.mp hentry]
      exact nofun
  cases r₂ with
  | error e =>
      obtain ⟨rfl, rfl⟩ := Prog.exec_pure_iff.mp hexec'
      exact ⟨rfl, hrequests⟩
  | ok narData =>
  cases hcheck : checkFileHash lib narinfo narData with
  | error e =>
      simp only [run_unpackNar_of_error hcheck] at hexec'
      obtain ⟨rfl, rfl⟩ := Prog.exec_pure_iff.mp hexec'
      rw [Result.ofExcept, Result.ok_bind, hcheck]
      exact ⟨rfl, hrequests⟩
  | ok _ =>
      rw [Result.ofExcept, Result.ok_bind, hcheck]
      exact ⟨log₂, hexec'⟩

/-! ## Falling back -/

/-- The cache has the path: a narinfo that parses, and where it says, a NAR that matches both its
hashes. -/
def Available (lib : Libraries) (server : Server) (hash : String) (cache : CacheConfig) : Prop :=
  ∃ resp narinfo resp' narData nar,
    server (cache.urlFor (hash ++ ".narinfo")) = .ok resp ∧ resp.isSuccess = true ∧
      CacheClient.readNarinfo lib.toCrypto resp = .ok narinfo ∧
    server (cache.urlFor narinfo.url) = .ok resp' ∧ resp'.isSuccess = true ∧
      CacheClient.readNar resp' = .ok narData ∧ sha256Hash lib.sha256 narData = narinfo.fileHash ∧
    decompressNar lib narinfo narData = .ok nar ∧ sha256Hash lib.sha256 nar = narinfo.narHash

/-- The first cache that answers the request of the narinfo with a success sends one that parses,
and the first that answers the request of its NAR with a success sends one that matches its file
hash. -/
def Undisturbed (lib : Libraries) (server : Server) (hash : String) (caches : List CacheConfig) :
    Prop :=
  ∃ narinfo,
    FirstSuccess server (hash ++ ".narinfo")
      (fun resp => CacheClient.readNarinfo lib.toCrypto resp = .ok narinfo) caches ∧
    FirstSuccess server narinfo.url (fun resp => ∃ narData, CacheClient.readNar resp = .ok narData ∧
      sha256Hash lib.sha256 narData = narinfo.fileHash) caches

lemma download_succeeds_iff :
    (∃ out, (download lib client hash).run.ask server = .ok out) ↔
      Undisturbed lib server hash client.caches := by
  constructor
  · rintro ⟨⟨narinfo, narData⟩, h⟩
    obtain ⟨hinfo, hnar, hhash⟩ := ask_download_eq_ok.mp h
    obtain ⟨before, c, after, resp, heq, hsilent, hanswer, hsuccess, hread⟩ :=
      ask_tryCaches_eq_ok.mp hnar
    exact ⟨narinfo, ask_tryCaches_eq_ok.mp hinfo, before, c, after, resp, heq, hsilent, hanswer,
      hsuccess, narData, hread, hhash⟩
  · rintro ⟨narinfo, hinfo, before, c, after, resp, heq, hsilent, hanswer, hsuccess, narData, hread,
      hhash⟩
    exact ⟨(narinfo, narData), ask_download_eq_ok.mpr ⟨ask_tryCaches_eq_ok.mpr hinfo,
      ask_tryCaches_eq_ok.mpr ⟨before, c, after, resp, heq, hsilent, hanswer, hsuccess, hread⟩,
      hhash⟩⟩

/-- A path is found wherever it is, as long as no cache sends anything else for a success. -/
theorem download_of_consistent {narinfo : NarInfo} {narData : List UInt8}
    (hinfo : ∀ c ∈ client.caches, ∀ resp, server (c.urlFor (hash ++ ".narinfo")) = .ok resp →
      resp.isSuccess = true → CacheClient.readNarinfo lib.toCrypto resp = .ok narinfo)
    (hnar : ∀ c ∈ client.caches, ∀ resp, server (c.urlFor narinfo.url) = .ok resp →
      resp.isSuccess = true → CacheClient.readNar resp = .ok narData)
    (hhash : sha256Hash lib.sha256 narData = narinfo.fileHash)
    (hsome : ∃ c ∈ client.caches, ¬ Silent server (c.urlFor (hash ++ ".narinfo")) ∧
      ¬ Silent server (c.urlFor narinfo.url)) :
    (download lib client hash).run.ask server = .ok (narinfo, narData) := by
  obtain ⟨c, hc, hsome, hsome'⟩ := hsome
  exact ask_download_eq_ok.mpr
    ⟨ask_tryCaches_eq_ok.mpr (firstSuccess_of_forall hinfo ⟨c, hc, hsome⟩),
      ask_tryCaches_eq_ok.mpr (firstSuccess_of_forall hnar ⟨c, hc, hsome'⟩), hhash⟩

/-! ## A mirror in front of a cache -/

/-- Libraries whose hash is the beginning of what is hashed. -/
def prefixLibraries : Libraries where
  sha256 data := (data ++ List.replicate 32 0).take 32
  base64Decode := NarInfo.zeroLib.base64Decode
  checkKey _ := .ok ()
  verify _ _ _ := false
  decoder _ data := .ok data

/-- The hash of the path. -/
def zerosHash : String := (StorePath.zeroHashed "hello-2.12").hashStr

/-- A success. -/
def found (text : String) (bytes : List UInt8) : HttpResponse :=
  { status := 200, statusText := "200 OK", text := .ok text, bytes := .ok bytes }

/-- The caches as they are configured. -/
def twoCaches : List CacheConfig :=
  [⟨"https://cache.nixos.org", 40⟩, ⟨"https://mirror.example.org/", 10⟩]

/-- The cache has the path; the mirror, which is asked first, answers the request of the narinfo
with `page`. -/
def pageServer (page : Except String HttpResponse) : Server := fun url =>
  if url = "https://mirror.example.org/" ++ zerosHash ++ ".narinfo" then page
  else if url = "https://cache.nixos.org/" ++ zerosHash ++ ".narinfo" then
    .ok (found (NarInfo.zeroInfo [NarInfo.zeroRef]).render [])
  else if url = "https://cache.nixos.org/nar/0.nar.zst" then .ok (found "" [])
  else .error "connection refused"

lemma byPriority_twoCaches :
    byPriority twoCaches = [⟨"https://mirror.example.org/", 10⟩,
      ⟨"https://cache.nixos.org", 40⟩] := by
  simp [byPriority, twoCaches, List.mergeSort, List.MergeSort.Internal.splitInTwo]

section

variable (page : Except String HttpResponse)

lemma pageServer_mirror :
    pageServer page (CacheConfig.urlFor ⟨"https://mirror.example.org/", 10⟩
      (zerosHash ++ ".narinfo")) = page := by
  have hurl : CacheConfig.urlFor ⟨"https://mirror.example.org/", 10⟩ (zerosHash ++ ".narinfo") =
      "https://mirror.example.org/" ++ zerosHash ++ ".narinfo" := by decide +kernel
  rw [hurl, pageServer, if_pos rfl]

lemma pageServer_mirror_nar :
    pageServer page (CacheConfig.urlFor ⟨"https://mirror.example.org/", 10⟩ "nar/0.nar.zst") =
      .error "connection refused" := by
  have hurl : CacheConfig.urlFor ⟨"https://mirror.example.org/", 10⟩ "nar/0.nar.zst" =
      "https://mirror.example.org/nar/0.nar.zst" := by decide +kernel
  rw [hurl, pageServer, if_neg (by decide +kernel), if_neg (by decide +kernel),
    if_neg (by decide +kernel)]

lemma pageServer_cache :
    pageServer page (CacheConfig.urlFor ⟨"https://cache.nixos.org", 40⟩ (zerosHash ++ ".narinfo")) =
      .ok (found (NarInfo.zeroInfo [NarInfo.zeroRef]).render []) := by
  have hurl : CacheConfig.urlFor ⟨"https://cache.nixos.org", 40⟩ (zerosHash ++ ".narinfo") =
      "https://cache.nixos.org/" ++ zerosHash ++ ".narinfo" := by decide +kernel
  rw [hurl, pageServer, if_neg (by decide +kernel), if_pos rfl]

lemma pageServer_cache_nar :
    pageServer page (CacheConfig.urlFor ⟨"https://cache.nixos.org", 40⟩ "nar/0.nar.zst") =
      .ok (found "" []) := by
  have hurl : CacheConfig.urlFor ⟨"https://cache.nixos.org", 40⟩ "nar/0.nar.zst" =
      "https://cache.nixos.org/nar/0.nar.zst" := by decide +kernel
  rw [hurl, pageServer, if_neg (by decide +kernel), if_neg (by decide +kernel), if_pos rfl]

/-- The narinfo is read back. -/
lemma readNarinfo_zeroInfo :
    CacheClient.readNarinfo prefixLibraries.toCrypto
      (found (NarInfo.zeroInfo [NarInfo.zeroRef]).render []) =
        .ok (NarInfo.zeroInfo [NarInfo.zeroRef]) := by
  have hzero := @NarInfo.renderable_zeroInfo [NarInfo.zeroRef] (by decide)
  have hrender : NarInfo.Renderable prefixLibraries.toCrypto
      (NarInfo.zeroInfo [NarInfo.zeroRef]) := { hzero with }
  exact NarInfo.parse_render_of_references hrender (List.cons_ne_nil _ _)

/-- The cache has the path, whatever the mirror sends. -/
lemma available_twoCaches :
    ∃ cache ∈ twoCaches, Available prefixLibraries (pageServer page) zerosHash cache :=
  ⟨_, List.mem_cons_self, _, _, _, [], [], pageServer_cache page, rfl, readNarinfo_zeroInfo,
    pageServer_cache_nar page, rfl, rfl, by decide +kernel, rfl, by decide +kernel⟩

end

/-! ## What decides -/

/-- **Falling back**, for any configured caches: that some cache has the path is enough for a
download just when the first successes are the right ones. -/
theorem download_fallback {built : Except String Unit} {configured : List CacheConfig}
    (hnew : CacheClient.new built configured = .ok client) :
    ((∃ cache ∈ configured, Available lib server hash cache) →
        ∃ out, (download lib client hash).run.ask server = .ok out) ↔
      ((∃ cache ∈ configured, Available lib server hash cache) →
        Undisturbed lib server hash (byPriority configured)) := by
  have hcaches : client.caches = byPriority configured := by
    cases built with
    | error e => cases hnew
    | ok _ =>
        cases hnew
        rfl
  rw [← hcaches]
  exact forall_congr' fun _ => download_succeeds_iff

/-- The mirror does not answer. -/
theorem download_fallback_refused :
    ∃ client, CacheClient.new (.ok ()) twoCaches = .ok client ∧
      ∃ out, (download prefixLibraries client zerosHash).run.ask
        (pageServer (.error "connection refused")) = .ok out := by
  have hnew : CacheClient.new (.ok ()) twoCaches = .ok ⟨byPriority twoCaches⟩ := rfl
  refine ⟨_, hnew, ?_⟩
  have hsilent : Silent (pageServer (.error "connection refused"))
      (CacheConfig.urlFor ⟨"https://mirror.example.org/", 10⟩ (zerosHash ++ ".narinfo")) := by
    intro resp h
    rw [pageServer_mirror] at h
    cases h
  have hsilent' : Silent (pageServer (.error "connection refused"))
      (CacheConfig.urlFor ⟨"https://mirror.example.org/", 10⟩ "nar/0.nar.zst") := by
    intro resp h
    rw [pageServer_mirror_nar] at h
    cases h
  refine (@download_fallback prefixLibraries _ _ zerosHash _ _ hnew).mpr (fun _ => ?_)
    (available_twoCaches _)
  rw [byPriority_twoCaches]
  refine ⟨_, (firstSuccess_cons_of_silent hsilent).mpr
    ((firstSuccess_cons (pageServer_cache _) rfl).mpr readNarinfo_zeroInfo),
    (firstSuccess_cons_of_silent hsilent').mpr
      ((firstSuccess_cons (pageServer_cache_nar _) rfl).mpr ⟨[], rfl, by decide +kernel⟩)⟩

/-- **A page hides the path**: the mirror sends one with a status of 200, and the cache is not
asked. -/
theorem download_disturbed :
    ∃ client, CacheClient.new (.ok ()) twoCaches = .ok client ∧
      (∃ cache ∈ twoCaches, Available prefixLibraries (pageServer (.ok (found "<html></html>" [])))
        zerosHash cache) ∧
      (download prefixLibraries client zerosHash).run.ask
        (pageServer (.ok (found "<html></html>" []))) =
          fail (.narInfoParse "malformed line: '<html></html>'") := by
  refine ⟨_, rfl, available_twoCaches _, ?_⟩
  have hinfo : (CacheClient.fetchNarinfoByHash prefixLibraries.toCrypto ⟨byPriority twoCaches⟩
      zerosHash).ask (pageServer (.ok (found "<html></html>" []))) =
        fail (.narInfoParse "malformed line: '<html></html>'") := by
    rw [CacheClient.fetchNarinfoByHash, byPriority_twoCaches,
      ask_tryCaches_of_success (pageServer_mirror _) rfl]
    rfl
  rw [ask_download, hinfo]
  rfl

end Niphas
