import Niphas.Lib.FileSystem
import Niphas.Lib.Interleaving
import Niphas.Nix.Nar
import Niphas.Nix.NarInfo

/-!
# The node-local cache

`cache.rs`: `NarCache` of the CSI driver, which keeps one directory per store path in its cache
directory.  The code is written over the operations it calls: those of the file system, the per-path
mutexes, and the binary cache client.

A guard of a mutex is dropped on every way out of the loop body, also by `?` and by a panic, so
`ensureCached` releases the mutex whatever `ensureLocked` returns.

Each function of the source is one definition.  `fetch_and_extract` is long, so it is cut in three
(`fetchAndExtract`, `unpackNar`, `extractNar`) where something is to be said about what has come so
far; read one after the other, these are the lines of the source.  A result that is discarded there
(`let _ = ..`) is discarded here, and an error that is passed on with `?` is passed on.

Decompression is a parameter, and so is SHA-256: what they return is not computed.  Paths are texts,
joined as `Path::join` does (`joinPath`), and it is left to the file system where they lead.  The
map of the mutexes is not looked at here: a mutex is named by its path, and `LockMap` shows that
this makes no difference.
-/

namespace Niphas

open FileSystem

/-! ## The operations -/

/-- The cryptography and the decompressors of the libraries the driver uses. -/
structure Libraries extends Crypto where
  decoder : Compression → List UInt8 → Except String (List UInt8)

/-- What the cache calls. -/
inductive CacheOp where
  | fs (o : FsOp)
  | lock (basename : String)
  | unlock (basename : String)
  | fetchNarinfoByHash (hash : String)
  | fetchNar (narinfo : NarInfo)
  | processId
  | listen

/-- The interface of the cache.  `fetch_narinfo_by_hash` parses what it gets, so it may panic. -/
abbrev cacheInterface : Interface where
  Op := CacheOp
  Answer
    | .fs o => o.Answer
    | .lock _ => Unit
    | .unlock _ => Unit
    | .fetchNarinfoByHash _ => Result NarInfo
    | .fetchNar _ => Except NiphasError (List UInt8)
    | .processId => ℕ
    | .listen => Except String Unit

/-- One operation and its answer. -/
def cacheOp (o : CacheOp) : Prog cacheInterface (cacheInterface.Answer o) :=
  Prog.op (I := cacheInterface) o

/-- Code of the cache that may return early. -/
abbrev CacheM (α : Type) := ExceptT Fault (Prog cacheInterface) α

namespace CacheM

/-- An operation, in code that may return early. -/
def op (o : CacheOp) : CacheM (cacheInterface.Answer o) := ExceptT.lift (cacheOp o)

/-- A value or an early return. -/
def ofResult {α : Type} (r : Result α) : CacheM α := ExceptT.mk (Prog.pure r)

/-- `?` on the answer of an I/O call. -/
def ofIo (r : Except String Unit) : CacheM Unit :=
  match r with
  | .ok () => ofResult (.ok ())
  | .error e => ofResult (fail (.io e))

/-- `let _ = std::fs::remove_dir_all(path)`. -/
def discardDir (path : String) : CacheM Unit := do
  let _ ← op (.fs (.removeDirAll path))

end CacheM

open CacheM

/-! ## Names -/

/-- `strip_prefix("/nix/store/").unwrap_or(..)`. -/
def stripStoreDir (path : String) : String := (Str.stripPrefix "/nix/store/" path).getD path

/-- `NarCache::path_for`. -/
def pathFor (cacheDir storePath : String) : String := joinPath cacheDir (stripStoreDir storePath)

/-- The mark of a temporary directory. -/
def tmpPrefix : String := ".tmp-"

/-- The name of the temporary directory a path is extracted to. -/
def tmpName (basename : String) (pid : ℕ) : String :=
  tmpPrefix ++ basename ++ "-" ++ Nat.repr pid

/-! ## Fetching and extracting -/

/-- `decompress_nar`. -/
def decompressNar (lib : Libraries) (narinfo : NarInfo) (data : List UInt8) :
    Except NiphasError (List UInt8) :=
  let decode : Except NiphasError (List UInt8) :=
    match lib.decoder narinfo.compression data with
    | .ok output => .ok output
    | .error e => .error (.io e)
  match narinfo.compression with
  | .none => .ok data
  | .zstd => decode
  | .xz => decode
  | .bzip2 => decode
  | other => .error (.cache ("unsupported compression: " ++ other.toString))

/-- The mode of an extracted file. -/
def fileMode (executable : Bool) : ℕ := if executable then 0o555 else 0o444

mutual

/-- `extract_node`. -/
def extractNode : NarNode → String → CacheM Unit
  | .regular executable contents, path => do
      ofIo (← op (.fs (.write path contents)))
      ofIo (← op (.fs (.setPermissions path (fileMode executable))))
  | .symlink target, path => do
      ofIo (← op (.fs (.symlink target path)))
  | .directory entries, path => do
      if ← op (.fs (.exists path)) then extractEntries entries path
      else
        ofIo (← op (.fs (.createDirAll path)))
        extractEntries entries path

/-- The loop of `extract_node` over the entries of a directory. -/
def extractEntries : List NarEntry → String → CacheM Unit
  | [], _ => pure ()
  | ⟨name, node⟩ :: rest, path => do
      extractNode node (joinPath path name)
      extractEntries rest path

end

/-- The part of `fetch_and_extract` behind the creation of the temporary directory. -/
def extractNar (lib : Libraries) (narinfo : NarInfo) (nar : List UInt8)
    (tmpDir finalDir : String) : CacheM Unit := do
  match NarReader.parse lib.sha256 (NarReader.new nar) with
  | .error e =>
      discardDir tmpDir
      ofResult (fail e)
  | .ok (node, narHash) =>
      if narHash ≠ narinfo.narHash then
        discardDir tmpDir
        ofResult (fail (.hashMismatch narinfo.narHash.toString narHash.toString))
      else
        extractNode node tmpDir
        match ← op (.fs (.rename tmpDir finalDir)) with
        | .ok () => ofResult (.ok ())
        | .error e =>
            discardDir tmpDir
            ofResult (fail (.io e))

/-- The part of `fetch_and_extract` behind the download. -/
def unpackNar (lib : Libraries) (cacheDir basename : String) (narinfo : NarInfo)
    (narData : List UInt8) : CacheM Unit := do
  let fileHash := sha256Hash lib.sha256 narData
  if fileHash ≠ narinfo.fileHash then
    ofResult (fail (.hashMismatch narinfo.fileHash.toString fileHash.toString))
  else
    let decompressed ← ofResult (Result.ofExcept (decompressNar lib narinfo narData))
    let pid ← op .processId
    let tmpDir := joinPath cacheDir (tmpName basename pid)
    let finalDir := joinPath cacheDir basename
    ofIo (← op (.fs (.createDirAll tmpDir)))
    extractNar lib narinfo decompressed tmpDir finalDir

/-- `fetch_and_extract`. -/
def fetchAndExtract (lib : Libraries) (cacheDir basename : String) : CacheM Unit := do
  let storePath ← ofResult (StorePath.parseBasename basename)
  let narinfo ← ofResult (← op (.fetchNarinfoByHash storePath.hashStr))
  let narData ← ofResult (Result.ofExcept (← op (.fetchNar narinfo)))
  unpackNar lib cacheDir basename narinfo narData

/-! ## `NarCache` -/

/-- `NarCache::is_cached`. -/
def isCached (cacheDir basename : String) : Prog cacheInterface Bool :=
  cacheOp (.fs (.exists (joinPath cacheDir basename)))

/-- What `ensure_cached` does for one path while it holds the path's mutex. -/
def ensureLocked (lib : Libraries) (cacheDir basename : String) : CacheM Unit := do
  if ← op (.fs (.exists (joinPath cacheDir basename))) then ofResult (.ok ())
  else fetchAndExtract lib cacheDir basename

/-- `NarCache::ensure_cached`. -/
def ensureCached (lib : Libraries) (cacheDir : String) :
    List String → Prog cacheInterface (Result Unit)
  | [] => return .ok ()
  | path :: rest => do
      let basename := stripStoreDir path
      if ← isCached cacheDir basename then ensureCached lib cacheDir rest
      else
        cacheOp (.lock basename)
        let r ← (ensureLocked lib cacheDir basename).run
        cacheOp (.unlock basename)
        match r with
        | .ok () => ensureCached lib cacheDir rest
        | .error e => return .error e

/-- The loop of `NarCache::cleanup_temp_dirs`. -/
def removeTempDirs (cacheDir : String) : List String → Prog cacheInterface Unit
  | [] => return ()
  | name :: rest => do
      if (Str.stripPrefix tmpPrefix name).isSome then
        let _ ← cacheOp (.fs (.removeDirAll (joinPath cacheDir name)))
        removeTempDirs cacheDir rest
      else removeTempDirs cacheDir rest

/-- `NarCache::cleanup_temp_dirs`. -/
def cleanupTempDirs (cacheDir : String) : Prog cacheInterface Unit := do
  match ← cacheOp (.fs (.readDir cacheDir)) with
  | .error _ => return ()
  | .ok names => removeTempDirs cacheDir names

/-- What `main` does before the driver takes calls: `NarCache::new`, `cleanup_temp_dirs`, and the
socket. -/
def startUp (cacheDir : String) : Prog cacheInterface (Result Unit) := do
  match ← cacheOp (.fs (.createDirAll cacheDir)) with
  | .error e => return fail (.io e)
  | .ok () =>
      cleanupTempDirs cacheDir
      match ← cacheOp .listen with
      | .error e => return fail (.io e)
      | .ok () => return .ok ()

end Niphas
