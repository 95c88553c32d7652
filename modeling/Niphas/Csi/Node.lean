import Niphas.Csi.Cache
import Niphas.Csi.Mount

/-!
# The node service

`node.rs`: the handlers of `NodePublishVolume` and `NodeUnpublishVolume`, over any cache and any
mount operations.  The two responses are empty messages, so a handler answers with success, with a
status, or not at all (a panic).

`node_publish_volume` is one long function in the source.  Here it is cut behind the checks of the
request, behind the mount check and behind the cache, since the results about it begin at one of
these points: what is mounted is decided by `mountStorePath`, what is fetched by `publishContext`.
The texts of the statuses are those of the source.  Errors that the source only logs are dropped,
and so are the log messages themselves.

The cache is seen through two methods.  `path_for` is the function of `Cache`; `ensure_cached` is an
operation that may fail or panic, and `realNodeService` leaves it so, because the results on the
mounts hold whatever it answers.
-/

namespace Niphas

/-! ## Requests and replies -/

/-- The gRPC status codes the service uses. -/
inductive Code where
  | invalidArgument
  | unavailable
  | internal
  | unimplemented
  deriving DecidableEq, Repr

/-- What a handler answers. -/
inductive Reply where
  | ok
  | status (code : Code) (message : String)
  | panic
  deriving DecidableEq, Repr

/-- The fields of `NodePublishVolumeRequest` the handler reads.  The context is a map: each key
occurs once. -/
structure NodePublishVolumeRequest where
  volumeId : String
  targetPath : String
  volumeContext : List (String × String)
  deriving DecidableEq

/-- `NodeUnpublishVolumeRequest`. -/
structure NodeUnpublishVolumeRequest where
  volumeId : String
  targetPath : String
  deriving DecidableEq

/-! ## The handlers -/

/-- `NodeService`, over any interface: the cache as far as the handlers use it, and the mount
operations. -/
structure NodeService (I : Interface) where
  cacheDir : String
  ensureCached : List String → Option String → Prog I (Except (Option String) Unit)
  mount : MountOps I

/-- How `node_publish_volume` reads `closurePaths`. -/
def splitClosurePaths (raw : String) : List String :=
  ((Str.split ',' raw).map Str.trim).filter (· ≠ "")

namespace NodeService

variable {I : Interface} (svc : NodeService I)

/-- The part of `node_publish_volume` behind the cache: the target directory and the mount. -/
def mountStorePath (storePath target : String) : Prog I Reply := do
  match ← svc.mount.setupTargetDir target with
  | .error e => return .status .internal ("failed to create target dir: " ++ e)
  | .ok () =>
      match ← svc.mount.bindMountReadonly (pathFor svc.cacheDir storePath) target with
      | .error e =>
          let _ ← svc.mount.cleanupTarget target
          return .status .internal ("bind mount failed: " ++ e)
      | .ok () => return .ok

/-- The part of `node_publish_volume` behind the argument checks. -/
def fetchAndMount (storePath : String) (closurePaths : List String)
    (binaryCacheUrl : Option String) (target : String) : Prog I Reply := do
  match ← svc.ensureCached closurePaths binaryCacheUrl with
  | .error none => return .panic
  | .error (some e) => return .status .unavailable ("failed to fetch closure: " ++ e)
  | .ok () => svc.mountStorePath storePath target

/-- The part of `node_publish_volume` behind the mount check: the volume context. -/
def publishContext (ctx : List (String × String)) (target : String) : Prog I Reply :=
  match ctx.lookup "storePath" with
  | none => return .status .invalidArgument "volumeAttributes.storePath is required"
  | some storePath =>
      match ctx.lookup "closurePaths" with
      | none => return .status .invalidArgument "volumeAttributes.closurePaths is required"
      | some closurePathsRaw =>
          if splitClosurePaths closurePathsRaw = [] then
            return .status .invalidArgument "closurePaths must contain at least one path"
          else
            svc.fetchAndMount storePath (splitClosurePaths closurePathsRaw)
              (ctx.lookup "binaryCacheUrl") target

/-- `node_publish_volume`. -/
def nodePublishVolume (req : NodePublishVolumeRequest) : Prog I Reply :=
  if req.volumeId = "" then return .status .invalidArgument "volume_id is required"
  else if req.targetPath = "" then return .status .invalidArgument "target_path is required"
  else do
    if ← svc.mount.isMountpoint req.targetPath then return .ok
    else svc.publishContext req.volumeContext req.targetPath

/-- The part of `node_unpublish_volume` behind the mount check. -/
def unmountTarget (target : String) : Prog I Reply := do
  match ← svc.mount.unmount target with
  | .error e => return .status .internal ("unmount failed: " ++ e)
  | .ok () =>
      let _ ← svc.mount.cleanupTarget target
      return .ok

/-- `node_unpublish_volume`. -/
def nodeUnpublishVolume (req : NodeUnpublishVolumeRequest) : Prog I Reply :=
  if req.volumeId = "" then return .status .invalidArgument "volume_id is required"
  else if req.targetPath = "" then return .status .invalidArgument "target_path is required"
  else do
    if ← svc.mount.isMountpoint req.targetPath then svc.unmountTarget req.targetPath
    else
      let _ ← svc.mount.cleanupTarget req.targetPath
      return .ok

end NodeService

/-! ## The service over abstract operations -/

/-- The operations of the service as the handlers see them: the methods of `MountOps` and of the
cache. -/
inductive NodeOp where
  | isMountpoint (path : String)
  | setupTargetDir (path : String)
  | bindMountReadonly (source target : String)
  | unmount (target : String)
  | cleanupTarget (target : String)
  | ensureCached (closurePaths : List String)
  deriving DecidableEq

/-- The interface of the service. -/
abbrev nodeInterface : Interface where
  Op := NodeOp
  Answer
    | .isMountpoint _ => Bool
    | .setupTargetDir _ => Except String Unit
    | .bindMountReadonly _ _ => Except String Unit
    | .unmount _ => Except String Unit
    | .cleanupTarget _ => Except String Unit
    | .ensureCached _ => Except (Option String) Unit

/-- One method call and its answer. -/
def nodeOp (o : NodeOp) : Prog nodeInterface (nodeInterface.Answer o) :=
  Prog.op (I := nodeInterface) o

/-- The service over its own operations.  `ensure_cached` ignores the URL it is given. -/
def nodeService (cacheDir : String) : NodeService nodeInterface where
  cacheDir
  ensureCached closurePaths _ := nodeOp (.ensureCached closurePaths)
  mount :=
    { isMountpoint := fun path => nodeOp (.isMountpoint path)
      setupTargetDir := fun path => nodeOp (.setupTargetDir path)
      bindMountReadonly := fun source target => nodeOp (.bindMountReadonly source target)
      unmount := fun target => nodeOp (.unmount target)
      cleanupTarget := fun target => nodeOp (.cleanupTarget target) }

/-- The service over system calls. -/
def realNodeService (cacheDir : String) : NodeService sysInterface where
  cacheDir
  ensureCached closurePaths _ := sysOp (.ensureCached closurePaths)
  mount := realMountOps

end Niphas
