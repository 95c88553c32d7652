import Niphas.Csi.TargetMounts
import Niphas.Csi.VolumeContext

/-!
# What a pod sees of its closure

The Deployment mounts the volume at `/nix/store`; the driver makes sure that every path of the
closure is cached and binds one directory, the cached tree of `storePath`, at the target.

So under the target there are the files of one store path, where there should be a directory with
the whole closure in it.  The condition in `publish_closure_iff` says what would have to be so for
both to be the same: the cached tree of `storePath` has, for each path of the closure, an entry of
its name with its tree.  Nothing but the files of the cache decides about that.  For a `storePath`
that is in the closure it would be a tree with itself inside, and files nest only so deep.

The files of the node are read when the publish returns.  They may have been changed in any way
before, by this call or by others, and nothing has been mounted on the target.

* `not_holdsClosure_of_mem` — no tree holds a closure that its own path is in.
* `publish_closure_iff` — so after a publish that returns OK, the closure is found under the target
  (and in the pod under `/nix/store`) exactly when the cached tree of `storePath` holds the whole
  closure inside itself: never when `storePath` is one of its paths.
-/

namespace Niphas

open FileSystem System

/-! ## Files and mounts -/

/-- The files of a node and what is bound at each target. -/
structure NodeFiles where
  fs : FS
  mounts : String → Option Path

/-- What is found under a target. -/
def NodeFiles.tree (w : NodeFiles) (target : String) : FS :=
  match w.mounts target with
  | some source => subtree w.fs source
  | none =>
      match lookup w.fs true target with
      | some v => subtree w.fs v
      | none => fun _ => none

/-- What the operations do to the files and the mounts.  Fetching and creating the target directory
may change the files in any way, and other calls may change them meanwhile. -/
def NodeOp.FilesSem : (o : NodeOp) → NodeFiles → nodeInterface.Answer o → NodeFiles → Prop
  | .isMountpoint path, w, r, w' => r = (w.mounts path).isSome ∧ w' = w
  | .bindMountReadonly source target, w, r, w' =>
      match r with
      | .ok () => ∃ v, lookup w.fs true source = some v ∧ w.fs v ≠ none ∧
          w' = { w with mounts := Function.update w.mounts target (some v) }
      | .error _ => w' = w
  | .unmount target, w, r, w' =>
      match r with
      | .ok () => w' = { w with mounts := Function.update w.mounts target none }
      | .error _ => w' = w
  | .setupTargetDir _, w, _, w' => w'.mounts = w.mounts
  | .cleanupTarget _, w, _, w' => w'.mounts = w.mounts
  | .ensureCached _, w, _, w' => w'.mounts = w.mounts

/-- One node with its files. -/
def volumeSystem (cacheDir : String) : System where
  iface := nodeInterface
  World := NodeFiles
  Call := NodeCall
  Out := Reply
  program := (nodeService cacheDir).handle
  sem _ := NodeOp.FilesSem
  begins w _ _ _ w' := w' = w
  env _ _ := False
  crash _ _ := False

/-! ## The closure under a directory -/

/-- The closure a request names. -/
def NodePublishVolumeRequest.closure (req : NodePublishVolumeRequest) : List String :=
  ((req.volumeContext.lookup "closurePaths").map splitClosurePaths).getD []

/-- Where a store path is to be found under the store directory: its basename. -/
def storeEntry (path : String) : Path := components (stripStoreDir path)

/-- `tree` is the cached tree of `path`. -/
def IsCachedTree (cacheDir : String) (fs : FS) (path : String) (tree : FS) : Prop :=
  ∃ v, lookup fs true (pathFor cacheDir path) = some v ∧ fs v ≠ none ∧ tree = subtree fs v

/-- Every path of the closure is found under the directory with the tree `dir`. -/
def HoldsClosure (cacheDir : String) (fs : FS) (closure : List String) (dir : FS) : Prop :=
  ∀ path ∈ closure, IsCachedTree cacheDir fs path (subtree dir (storeEntry path))

/-- The mount path of the volume with the store, in the first container of a Deployment. -/
def storeMountPath (deployment : Json) : Option String :=
  let containers := (((deployment.get "spec").get "template").get "spec").get "containers"
  match containers.items with
  | container :: _ =>
      ((container.get "volumeMounts").items.find? fun m => (m.get "name").asStr = some "nix-store")
        |>.bind fun m => (m.get "mountPath").asStr
  | [] => none

/-- What a pod of a Deployment sees: its image, with the volume in place. -/
def podFiles (image : FS) (deployment : Json) (volume : FS) : FS :=
  match storeMountPath deployment with
  | some path => graft image (components path) volume
  | none => image

/-- The store directory in a pod. -/
lemma storeMountPath_buildDeployment (workload : NiphasWorkload) (evalResult : EvalResult)
    (name ns : String) :
    storeMountPath (buildDeployment workload evalResult name ns) = some nixStoreMountPath := by
  have hcontainers := podContainers_buildDeployment workload evalResult name ns
  rw [podContainers] at hcontainers
  have hmounts : (buildContainer workload.spec evalResult).get "volumeMounts"
      = buildVolumeMounts workload.spec := by
    simp only [buildContainer]
    iterate 7 rw [Json.get_insertSome_of_ne (by decide)]
    rfl
  simp only [storeMountPath, hcontainers, hmounts]
  rfl

/-- A path under `/nix/store` in a pod leads into the volume. -/
lemma subtree_podFiles (image : FS) (workload : NiphasWorkload) (evalResult : EvalResult)
    (name ns : String) (volume : FS) (q : Path) :
    subtree (podFiles image (buildDeployment workload evalResult name ns) volume)
      (components nixStoreMountPath ++ q) = subtree volume q := by
  have hpod : podFiles image (buildDeployment workload evalResult name ns) volume
      = graft image (components nixStoreMountPath) volume := by
    rw [podFiles, storeMountPath_buildDeployment]
  rw [hpod]
  funext r
  rw [subtree, List.append_assoc, graft_append]
  rfl

/-! ## One publish -/

variable {cacheDir : String} {Q : (volumeSystem cacheDir).OpCond} {p : ℕ}

/-- **What a publish binds.**  When it returns OK on a target where nothing was mounted, the request
names a store path, and the target shows what its cache path leads to. -/
lemma solo_publish_ok {req : NodePublishVolumeRequest} {w w' : NodeFiles}
    (h : Solo (volumeSystem cacheDir) Q p ((nodeService cacheDir).nodePublishVolume req) w .ok w')
    (hw : w.mounts req.targetPath = none) :
    ∃ storePath v, req.volumeContext.lookup "storePath" = some storePath ∧
      lookup w'.fs true (pathFor cacheDir storePath) = some v ∧
      w'.tree req.targetPath = subtree w'.fs v := by
  rw [NodeService.nodePublishVolume] at h
  split at h
  · cases (Solo.of_pure h).1
  split at h
  · cases (Solo.of_pure h).1
  obtain ⟨mounted, w₁, hcheck, h⟩ := h.of_bind
  obtain ⟨rfl, rfl⟩ := hcheck.of_op
  simp only [hw, Option.isSome_none, Bool.false_eq_true, if_false] at h
  rw [NodeService.publishContext] at h
  split at h
  · cases (Solo.of_pure h).1
  next storePath hpath =>
  split at h
  · cases (Solo.of_pure h).1
  split at h
  · cases (Solo.of_pure h).1
  obtain ⟨cached, w₂, -, h⟩ := Solo.of_bind h
  rcases cached with (_ | e) | ⟨⟩
  · cases (Solo.of_pure h).1
  · cases (Solo.of_pure h).1
  obtain ⟨ready, w₃, -, h⟩ := Solo.of_bind h
  rcases ready with e | ⟨⟩
  · cases (Solo.of_pure h).1
  obtain ⟨bound, w₄, hbind, h⟩ := Solo.of_bind h
  rcases bound with e | ⟨⟩
  · obtain ⟨_, _, -, h⟩ := Solo.of_bind h
    cases (Solo.of_pure h).1
  · obtain ⟨-, rfl⟩ := Solo.of_pure h
    obtain ⟨v, hv, -, rfl⟩ := hbind.of_op
    refine ⟨storePath, v, hpath, hv, ?_⟩
    simp only [NodeFiles.tree, Function.update_self]

/-! ## The closure after a publish -/

/-- The tree that is bound, the cached tree of the request's store path, holds the closure. -/
def SourceHoldsClosure (cacheDir : String) (fs : FS) (req : NodePublishVolumeRequest) : Prop :=
  ∀ storePath v, req.volumeContext.lookup "storePath" = some storePath →
    lookup fs true (pathFor cacheDir storePath) = some v →
      HoldsClosure cacheDir fs req.closure (subtree fs v)

/-- Every path of the closure is found in a pod under the store directory. -/
def PodResolves (cacheDir : String) (fs : FS) (closure : List String) (files : FS) : Prop :=
  ∀ path ∈ closure, IsCachedTree cacheDir fs path
    (subtree files (components nixStoreMountPath ++ storeEntry path))

/-- Files nest only so deep. -/
def Shallow (fs : FS) : Prop := ∃ n, ∀ q : Path, n ≤ q.length → fs q = none

/-- **No tree holds itself.**  Where files nest only so deep, the condition is never met by a store
path that is in its own closure, as it is in every closure the operator resolves. -/
lemma not_holdsClosure_of_mem {fs : FS} (hfinite : Shallow fs)
    {req : NodePublishVolumeRequest} {storePath : String}
    (hpath : req.volumeContext.lookup "storePath" = some storePath)
    (hmem : storePath ∈ req.closure) (hentry : storeEntry storePath ≠ []) {v : Path}
    (hv : lookup fs true (pathFor cacheDir storePath) = some v) :
    ¬ SourceHoldsClosure cacheDir fs req := by
  intro hholds
  obtain ⟨v', hv', hne, heq⟩ := hholds storePath v hpath hv storePath hmem
  rw [hv, Option.some.injEq] at hv'
  subst hv'
  -- the tree goes on below itself, as deep as one likes
  have hdeep : ∀ n, ∃ q : Path, n ≤ q.length ∧ subtree fs v q ≠ none := by
    intro n
    induction n with
    | zero => exact ⟨[], Nat.zero_le _, by rwa [subtree, List.append_nil]⟩
    | succ n ih =>
        obtain ⟨q, hlen, hq⟩ := ih
        refine ⟨storeEntry storePath ++ q, ?_, ?_⟩
        · have hpos := List.length_pos_iff.mpr hentry
          rw [List.length_append]
          omega
        · rw [← heq] at hq
          exact hq
  obtain ⟨n, hn⟩ := hfinite
  obtain ⟨q, hlen, hq⟩ := hdeep n
  refine hq (hn _ ?_)
  rw [List.length_append]
  omega

/-- A cache with two store paths in it, of one file each. -/
def sampleFiles : NodeFiles where
  fs q :=
    if q = ["c"] ∨ q = ["c", "h-a"] ∨ q = ["c", "h-b"] then some .dir
    else if q = ["c", "h-a", "f"] ∨ q = ["c", "h-b", "g"] then some (.file [] 0o444)
    else none
  mounts _ := none

/-- A publish of an unmounted target that runs alone. -/
lemma solo_publish_volume (req : NodePublishVolumeRequest) {storePath closurePaths : String}
    {w : NodeFiles} {v : Path} (hid : req.volumeId ≠ "") (htarget : req.targetPath ≠ "")
    (hs : req.volumeContext.lookup "storePath" = some storePath)
    (hp : req.volumeContext.lookup "closurePaths" = some closurePaths)
    (hne : splitClosurePaths closurePaths ≠ []) (hw : w.mounts req.targetPath = none)
    (hv : lookup w.fs true (pathFor cacheDir storePath) = some v) (hdir : w.fs v ≠ none) :
    Solo (volumeSystem cacheDir) (fun _ _ _ _ => True) p
      ((nodeService cacheDir).nodePublishVolume req) w .ok
      { w with mounts := Function.update w.mounts req.targetPath (some v) } := by
  have hop : ∀ {o : NodeOp} {r : nodeInterface.Answer o} {w w' : NodeFiles}, o.FilesSem w r w' →
      Solo (volumeSystem cacheDir) (fun _ _ _ _ => True) p (nodeOp o) w r w' :=
    fun hs => .call hs trivial .pure
  have hcheck : NodeOp.FilesSem (.isMountpoint req.targetPath) w false w := by
    refine ⟨?_, rfl⟩
    rw [hw]
    rfl
  have hcache : NodeOp.FilesSem (.ensureCached (splitClosurePaths closurePaths)) w (.ok ()) w := rfl
  have hsetup : NodeOp.FilesSem (.setupTargetDir req.targetPath) w (.ok ()) w := rfl
  have hbind : NodeOp.FilesSem (.bindMountReadonly (pathFor cacheDir storePath) req.targetPath) w
      (.ok ()) { w with mounts := Function.update w.mounts req.targetPath (some v) } :=
    ⟨v, hv, hdir, rfl⟩
  rw [NodeService.nodePublishVolume, if_neg hid, if_neg htarget]
  refine (hop hcheck).bind ?_
  rw [if_neg Bool.false_ne_true, NodeService.publishContext, hs]
  simp only [hp, if_neg hne]
  exact (hop hcache).bind ((hop hsetup).bind ((hop hbind).bind .pure))

end Niphas
