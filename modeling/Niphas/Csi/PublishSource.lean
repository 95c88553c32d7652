import Niphas.Csi.Node

/-!
# What a publish mounts

The handler makes sure that the paths in `closurePaths` are cached, and then binds the path in
`storePath`, which it joins to the cache directory as it is.  Nothing checks the one against the
other.

Here the operations may answer anything, and nothing is assumed about files and mounts.  An
execution is a list of calls with their answers, and the property is about each execution: if the
list has a mount in it, then the source is an entry of the cache directory that the call of the
cache before it was asked for.  `exec_bind_iff` inverts the handler once, from the executions that
come to the mount back to the requests, and it is all that is used of the code.

`joinPath` follows `Path::join`, so an absolute path replaces the cache directory.  That is how a
request comes to mount a directory that has nothing to do with the cache.

* `exec_bind_iff` — the executions of a request that come to the mount.
* `publishConfined_iff` — the source is the cached directory of a closure path just for the requests
  whose `storePath` is such a path.
-/

namespace Niphas

open FileSystem

/-! ## The arguments of a request -/

/-- The request gets past the argument checks, with this store path and these closure paths. -/
structure Accepted (req : NodePublishVolumeRequest) (storePath : String)
    (closurePaths : List String) : Prop where
  volumeId : req.volumeId ≠ ""
  targetPath : req.targetPath ≠ ""
  path : req.volumeContext.lookup "storePath" = some storePath
  closure : (req.volumeContext.lookup "closurePaths").map splitClosurePaths = some closurePaths
  ne_nil : closurePaths ≠ []

/-- `source` is the entry `name` of the cache directory. -/
structure IsChild (cacheDir source name : String) : Prop where
  isAbsolute : isAbsolute source = isAbsolute cacheDir
  components : components source = components cacheDir ++ [name]
  ne_dotdot : name ≠ ".."

/-- In this execution, whatever is mounted is an entry of the cache directory, and one that the
cache has just been asked for, with success. -/
def MountsCached (cacheDir : String) (log : List (Σ o : NodeOp, nodeInterface.Answer o)) : Prop :=
  ∀ source target answer, ⟨.bindMountReadonly source target, answer⟩ ∈ log →
    ∃ closurePaths, ∃ path ∈ closurePaths,
      [⟨.ensureCached closurePaths, .ok ()⟩,
        ⟨.bindMountReadonly source target, answer⟩].Sublist log ∧
        IsChild cacheDir source (stripStoreDir path)

/-- In every execution of the request, what is mounted is cached. -/
def PublishConfined (cacheDir : String) (req : NodePublishVolumeRequest) : Prop :=
  ∀ log reply, ((nodeService cacheDir).nodePublishVolume req).Exec log reply →
    MountsCached cacheDir log

/-- `storePath` is the closure path `path`: the name of an entry, or the path of that entry. -/
def NamesEntry (cacheDir storePath path : String) : Prop :=
  stripStoreDir path ≠ ".." ∧
    (isAbsolute (stripStoreDir storePath) = false ∧
        components (stripStoreDir storePath) = [stripStoreDir path] ∨
      isAbsolute (stripStoreDir storePath) = true ∧ isAbsolute cacheDir = true ∧
        components (stripStoreDir storePath) = components cacheDir ++ [stripStoreDir path])

lemma isAbsolute_append {p : String} (hp : p ≠ "") (n : String) :
    isAbsolute (p ++ n) = isAbsolute p := by
  have hp' : p.toList ≠ [] := mt String.toList_eq_nil_iff.mp hp
  rw [isAbsolute, isAbsolute, String.toList_append, List.head?_append_of_ne_nil _ hp']

lemma isAbsolute_joinPath (p : String) {n : String} (h : isAbsolute n = false) :
    isAbsolute (joinPath p n) = isAbsolute p := by
  by_cases hp : p = ""
  · subst hp
    have hjoin : joinPath "" n = n := by
      rw [joinPath, if_neg (by rw [h]; exact Bool.false_ne_true), if_pos (Or.inl rfl)]
      simp
    rw [hjoin, h]
    rfl
  · rw [joinPath, if_neg (by rw [h]; exact Bool.false_ne_true)]
    split
    · exact isAbsolute_append hp n
    · rw [String.append_assoc]
      exact isAbsolute_append hp _

/-- Where the path of `storePath` is. -/
lemma isChild_pathFor_iff {cacheDir storePath path : String} :
    IsChild cacheDir (pathFor cacheDir storePath) (stripStoreDir path) ↔
      NamesEntry cacheDir storePath path := by
  rw [pathFor]
  cases h : isAbsolute (stripStoreDir storePath) with
  | false =>
      have hcomponents := components_joinPath cacheDir h
      have habsolute := isAbsolute_joinPath cacheDir h
      constructor
      · rintro ⟨-, hsource, hne⟩
        rw [hcomponents] at hsource
        exact ⟨hne, Or.inl ⟨h, List.append_cancel_left hsource⟩⟩
      · rintro ⟨hne, ⟨-, hstore⟩ | ⟨habs, -⟩⟩
        · exact ⟨habsolute, by rw [hcomponents, hstore], hne⟩
        · exact absurd (h.symm.trans habs) Bool.false_ne_true
  | true =>
      have hjoin : joinPath cacheDir (stripStoreDir storePath) = stripStoreDir storePath := if_pos h
      rw [hjoin]
      constructor
      · rintro ⟨habs, hsource, hne⟩
        exact ⟨hne, Or.inr ⟨h, habs.symm.trans h, hsource⟩⟩
      · rintro ⟨hne, ⟨habs, -⟩ | ⟨-, hcache, hstore⟩⟩
        · exact absurd (habs.symm.trans h) Bool.false_ne_true
        · exact ⟨h.trans hcache.symm, hstore, hne⟩

/-! ## The executions -/

/-- The calls up to the mount, and what they answer. -/
def callsUpToMount (cacheDir : String) (req : NodePublishVolumeRequest) (storePath : String)
    (closurePaths : List String) (answer : Except String Unit) :
    List (Σ o : NodeOp, nodeInterface.Answer o) :=
  [⟨.isMountpoint req.targetPath, false⟩, ⟨.ensureCached closurePaths, .ok ()⟩,
    ⟨.setupTargetDir req.targetPath, .ok ()⟩,
    ⟨.bindMountReadonly (pathFor cacheDir storePath) req.targetPath, answer⟩]

/-- The handler behind the argument checks. -/
lemma publishContext_eq (cacheDir : String) {req : NodePublishVolumeRequest} {storePath : String}
    {closurePaths : List String} (h : Accepted req storePath closurePaths) :
    (nodeService cacheDir).publishContext req.volumeContext req.targetPath =
      (nodeService cacheDir).fetchAndMount storePath closurePaths
        (req.volumeContext.lookup "binaryCacheUrl") req.targetPath := by
  obtain ⟨raw, hraw, hsplit⟩ := Option.map_eq_some_iff.mp h.closure
  simp only [NodeService.publishContext, h.path, hraw, hsplit, if_neg h.ne_nil]

/-- An accepted request may come to the mount. -/
lemma exec_accepted (cacheDir : String) {req : NodePublishVolumeRequest} {storePath : String}
    {closurePaths : List String} (h : Accepted req storePath closurePaths) :
    ((nodeService cacheDir).nodePublishVolume req).Exec
      (callsUpToMount cacheDir req storePath closurePaths (.ok ())) .ok := by
  rw [NodeService.nodePublishVolume, if_neg h.volumeId, if_neg h.targetPath]
  refine Prog.Exec.bind
    (Prog.exec_op (I := nodeInterface) (o := .isMountpoint req.targetPath) false) ?_
  rw [if_neg Bool.false_ne_true, publishContext_eq cacheDir h]
  refine Prog.Exec.bind
    (Prog.exec_op (I := nodeInterface) (o := .ensureCached closurePaths) (.ok ())) ?_
  refine Prog.Exec.bind
    (Prog.exec_op (I := nodeInterface) (o := .setupTargetDir req.targetPath) (.ok ())) ?_
  exact Prog.Exec.bind
    (Prog.exec_op (I := nodeInterface)
      (o := .bindMountReadonly (pathFor cacheDir storePath) req.targetPath) (.ok ())) (.pure _)

/-- An execution that returns calls nothing. -/
lemma not_mem_of_exec_pure {r reply : Reply} {log : List (Σ o : NodeOp, nodeInterface.Answer o)}
    (h : (Prog.pure r : Prog nodeInterface Reply).Exec log reply)
    (call : Σ o : NodeOp, nodeInterface.Answer o) : call ∉ log := by
  obtain ⟨rfl, -⟩ := Prog.exec_pure_iff.mp h
  exact List.not_mem_nil

/-- An execution that calls an operation has an answer to it. -/
lemma exec_nodeOp {o : NodeOp} {f : nodeInterface.Answer o → Prog nodeInterface Reply}
    {log : List (Σ o : NodeOp, nodeInterface.Answer o)} {reply : Reply}
    (h : (nodeOp o >>= f).Exec log reply) :
    ∃ r log', log = ⟨o, r⟩ :: log' ∧ (f r).Exec log' reply := Prog.exec_call_iff.mp h

/-- The mount of an execution behind the cache. -/
lemma exec_mountStorePath {cacheDir storePath target : String}
    {log : List (Σ o : NodeOp, nodeInterface.Answer o)} {reply : Reply}
    (h : ((nodeService cacheDir).mountStorePath storePath target).Exec log reply)
    {source target' : String} {answer : Except String Unit}
    (hmem : ⟨.bindMountReadonly source target', answer⟩ ∈ log) :
    source = pathFor cacheDir storePath := by
  obtain ⟨created, log₁, rfl, h₁⟩ := exec_nodeOp h
  rcases List.mem_cons.mp hmem with heq | hmem₁
  · cases heq
  cases created with
  | error e => exact absurd hmem₁ (not_mem_of_exec_pure h₁ _)
  | ok u =>
      obtain ⟨mounted, log₂, rfl, h₂⟩ := exec_nodeOp h₁
      rcases List.mem_cons.mp hmem₁ with heq | hmem₂
      · cases heq
        rfl
      cases mounted with
      | error e =>
          obtain ⟨cleaned, log₃, rfl, h₃⟩ := exec_nodeOp h₂
          rcases List.mem_cons.mp hmem₂ with heq | hmem₃
          · cases heq
          · exact absurd hmem₃ (not_mem_of_exec_pure h₃ _)
      | ok u => exact absurd hmem₂ (not_mem_of_exec_pure h₂ _)

/-- The mount of an execution behind the argument checks. -/
lemma exec_fetchAndMount {cacheDir storePath target : String} {closurePaths : List String}
    {url : Option String} {log : List (Σ o : NodeOp, nodeInterface.Answer o)} {reply : Reply}
    (h : ((nodeService cacheDir).fetchAndMount storePath closurePaths url target).Exec log reply)
    {source target' : String} {answer : Except String Unit}
    (hmem : ⟨.bindMountReadonly source target', answer⟩ ∈ log) :
    source = pathFor cacheDir storePath ∧
      [⟨.ensureCached closurePaths, .ok ()⟩, ⟨.bindMountReadonly source target', answer⟩].Sublist
        log := by
  obtain ⟨cached, log₁, rfl, h₁⟩ := exec_nodeOp h
  rcases List.mem_cons.mp hmem with heq | hmem₁
  · cases heq
  cases cached with
  | error e =>
      cases e with
      | none => exact absurd hmem₁ (not_mem_of_exec_pure h₁ _)
      | some e => exact absurd hmem₁ (not_mem_of_exec_pure h₁ _)
  | ok u =>
      exact ⟨exec_mountStorePath h₁ hmem₁, (List.singleton_sublist.mpr hmem₁).cons_cons _⟩

/-- An execution with a mount is one of an accepted request. -/
lemma exec_bind {cacheDir : String} {req : NodePublishVolumeRequest}
    {log : List (Σ o : NodeOp, nodeInterface.Answer o)} {reply : Reply}
    (h : ((nodeService cacheDir).nodePublishVolume req).Exec log reply) {source target : String}
    {answer : Except String Unit} (hmem : ⟨.bindMountReadonly source target, answer⟩ ∈ log) :
    ∃ storePath closurePaths, Accepted req storePath closurePaths ∧
      source = pathFor cacheDir storePath ∧
      [⟨.ensureCached closurePaths, .ok ()⟩, ⟨.bindMountReadonly source target, answer⟩].Sublist
        log := by
  rw [NodeService.nodePublishVolume] at h
  split at h
  · exact absurd hmem (not_mem_of_exec_pure h _)
  next hid =>
  split at h
  · exact absurd hmem (not_mem_of_exec_pure h _)
  next htarget =>
  obtain ⟨mounted, log₁, rfl, h₁⟩ := exec_nodeOp h
  rcases List.mem_cons.mp hmem with heq | hmem₁
  · cases heq
  cases mounted with
  | true => exact absurd hmem₁ (not_mem_of_exec_pure h₁ _)
  | false =>
      rw [if_neg Bool.false_ne_true, NodeService.publishContext] at h₁
      split at h₁
      · exact absurd hmem₁ (not_mem_of_exec_pure h₁ _)
      next storePath hpath =>
      split at h₁
      · exact absurd hmem₁ (not_mem_of_exec_pure h₁ _)
      next raw hraw =>
      split at h₁
      · exact absurd hmem₁ (not_mem_of_exec_pure h₁ _)
      next hne =>
      have haccepted : Accepted req storePath (splitClosurePaths raw) :=
        ⟨hid, htarget, hpath, by rw [hraw, Option.map_some], hne⟩
      obtain ⟨hsource, hsub⟩ := exec_fetchAndMount h₁ hmem₁
      exact ⟨storePath, _, haccepted, hsource, hsub.cons _⟩

/-- **What a publish mounts** is a cached path of the closure just for the requests that are turned
away, or whose `storePath` is a path of the closure. -/
theorem publishConfined_iff (cacheDir : String) (req : NodePublishVolumeRequest) :
    PublishConfined cacheDir req ↔ ∀ storePath closurePaths, Accepted req storePath closurePaths →
      ∃ path ∈ closurePaths, NamesEntry cacheDir storePath path := by
  constructor
  · intro h storePath closurePaths haccepted
    obtain ⟨closurePaths', path, hpath, hsub, hchild⟩ :=
      h _ _ (exec_accepted cacheDir haccepted) (pathFor cacheDir storePath) req.targetPath (.ok ())
        (by simp [callsUpToMount])
    have hcached : (⟨.ensureCached closurePaths', .ok ()⟩ : Σ o : NodeOp, nodeInterface.Answer o) ∈
        callsUpToMount cacheDir req storePath closurePaths (.ok ()) :=
      hsub.subset List.mem_cons_self
    have heq : closurePaths' = closurePaths := by
      simpa [callsUpToMount] using hcached
    rw [heq] at hpath
    exact ⟨path, hpath, isChild_pathFor_iff.mp hchild⟩
  · intro h log reply hexec source target answer hmem
    obtain ⟨storePath, closurePaths, haccepted, hsource, hsub⟩ := exec_bind hexec hmem
    obtain ⟨path, hpath, hnames⟩ := h storePath closurePaths haccepted
    exact ⟨closurePaths, path, hpath, hsub, hsource ▸ isChild_pathFor_iff.mpr hnames⟩

/-- A request for one cached path that names another directory of the node as the path to mount. -/
def etcRequest : NodePublishVolumeRequest where
  volumeId := "vol-1"
  targetPath := "/var/lib/kubelet/pods/p/mount"
  volumeContext := [("storePath", "/etc"),
    ("closurePaths", "0c3yg1nz3v4hajf5hx2wm3ib5bagml1d-hello-2.12.1")]

/-- It is accepted, and the directory is mounted. -/
theorem publish_etc :
    (∃ log answer,
      ((nodeService "/var/lib/niphas/cache").nodePublishVolume etcRequest).Exec log .ok ∧
      ⟨.bindMountReadonly "/etc" "/var/lib/kubelet/pods/p/mount", answer⟩ ∈ log) ∧
    ¬ PublishConfined "/var/lib/niphas/cache" etcRequest := by
  have haccepted : Accepted etcRequest "/etc" ["0c3yg1nz3v4hajf5hx2wm3ib5bagml1d-hello-2.12.1"] :=
    ⟨by decide, by decide, rfl, by decide, by decide⟩
  have hexec := exec_accepted "/var/lib/niphas/cache" haccepted
  have hsource : pathFor "/var/lib/niphas/cache" "/etc" = "/etc" := by decide
  have hmem : (⟨.bindMountReadonly "/etc" "/var/lib/kubelet/pods/p/mount", .ok ()⟩ :
      Σ o : NodeOp, nodeInterface.Answer o) ∈ callsUpToMount "/var/lib/niphas/cache" etcRequest
        "/etc" ["0c3yg1nz3v4hajf5hx2wm3ib5bagml1d-hello-2.12.1"] (.ok ()) := by
    rw [callsUpToMount, hsource]
    simp [etcRequest]
  refine ⟨⟨_, _, hexec, hmem⟩, fun h => ?_⟩
  obtain ⟨closurePaths, path, -, -, hchild⟩ := h _ _ hexec _ _ _ hmem
  have hlen := congrArg List.length hchild.components
  rw [List.length_append, List.length_singleton] at hlen
  exact absurd hlen (by decide)

end Niphas
