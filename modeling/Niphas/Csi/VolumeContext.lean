import Niphas.Csi.Node
import Niphas.Operator.Resources

/-!
# From the Deployment to the volume context

The operator writes the attributes of the CSI volume into the Deployment; the kubelet hands them to
the driver as the volume context of the publish request.  The two sides share no type, only the keys
of a map: the driver asks for `storePath`, which the operator does not write.

Each side can be checked on its own, and each is consistent.  What is shown here is about both: the
request is made from a rendered Deployment, as the kubelet makes it, and handed to the handler of
the driver.  The kubelet is the only thing in between, and all that is used of it is that it copies
the attributes of the driver's volume into the context (`kubeletRequest`).  Whatever else it puts in
does not matter, as long as it is not the key that is missing.

The result is about every workload, every result of an evaluation, and every volume and target: no
execution of the handler accepts such a request.  Where the target is mounted already the handler
returns OK without looking at the context, so "accepted" is more than a reply.

* `volumeAttributes_buildDeployment` — what the operator writes.
* `exec_publish_missing_storePath` — what the driver makes of a context without `storePath`.
* `not_publishAccepted` — so no request for a rendered Deployment is ever accepted.
-/

namespace Niphas

/-! ## The attributes -/

/-- The name of the driver. -/
def driverName : String := "niphas.io.csi"

/-- The volumes of a Deployment's pods. -/
def podVolumes (deployment : Json) : List Json :=
  ((((deployment.get "spec").get "template").get "spec").get "volumes").items

/-- The `volumeAttributes` of the first volume of the driver, as the kubelet copies them into the
volume context. -/
def volumeContextOf (deployment : Json) : List (String × String) :=
  match (podVolumes deployment).find?
      fun v => ((v.get "csi").get "driver").asStr = some driverName with
  | some v => ((v.get "csi").get "volumeAttributes").strFields
  | none => []

/-- The request the kubelet makes of a Deployment. -/
def kubeletRequest (deployment : Json) (volumeId targetPath : String) : NodePublishVolumeRequest :=
  { volumeId, targetPath, volumeContext := volumeContextOf deployment }

lemma podVolumes_buildDeployment (workload : NiphasWorkload) (evalResult : EvalResult)
    (name ns : String) :
    podVolumes (buildDeployment workload evalResult name ns)
      = (buildVolumes workload.spec evalResult).items := by
  have hspec :
      (((buildDeployment workload evalResult name ns).get "spec").get "template").get "spec"
      = buildPodSpec workload.spec evalResult name := rfl
  rw [podVolumes, hspec, buildPodSpec, Json.get_insertSome_of_ne (by decide),
    Json.get_insertSome_of_ne (by decide)]
  rfl

/-- **What the operator writes**: the closure, and nothing else. -/
lemma volumeContextOf_buildDeployment (workload : NiphasWorkload) (evalResult : EvalResult)
    (name ns : String) :
    volumeContextOf (buildDeployment workload evalResult name ns)
      = [("closurePaths", String.intercalate "," evalResult.closurePaths)] := by
  rw [volumeContextOf, podVolumes_buildDeployment]
  rfl

/-! ## The handler -/

/-- What one execution of the handler has done: it was not turned away for an argument, it went on
to the cache unless the target was mounted already, and what it mounted is `storePath`. -/
def PublishAccepted (cacheDir storePath : String) (req : NodePublishVolumeRequest) : Prop :=
  ∀ log reply, ((nodeService cacheDir).nodePublishVolume req).Exec log reply →
    (∀ message, reply ≠ .status .invalidArgument message) ∧
      (⟨.isMountpoint req.targetPath, true⟩ ∈ log ∨
        ∃ closurePaths answer, ⟨.ensureCached closurePaths, answer⟩ ∈ log) ∧
      ∀ source target answer, ⟨.bindMountReadonly source target, answer⟩ ∈ log →
        source = pathFor cacheDir storePath

/-- **What the driver makes of it**: a target that is not mounted yet is turned away. -/
lemma exec_publish_missing_storePath (cacheDir : String) {req : NodePublishVolumeRequest}
    (hid : req.volumeId ≠ "") (htarget : req.targetPath ≠ "")
    (hctx : req.volumeContext.lookup "storePath" = none) :
    ((nodeService cacheDir).nodePublishVolume req).Exec [⟨.isMountpoint req.targetPath, false⟩]
      (.status .invalidArgument "volumeAttributes.storePath is required") := by
  rw [NodeService.nodePublishVolume, if_neg hid, if_neg htarget]
  refine Prog.Exec.bind
    (Prog.exec_op (I := nodeInterface) (o := .isMountpoint req.targetPath) false) ?_
  rw [if_neg Bool.false_ne_true, NodeService.publishContext, hctx]
  exact .pure _

/-- **No request for a rendered Deployment is accepted**, whatever the workload, its evaluation and
the volume. -/
theorem not_publishAccepted (cacheDir : String) (workload : NiphasWorkload)
    (evalResult : EvalResult) (name ns volumeId targetPath : String) :
    ¬ PublishAccepted cacheDir evalResult.storePath
      (kubeletRequest (buildDeployment workload evalResult name ns) volumeId targetPath) := by
  intro h
  by_cases hid : volumeId = ""
  · subst hid
    exact (h [] _ (.pure _)).1 _ rfl
  by_cases htarget : targetPath = ""
  · subst htarget
    have hexec : ((nodeService cacheDir).nodePublishVolume (kubeletRequest
        (buildDeployment workload evalResult name ns) volumeId "")).Exec []
        (.status .invalidArgument "target_path is required") := by
      rw [NodeService.nodePublishVolume, kubeletRequest, if_neg hid, if_pos rfl]
      exact .pure _
    exact (h [] _ hexec).1 _ rfl
  · refine (h _ _ (exec_publish_missing_storePath cacheDir hid htarget ?_)).1 _ rfl
    rw [kubeletRequest, volumeContextOf_buildDeployment]
    rfl

/-- A workload with a closure of one path, as the kubelet publishes it. -/
theorem publish_rendered_hello :
    let evalResult : EvalResult :=
      { storePath := "/nix/store/0c3yg1nz3v4hajf5hx2wm3ib5bagml1d-hello-2.12.1", name := "hello"
        mainProgram := none
        closurePaths := ["/nix/store/0c3yg1nz3v4hajf5hx2wm3ib5bagml1d-hello-2.12.1"] }
    let workload : NiphasWorkload :=
      { metadata := { name := some "hello", «namespace» := some "default" }
        spec := { flakeRef := "github:NixOS/nixpkgs", «attribute» := "hello" } }
    let req := kubeletRequest (buildDeployment workload evalResult "hello" "default") "vol-1"
      "/var/lib/kubelet/pods/p/mount"
    ((nodeService "/var/lib/niphas/cache").nodePublishVolume req).Exec
        [⟨.isMountpoint "/var/lib/kubelet/pods/p/mount", false⟩]
        (.status .invalidArgument "volumeAttributes.storePath is required") ∧
      ¬ PublishAccepted "/var/lib/niphas/cache" evalResult.storePath req := by
  intro evalResult workload req
  have hexec := @exec_publish_missing_storePath "/var/lib/niphas/cache" req (by decide) (by decide)
    rfl
  exact ⟨hexec, fun h => (h _ _ hexec).1 _ rfl⟩

end Niphas
