import Niphas.Operator.Eval

/-!
# Manifests of the child resources

`resources.rs`: the Deployment, Service, Ingress and PodDisruptionBudget the operator renders for a
workload.  Each builder is the `json!` expression of the source.

The source builds a manifest by one large expression and then puts optional parts into it.  Here the
same parts are put together in the same order, with a definition for each, so that a property of a
pod's volumes need not look at its labels.  The keys of an object are in the order of the source,
which matters in one place: in a map that the user may write to, the later entry of a key is the one
that counts (`Json.insert`), and the operator's own label comes first.

What is applied, and in which order, is `childManifests`.  The calls that apply it are part of the
reconciler.
-/

namespace Niphas

open Json

/-- `RUNNER_IMAGE`. -/
def runnerImage : String := "ghcr.io/fullzer4/niphas-runner:latest"

/-- The mount path of the volume with the store paths. -/
def nixStoreMountPath : String := "/nix/store"

/-- `owner_reference`. -/
def ownerReference (workload : NiphasWorkload) : Json :=
  .obj [
    ("apiVersion", .str "niphas.io/v1alpha1"),
    ("kind", .str "NiphasWorkload"),
    ("name", .str workload.nameAny),
    ("uid", .str (workload.metadata.uid.getD "")),
    ("controller", .bool true),
    ("blockOwnerDeletion", .bool true)]

/-- The labels of every child resource. -/
def childLabels (name : String) : Json :=
  .obj [("niphas.io/workload", .str name), ("niphas.io/managed-by", .str "niphas-operator")]

/-- The `metadata` of every child resource. -/
def childMetadata (workload : NiphasWorkload) (name ns : String) : Json :=
  .obj [
    ("name", .str name),
    ("namespace", .str ns),
    ("ownerReferences", .arr [ownerReference workload]),
    ("labels", childLabels name)]

/-- The label a workload's pods are selected by. -/
def workloadSelector (name : String) : Json := .obj [("niphas.io/workload", .str name)]

/-! ## The Deployment -/

/-- The node selector: the operator's label first, then the user's, which may replace it. -/
def buildNodeSelector (spec : NiphasWorkloadSpec) : Json :=
  (spec.nodeSelector.getD []).foldl (fun j kv => j.insert kv.1 (.str kv.2))
    (.obj [("niphas.io/store", .str "true")])

/-- One of the tolerations the operator adds. -/
def failoverToleration (key : String) : Json :=
  .obj [
    ("key", .str key),
    ("operator", .str "Exists"),
    ("effect", .str "NoExecute"),
    ("tolerationSeconds", .num 30)]

/-- The tolerations: the operator's two, then the user's. -/
def buildTolerations (spec : NiphasWorkloadSpec) : Json :=
  .arr ([failoverToleration "node.kubernetes.io/not-ready",
    failoverToleration "node.kubernetes.io/unreachable"] ++ spec.tolerations.getD [])

/-- The command of the container: the user's, or the one resolved by the evaluation. -/
def buildCommand (spec : NiphasWorkloadSpec) (evalResult : EvalResult) : Json :=
  match spec.command with
  | some cmd => strs cmd
  | none => strs [evalResult.resolvedCommand]

/-- The mounts of the container: the store first, then the user's. -/
def buildVolumeMounts (spec : NiphasWorkloadSpec) : Json :=
  .arr ([.obj [
    ("name", .str "nix-store"),
    ("mountPath", .str nixStoreMountPath),
    ("readOnly", .bool true)]] ++ spec.extraVolumeMounts.getD [])

/-- The container.  The optional fields of the spec follow those that are always there. -/
def buildContainer (spec : NiphasWorkloadSpec) (evalResult : EvalResult) : Json :=
  (Json.obj [
    ("name", .str "app"),
    ("image", .str runnerImage),
    ("command", buildCommand spec evalResult),
    ("volumeMounts", buildVolumeMounts spec)])
    |>.insertSome "args" (spec.args.map strs)
    |>.insertSome "env" spec.env
    |>.insertSome "ports" spec.ports
    |>.insertSome "resources" spec.resources
    |>.insertSome "livenessProbe" spec.livenessProbe
    |>.insertSome "readinessProbe" spec.readinessProbe
    |>.insertSome "startupProbe" spec.startupProbe

/-- The `volumeAttributes` of the CSI volume. -/
def buildVolumeAttributes (evalResult : EvalResult) : Json :=
  .obj [("closurePaths", .str (String.intercalate "," evalResult.closurePaths))]

/-- The volumes: the CSI volume first, then the user's. -/
def buildVolumes (spec : NiphasWorkloadSpec) (evalResult : EvalResult) : Json :=
  .arr ([.obj [
    ("name", .str "nix-store"),
    ("csi", .obj [
      ("driver", .str "niphas.io.csi"),
      ("volumeAttributes", buildVolumeAttributes evalResult)])]] ++ spec.extraVolumes.getD [])

/-- One of the topology spread constraints of a workload with several replicas. -/
def topologySpread (topologyKey whenUnsatisfiable name : String) : Json :=
  .obj [
    ("maxSkew", .num 1),
    ("topologyKey", .str topologyKey),
    ("whenUnsatisfiable", .str whenUnsatisfiable),
    ("labelSelector", .obj [("matchLabels", workloadSelector name)])]

/-- The topology spread constraints, for two replicas or more. -/
def buildTopologySpread (replicas : Int) (name : String) : Option Json :=
  if 2 ≤ replicas then
    some (.arr [
      topologySpread "kubernetes.io/hostname" "DoNotSchedule" name,
      topologySpread "topology.kubernetes.io/zone" "ScheduleAnyway" name])
  else none

/-- The pod spec. -/
def buildPodSpec (spec : NiphasWorkloadSpec) (evalResult : EvalResult) (name : String) : Json :=
  (Json.obj [
    ("nodeSelector", buildNodeSelector spec),
    ("tolerations", buildTolerations spec),
    ("containers", .arr [buildContainer spec evalResult]),
    ("volumes", buildVolumes spec evalResult)])
    |>.insertSome "topologySpreadConstraints" (buildTopologySpread (spec.replicas.getD 1) name)
    |>.insertSome "affinity" spec.affinity

/-- `build_deployment`. -/
def buildDeployment (workload : NiphasWorkload) (evalResult : EvalResult) (name ns : String) :
    Json :=
  .obj [
    ("apiVersion", .str "apps/v1"),
    ("kind", .str "Deployment"),
    ("metadata", childMetadata workload name ns),
    ("spec", .obj [
      ("replicas", .num (workload.spec.replicas.getD 1)),
      ("selector", .obj [("matchLabels", workloadSelector name)]),
      ("template", .obj [
        ("metadata", .obj [("labels", childLabels name)]),
        ("spec", buildPodSpec workload.spec evalResult name)])])]

/-- The containers of the pods of a Deployment. -/
def podContainers (deployment : Json) : List Json :=
  ((((deployment.get "spec").get "template").get "spec").get "containers").items

lemma podContainers_buildDeployment (workload : NiphasWorkload) (evalResult : EvalResult)
    (name ns : String) :
    podContainers (buildDeployment workload evalResult name ns)
      = [buildContainer workload.spec evalResult] := by
  have hspec :
      (((buildDeployment workload evalResult name ns).get "spec").get "template").get "spec"
      = buildPodSpec workload.spec evalResult name := rfl
  rw [podContainers, hspec, buildPodSpec, get_insertSome_of_ne (by decide),
    get_insertSome_of_ne (by decide)]
  rfl

/-- The command of the container comes from the spec or from the result. -/
lemma command_buildContainer (spec : NiphasWorkloadSpec) (evalResult : EvalResult) :
    (buildContainer spec evalResult).get "command" = buildCommand spec evalResult := by
  simp only [buildContainer]
  iterate 7 rw [get_insertSome_of_ne (by decide)]
  rfl

/-! ## The other children -/

/-- A port given as text: a number if it is one, and a name otherwise. -/
def portNumberOr (s : String) (number name : Json → Json) : Json :=
  match Str.parseI32 s with
  | some n => number (.num n)
  | none => name (.str s)

/-- One port of the Service. -/
def buildServicePort (p : NiphasServicePort) : Json :=
  (Json.obj [
    ("port", .num p.port),
    ("protocol", .str (p.protocol.getD "TCP"))])
    |>.insertSome "name" (p.name.map .str)
    |>.insertSome "targetPort" (p.targetPort.map fun tp => portNumberOr tp id id)

/-- `build_service`. -/
def buildService (workload : NiphasWorkload) (svcSpec : NiphasServiceSpec) (name ns : String) :
    Json :=
  .obj [
    ("apiVersion", .str "v1"),
    ("kind", .str "Service"),
    ("metadata", childMetadata workload name ns),
    ("spec", .obj [
      ("type", .str (svcSpec.type.getD "ClusterIP")),
      ("selector", workloadSelector name),
      ("ports", .arr (svcSpec.ports.map buildServicePort))])]

/-- One path of a host of the Ingress. -/
def buildIngressPath (name : String) (p : NiphasIngressPath) : Json :=
  .obj [
    ("path", .str p.path),
    ("pathType", .str (p.pathType.getD "Prefix")),
    ("backend", .obj [
      ("service", .obj [
        ("name", .str name),
        ("port", portNumberOr p.port (fun n => .obj [("number", n)])
          (fun s => .obj [("name", s)]))])])]

/-- One host of the Ingress. -/
def buildIngressHost (name : String) (h : NiphasIngressHost) : Json :=
  .obj [
    ("host", .str h.host),
    ("http", .obj [("paths", .arr (h.paths.map (buildIngressPath name)))])]

/-- One TLS entry of the Ingress. -/
def buildIngressTls (t : NiphasIngressTls) : Json :=
  .obj [("hosts", strs t.hosts), ("secretName", .str t.secretName)]

/-- `build_ingress`. -/
def buildIngress (workload : NiphasWorkload) (ingressSpec : NiphasIngressSpec) (name ns : String) :
    Json :=
  .obj [
    ("apiVersion", .str "networking.k8s.io/v1"),
    ("kind", .str "Ingress"),
    ("metadata", childMetadata workload name ns),
    ("spec", (Json.obj [])
      |>.insertSome "ingressClassName" (ingressSpec.className.map .str)
      |>.insertSome "rules" (ingressSpec.hosts.map fun hs => .arr (hs.map (buildIngressHost name)))
      |>.insertSome "tls" (ingressSpec.tls.map fun ts => .arr (ts.map buildIngressTls)))]

/-- The name of the PodDisruptionBudget. -/
def pdbName (name : String) : String := name ++ "-pdb"

/-- `build_pdb`. -/
def buildPdb (workload : NiphasWorkload) (name ns : String) : Json :=
  .obj [
    ("apiVersion", .str "policy/v1"),
    ("kind", .str "PodDisruptionBudget"),
    ("metadata", .obj [
      ("name", .str (pdbName name)),
      ("namespace", .str ns),
      ("ownerReferences", .arr [ownerReference workload]),
      ("labels", childLabels name)]),
    ("spec", .obj [
      ("maxUnavailable", .num 1),
      ("selector", .obj [("matchLabels", workloadSelector name)]),
      ("unhealthyPodEvictionPolicy", .str "AlwaysAllow")])]

/-- The kinds of child resources. -/
inductive ChildKind where
  | deployment
  | service
  | ingress
  | podDisruptionBudget
  deriving DecidableEq, Repr

/-- A manifest to be applied. -/
structure ChildManifest where
  kind : ChildKind
  name : String
  ns : String
  manifest : Json

/-- What `apply_child_resources` applies, in this order: a Service if the spec has one, an Ingress
if the spec has one and enables it, a PodDisruptionBudget for two replicas or more. -/
def childManifests (workload : NiphasWorkload) (evalResult : EvalResult) : List ChildManifest :=
  let name := workload.nameAny
  let ns := workload.ns
  [{ kind := .deployment, name, ns, manifest := buildDeployment workload evalResult name ns }] ++
    (workload.spec.service.map fun s =>
      { kind := .service, name, ns, manifest := buildService workload s name ns }).toList ++
    ((workload.spec.ingress.filter (·.enabled)).map fun i =>
      { kind := .ingress, name, ns, manifest := buildIngress workload i name ns }).toList ++
    if 2 ≤ workload.spec.replicas.getD 1 then
      [{ kind := .podDisruptionBudget, name := pdbName name, ns,
         manifest := buildPdb workload name ns }]
    else []

end Niphas
