import Niphas.Lib.Json

/-!
# The `NiphasWorkload` resource

`crd.rs`, with the part of the Kubernetes object metadata the operator reads.  The fields whose
types come from the Kubernetes API (environment variables, probes, volumes and so on) are only ever
copied into manifests; they are the JSON they serialise to.

The status is written by merge patches, and a patch names only the fields it is about.  So
`StatusPatch` has every field of the status as an option, and `StatusPatch.apply` is what the API
server makes of it: the fields named are replaced, lists as a whole, and the others stay.  That is
all of JSON merge patches that the operator uses.

The schema that is generated from these types, and with it the validation of the API server, is not
modelled: a workload may have any values in its fields that its types allow.
-/

namespace Niphas

/-! ## The spec -/

/-- `NiphasServicePort`. -/
structure NiphasServicePort where
  name : Option String
  port : Int
  targetPort : Option String
  protocol : Option String

/-- `NiphasServiceSpec`. -/
structure NiphasServiceSpec where
  type : Option String
  ports : List NiphasServicePort

/-- `NiphasIngressPath`. -/
structure NiphasIngressPath where
  path : String
  pathType : Option String
  port : String

/-- `NiphasIngressHost`. -/
structure NiphasIngressHost where
  host : String
  paths : List NiphasIngressPath

/-- `NiphasIngressTls`. -/
structure NiphasIngressTls where
  secretName : String
  hosts : List String

/-- `NiphasIngressSpec`. -/
structure NiphasIngressSpec where
  enabled : Bool
  className : Option String
  hosts : Option (List NiphasIngressHost)
  tls : Option (List NiphasIngressTls)

/-- `NiphasWorkloadSpec`. -/
structure NiphasWorkloadSpec where
  flakeRef : String
  «attribute» : String
  revision : Option String := none
  replicas : Option Int := none
  binaryCache : Option String := none
  command : Option (List String) := none
  args : Option (List String) := none
  env : Option Json := none
  ports : Option Json := none
  resources : Option Json := none
  livenessProbe : Option Json := none
  readinessProbe : Option Json := none
  startupProbe : Option Json := none
  nodeSelector : Option (List (String × String)) := none
  tolerations : Option (List Json) := none
  affinity : Option Json := none
  service : Option NiphasServiceSpec := none
  ingress : Option NiphasIngressSpec := none
  extraVolumes : Option (List Json) := none
  extraVolumeMounts : Option (List Json) := none
  architectures : Option (List String) := none

/-! ## The status -/

/-- `WorkloadPhase`. -/
inductive WorkloadPhase where
  | pending
  | evaluating
  | provisioning
  | running
  | failed
  deriving DecidableEq, Repr

/-- `ConditionStatus`. -/
inductive ConditionStatus where
  | true
  | false
  | unknown
  deriving DecidableEq, Repr

/-- `NiphasCondition`. -/
structure NiphasCondition where
  type : String
  status : ConditionStatus
  reason : String
  message : String
  lastTransitionTime : String
  observedGeneration : Option Int
  deriving DecidableEq

/-- `NiphasWorkloadStatus`, without the fields the operator never touches (`lastEval`,
`architectures`). -/
structure NiphasWorkloadStatus where
  observedGeneration : Option Int := none
  phase : WorkloadPhase := .pending
  storePath : Option String := none
  resolvedCommand : Option String := none
  closurePaths : Option (List String) := none
  readyReplicas : Option Int := none
  conditions : Option (List NiphasCondition) := none
  deriving DecidableEq

/-- A merge patch of the status: the fields it sets. -/
structure StatusPatch where
  observedGeneration : Option Int := none
  phase : Option WorkloadPhase := none
  storePath : Option String := none
  resolvedCommand : Option String := none
  closurePaths : Option (List String) := none
  readyReplicas : Option Int := none
  conditions : Option (List NiphasCondition) := none

/-- What the API server makes of a merge patch: the fields it sets are replaced, lists as a whole,
and the others stay. -/
def StatusPatch.apply (p : StatusPatch) (s : NiphasWorkloadStatus) : NiphasWorkloadStatus :=
  { observedGeneration := p.observedGeneration <|> s.observedGeneration
    phase := p.phase.getD s.phase
    storePath := p.storePath <|> s.storePath
    resolvedCommand := p.resolvedCommand <|> s.resolvedCommand
    closurePaths := p.closurePaths <|> s.closurePaths
    readyReplicas := p.readyReplicas <|> s.readyReplicas
    conditions := p.conditions <|> s.conditions }

/-! ## The object -/

/-- The fields of `ObjectMeta` the operator reads. -/
structure ObjectMeta where
  name : Option String := none
  generateName : Option String := none
  «namespace» : Option String := none
  uid : Option String := none
  generation : Option Int := none
  finalizers : Option (List String) := none
  deletionTimestamp : Option String := none

/-- `NiphasWorkload`. -/
structure NiphasWorkload where
  metadata : ObjectMeta
  spec : NiphasWorkloadSpec
  status : Option NiphasWorkloadStatus := none

namespace NiphasWorkload

/-- `ResourceExt::name_any`. -/
def nameAny (w : NiphasWorkload) : String :=
  (w.metadata.name <|> w.metadata.generateName).getD ""

/-- `workload.namespace().unwrap_or_default()`. -/
def ns (w : NiphasWorkload) : String := w.metadata.«namespace».getD ""

end NiphasWorkload

end Niphas
