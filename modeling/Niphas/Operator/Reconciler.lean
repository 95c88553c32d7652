import Niphas.Lib.Interleaving
import Niphas.Operator.Resources

/-!
# The reconciler

`reconciler.rs`, over the operations it calls: those of the Kubernetes API server, and the
evaluation webhook.  `reconcile` is given one version of a workload and works from it to its end;
what it writes are merge patches of the status, which the server applies to the version it has by
then.

A reconcile is a program in the sense of `Prog`, so it can be put into a system with others, or be
taken apart on its own.  Each function of the source is one definition, with its calls in the order
of the source and with `?` where the source has it: `ofKube` ends the reconcile with an error of the
API server, and `setFailed` is called with the texts of the source.  Three things can end it early:
such an error, a panic of the store path parser, and an evaluation that has failed, which is no
error but an action.

`iso_now` reads the clock.  It is an operation here (`KubeOp.now`), so that nothing is assumed about
the times two calls of it return.  Log messages are left out.
-/

namespace Niphas

/-! ## The operations -/

/-- `EventType`. -/
inductive EventType where
  | normal
  | warning
  deriving DecidableEq, Repr

/-- What the reconciler calls. -/
inductive KubeOp where
  | patchStatus (name : String) (patch : StatusPatch)
  | patchFinalizers (name : String) (finalizers : Option (List String))
  | evaluate (req : EvalRequest)
  | apply (child : ChildManifest)
  | getDeployment (name : String)
  | publishEvent (type : EventType) (reason note : String)
  | now

/-- The interface of the reconciler.  A failed call answers with the text its error displays; of a
Deployment that is there, its ready replicas are read.  A failure to publish an event is only
logged. -/
abbrev kubeInterface : Interface where
  Op := KubeOp
  Answer
    | .patchStatus _ _ => Except String Unit
    | .patchFinalizers _ _ => Except String Unit
    | .evaluate _ => WebhookReply
    | .apply _ => Except String Unit
    | .getDeployment _ => Except String (Option (Option Int))
    | .publishEvent _ _ _ => Unit
    | .now => String

/-- How a reconcile can fail to return an action. -/
inductive OperatorFault where
  | err (e : OperatorError)
  | panic
  deriving DecidableEq, Repr

/-- Code of the operator that may return early. -/
abbrev OperatorM (α : Type) := ExceptT OperatorFault (Prog kubeInterface) α

namespace OperatorM

/-- An operation. -/
def op (o : KubeOp) : OperatorM (kubeInterface.Answer o) :=
  ExceptT.lift (Prog.op (I := kubeInterface) o)

/-- A value or an early return. -/
def ofResult {α : Type} (r : Except OperatorFault α) : OperatorM α := ExceptT.mk (Prog.pure r)

/-- `?` on the answer of the API server. -/
def ofKube {α : Type} : Except String α → OperatorM α
  | .ok a => ofResult (.ok a)
  | .error e => ofResult (.error (.err (.kube e)))

end OperatorM

open OperatorM

/-- `Action`. -/
inductive Action where
  | requeue (secs : ℕ)
  | awaitChange
  deriving DecidableEq, Repr

/-! ## Reading a workload -/

/-- `FINALIZER`. -/
def finalizer : String := "niphas.io/workload-cleanup"

namespace NiphasWorkload

/-- `metadata.generation.unwrap_or(0)`. -/
def generation (w : NiphasWorkload) : Int := w.metadata.generation.getD 0

/-- The generation of the last status, or zero. -/
def observed (w : NiphasWorkload) : Int := (w.status.bind (·.observedGeneration)).getD 0

/-- Whether the workload has the operator's finalizer. -/
def hasFinalizer (w : NiphasWorkload) : Bool := finalizer ∈ w.metadata.finalizers.getD []

/-- The number of replicas asked for. -/
def desired (w : NiphasWorkload) : Int := w.spec.replicas.getD 1

end NiphasWorkload

/-- `needs_eval`. -/
def needsEval (workload : NiphasWorkload) (observed generation : Int) : Bool :=
  if observed < generation then true
  else (workload.status.bind (·.storePath)).isNone

/-! ## Writing the status -/

/-- The patch of `set_phase`. -/
def phasePatch (phase : WorkloadPhase) : StatusPatch := { phase := some phase }

/-- `set_phase`. -/
def setPhase (workload : NiphasWorkload) (phase : WorkloadPhase) : OperatorM Unit := do
  ofKube (← op (.patchStatus workload.nameAny (phasePatch phase)))

/-- The patch of `set_failed`. -/
def failedPatch (reason message now : String) (generation : Int) : StatusPatch :=
  { phase := some .failed
    observedGeneration := some generation
    conditions := some [
      { type := "Evaluated", status := .false, reason, message, lastTransitionTime := now
        observedGeneration := some generation }] }

/-- `set_failed`. -/
def setFailed (workload : NiphasWorkload) (reason message : String) (generation : Int) :
    OperatorM Unit := do
  let now ← op .now
  ofKube (← op (.patchStatus workload.nameAny (failedPatch reason message now generation)))

/-- The conditions `update_status` writes. -/
def statusConditions (phase : WorkloadPhase) (evalResult : EvalResult) (ready desired : Int)
    (now : String) (generation : Int) : List NiphasCondition :=
  let condition (type : String) (status : ConditionStatus) (reason message : String) :
      NiphasCondition :=
    { type, status, reason, message, lastTransitionTime := now
      observedGeneration := some generation }
  [condition "Evaluated" .true "EvalSucceeded" ("Resolved " ++ evalResult.storePath),
    condition "Progressing" (if phase = .provisioning then .true else .false)
      (if phase = .running then "NewReplicaSetAvailable" else "ReplicaSetUpdated")
      (Int.repr ready ++ " of " ++ Int.repr desired ++ " replicas ready")] ++
  if phase = .running then
    [condition "Available" .true "ReplicasReady"
      ("All " ++ Int.repr ready ++ " replicas are ready")]
  else []

/-- The patch of `update_status`. -/
def statusPatch (phase : WorkloadPhase) (evalResult : EvalResult) (ready desired : Int)
    (now : String) (generation : Int) : StatusPatch :=
  { phase := some phase
    observedGeneration := some generation
    storePath := some evalResult.storePath
    resolvedCommand := some evalResult.resolvedCommand
    closurePaths := some evalResult.closurePaths
    readyReplicas := some ready
    conditions := some (statusConditions phase evalResult ready desired now generation) }

/-- `update_status`. -/
def updateStatus (workload : NiphasWorkload) (phase : WorkloadPhase) (evalResult : EvalResult)
    (ready generation : Int) : OperatorM Unit := do
  let now ← op .now
  ofKube (← op (.patchStatus workload.nameAny
    (statusPatch phase evalResult ready workload.desired now generation)))

/-! ## Finalizers -/

/-- `add_finalizer`. -/
def addFinalizer (workload : NiphasWorkload) : OperatorM Unit := do
  let finalizers := workload.metadata.finalizers.getD []
  let finalizers := if finalizer ∈ finalizers then finalizers else finalizers ++ [finalizer]
  ofKube (← op (.patchFinalizers workload.nameAny (some finalizers)))

/-- `remove_finalizer`.  An empty list is sent as `null`. -/
def removeFinalizer (workload : NiphasWorkload) : OperatorM Unit := do
  let finalizers := (workload.metadata.finalizers.getD []).filter (· ≠ finalizer)
  ofKube (← op (.patchFinalizers workload.nameAny
    (if finalizers = [] then none else some finalizers)))

/-- `handle_deletion`. -/
def handleDeletion (workload : NiphasWorkload) : OperatorM Action := do
  op (.publishEvent .normal "Deleting" ("Cleaning up workload " ++ workload.nameAny))
  removeFinalizer workload
  return .awaitChange

/-! ## Evaluating -/

/-- The reason and the message of a failed evaluation. -/
def failureReason : OperatorError → String × String
  | .evalTimeout secs => ("EvalTimeout", "Evaluation timed out after " ++ Nat.repr secs ++ "s")
  | .evalFailed code message => (code, message)
  | other => ("EvalFailed", other.toString)

/-- The evaluation of a workload that needs one.  Where it fails, the reconcile ends with the action
returned. -/
def evalFresh (timeoutSecs : ℕ) (workload : NiphasWorkload) :
    OperatorM (Except Action EvalResult) := do
  setPhase workload .evaluating
  op (.publishEvent .normal "EvalStarted" "Starting flake evaluation")
  match (← op (.evaluate (EvalRequest.ofSpec workload.spec))).result timeoutSecs with
  | .ok result =>
      op (.publishEvent .normal "EvalSucceeded" ("Resolved store path: " ++ result.storePath))
      return .ok result
  | .error e =>
      op (.publishEvent .warning (failureReason e).1 (failureReason e).2)
      setFailed workload (failureReason e).1 (failureReason e).2 workload.generation
      return .error (.requeue 30)

/-- The evaluation where the status has no result after all. -/
def evalUncached (timeoutSecs : ℕ) (workload : NiphasWorkload) :
    OperatorM (Except Action EvalResult) := do
  setPhase workload .evaluating
  match (← op (.evaluate (EvalRequest.ofSpec workload.spec))).result timeoutSecs with
  | .ok result => return .ok result
  | .error e =>
      setFailed workload "EvalFailed" e.toString workload.generation
      return .error (.requeue 30)

/-- The result read back from the status. -/
def evalCached (timeoutSecs : ℕ) (workload : NiphasWorkload) :
    OperatorM (Except Action EvalResult) :=
  match EvalResult.fromStatus (workload.status.getD {}) with
  | .ok (some cached) => ofResult (.ok (.ok cached))
  | .ok none => evalUncached timeoutSecs workload
  | .error _ => ofResult (.error .panic)

/-! ## Provisioning -/

/-- `apply_child_resources`: the first failure ends it. -/
def applyChildren : List ChildManifest → Prog kubeInterface (Except String Unit)
  | [] => return .ok ()
  | child :: rest => do
      match ← Prog.op (I := kubeInterface) (.apply child) with
      | .ok () => applyChildren rest
      | .error e => return .error e

/-- `count_ready_replicas`. -/
def countReadyReplicas (workload : NiphasWorkload) : OperatorM Int := do
  match ← ofKube (← op (.getDeployment workload.nameAny)) with
  | some ready => return ready.getD 0
  | none => return 0

/-- The part of `reconcile` behind the child resources. -/
def reportStatus (workload : NiphasWorkload) (evalResult : EvalResult) : OperatorM Action := do
  op (.publishEvent .normal "Provisioned" "Child resources applied")
  let ready ← countReadyReplicas workload
  if workload.desired ≤ ready then
    op (.publishEvent .normal "Available" "All replicas ready")
    updateStatus workload .running evalResult ready workload.generation
    return .requeue 300
  else
    updateStatus workload .provisioning evalResult ready workload.generation
    return .requeue 5

/-- The part of `reconcile` behind the evaluation. -/
def provision (workload : NiphasWorkload) (evalResult : EvalResult) : OperatorM Action := do
  setPhase workload .provisioning
  match ← ExceptT.lift (applyChildren (childManifests workload evalResult)) with
  | .ok () => reportStatus workload evalResult
  | .error e =>
      setFailed workload "ProvisionFailed" (OperatorError.kube e).toString workload.generation
      return .requeue 10

/-! ## `reconcile` -/

/-- `reconcile`. -/
def reconcile (timeoutSecs : ℕ) (workload : NiphasWorkload) : OperatorM Action := do
  if workload.metadata.deletionTimestamp.isSome then handleDeletion workload
  else if ¬ workload.hasFinalizer then
    addFinalizer workload
    return .requeue 0
  else if workload.generation ≤ workload.observed ∧
      workload.status.map (·.phase) = some .running then
    return .requeue 300
  else
    let outcome ←
      if needsEval workload workload.observed workload.generation then
        evalFresh timeoutSecs workload
      else evalCached timeoutSecs workload
    match outcome with
    | .error action => return action
    | .ok evalResult => provision workload evalResult

/-- `error_policy`. -/
def errorPolicy (e : OperatorError) : Action :=
  if e.isTransient then .requeue 10 else .requeue 60

end Niphas
