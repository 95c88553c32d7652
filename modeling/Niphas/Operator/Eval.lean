import Niphas.Nix.StorePath
import Niphas.Operator.Crd

/-!
# Evaluation results

The request and the response of the evaluation webhook (`eval.rs` of the core), the error type of
the operator, and how the operator reads a response off the webhook or back from a status (`eval.rs`
of the operator).

Each type has the fields and the variants of the source, in its order, and the texts of the errors
are those of the source.  `WebhookReply` is what the call of the webhook sees of an HTTP exchange;
how it comes about, from a request to the bytes of a response, is the subject of `Webhook`.  The
reconciler works on the level of this file: it asks for an evaluation, and is answered with a result
or with an `OperatorError`.

`EvalResult.fromStatus` may panic, because the parser of store paths may.  So it returns a `Result`,
and `none` in it where the status has no store path.
-/

namespace Niphas

/-- `EvalRequest`. -/
structure EvalRequest where
  flakeRef : String
  «attribute» : String
  revision : Option String
  binaryCache : Option String
  deriving DecidableEq

/-- `EvalResponse`; the operator calls it `EvalResult`. -/
structure EvalResult where
  storePath : String
  name : String
  mainProgram : Option String
  closurePaths : List String
  deriving DecidableEq

/-- `EvalResponse::resolved_command`. -/
def EvalResult.resolvedCommand (r : EvalResult) : String :=
  match r.mainProgram with
  | some prog => r.storePath ++ "/bin/" ++ prog
  | none => r.storePath ++ "/bin/" ++ r.name

/-! ## Errors -/

/-- `OperatorError`.  Errors of the Kubernetes client are the text they display. -/
inductive OperatorError where
  | kube (e : String)
  | evalWebhook (msg : String)
  | evalTimeout (secs : Nat)
  | evalFailed (code message : String)
  | serialization (e : String)
  deriving DecidableEq, Repr

namespace OperatorError

/-- What an error displays. -/
def toString : OperatorError → String
  | kube e => "kubernetes api error: " ++ e
  | evalWebhook msg => "eval webhook error: " ++ msg
  | evalTimeout secs => "eval timeout after " ++ Nat.repr secs ++ "s"
  | evalFailed code message => "eval failed: " ++ code ++ ": " ++ message
  | serialization e => "serialization error: " ++ e

/-- `is_transient`. -/
def isTransient : OperatorError → Bool
  | kube _ | evalWebhook _ | evalTimeout _ => true
  | _ => false

end OperatorError

/-! ## The webhook -/

/-- What comes of posting a request: no response, one with a success status and a body that is a
result or not, or one with another status and a body that is an error response or not. -/
inductive WebhookReply where
  | sendFailed (isTimeout : Bool) (e : String)
  | success (body : Except String EvalResult)
  | failure (status body : String) (parsed : Option (String × String))

/-- The request `call_eval_webhook` posts for a workload. -/
def EvalRequest.ofSpec (spec : NiphasWorkloadSpec) : EvalRequest :=
  { flakeRef := spec.flakeRef, «attribute» := spec.«attribute», revision := spec.revision,
    binaryCache := spec.binaryCache }

/-- The rest of `call_eval_webhook`: what it makes of the reply. -/
def WebhookReply.result (timeoutSecs : Nat) : WebhookReply → Except OperatorError EvalResult
  | sendFailed isTimeout e =>
      if isTimeout then .error (.evalTimeout timeoutSecs)
      else .error (.evalWebhook ("request failed: " ++ e))
  | success (.ok result) => .ok result
  | success (.error e) => .error (.evalWebhook ("invalid response body: " ++ e))
  | failure _ _ (some (code, message)) => .error (.evalFailed code message)
  | failure status body none => .error (.evalWebhook ("HTTP " ++ status ++ ": " ++ body))

/-- Only a success response with a result gives one. -/
lemma WebhookReply.result_eq_ok {timeoutSecs : Nat} {reply : WebhookReply} {r : EvalResult} :
    reply.result timeoutSecs = .ok r ↔ reply = .success (.ok r) := by
  constructor
  · intro h
    unfold result at h
    split at h
    · split at h <;> cases h
    · cases h
      rfl
    · cases h
    · cases h
    · cases h
  · rintro rfl
    rfl

/-! ## Results read back from a status -/

/-- The last piece of a path: `rsplit('/').next()`. -/
def lastPiece (s : String) : String := (Str.split '/' s).getLast?.getD ""

/-- `EvalResult::from_status`.  The name is read off the store path with the parser, which may
panic; where the parser gives an error the name is `unknown`. -/
def EvalResult.fromStatus (status : NiphasWorkloadStatus) : Result (Option EvalResult) :=
  match status.storePath with
  | none => .ok none
  | some storePath =>
      let withName (name : String) : EvalResult :=
        { storePath, name, mainProgram := status.resolvedCommand.map lastPiece,
          closurePaths := status.closurePaths.getD [] }
      match StorePath.parse storePath with
      | .ok sp => .ok (some (withName sp.name))
      | .error (.err _) => .ok (some (withName "unknown"))
      | .error .panic => .error .panic

/-- What is read back is what the status says. -/
lemma EvalResult.fromStatus_eq_some {status : NiphasWorkloadStatus} {r : EvalResult}
    (h : fromStatus status = .ok (some r)) :
    status.storePath = some r.storePath ∧ r.closurePaths = status.closurePaths.getD [] := by
  unfold fromStatus at h
  split at h
  · cases h
  next storePath hpath =>
  split at h
  · cases h
    exact ⟨hpath, rfl⟩
  · cases h
    exact ⟨hpath, rfl⟩
  · cases h

end Niphas
