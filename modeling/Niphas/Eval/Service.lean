import Niphas.Eval.Evaluate
import Niphas.Lib.Serde

/-!
# The eval service

The service around the evaluator: its routes (`lib.rs`), its handlers (`handlers.rs`), what it makes
of an error (`error.rs`), and the bodies it exchanges with the operator (`eval.rs` of the core).

Bodies are JSON values here, written and read field by field as the derived implementations do: a
field that may be absent is left out when it is, and read as absent when it is null.  The text of a
value is left to a library (`JsonLib`).  The framework extracts the body of a request before the
handler is called, and answers by itself where it cannot: for a content type that is not JSON, a
body that is too large, or one that does not parse.  These answers are modelled as far as the caller
can tell them from those of the service.

An evaluation that panics ends the connection without a response.

* `app` — a request, with the evaluation it leads to.
* `EvalRequest.fromJson_toJson`, `EvalResult.fromJson_toJson` — the bodies are read as they were
  written.
* `AppError.parts_injective` — a response names its error.
-/

namespace Niphas

/-! ## Bodies -/

/-- A field that is left out where it is `None`. -/
def someField (key : String) (value : Option String) : List (String × Json) :=
  (value.map fun s => (key, Json.str s)).toList

/-- `Serialize` for `EvalRequest`. -/
def EvalRequest.toJson (req : EvalRequest) : Json :=
  .obj ([("flakeRef", .str req.flakeRef), ("attribute", .str req.«attribute»)] ++
    someField "revision" req.revision ++ someField "binaryCache" req.binaryCache)

/-- `Deserialize` for `EvalRequest`. -/
def EvalRequest.fromJson (j : Json) : Option EvalRequest := do
  let fields ← j.members ["flakeRef", "attribute", "revision", "binaryCache"]
  let flakeRef ← Json.required Json.asStr "flakeRef" fields
  let «attribute» ← Json.required Json.asStr "attribute" fields
  let revision ← Json.optional Json.asStr "revision" fields
  let binaryCache ← Json.optional Json.asStr "binaryCache" fields
  return { flakeRef, «attribute», revision, binaryCache }

/-- `Serialize` for `EvalResponse`. -/
def EvalResult.toJson (r : EvalResult) : Json :=
  .obj [("storePath", .str r.storePath), ("name", .str r.name),
    ("mainProgram", (r.mainProgram.map Json.str).getD .null),
    ("closurePaths", .strs r.closurePaths)]

/-- `Deserialize` for `EvalResponse`. -/
def EvalResult.fromJson (j : Json) : Option EvalResult := do
  let fields ← j.members ["storePath", "name", "mainProgram", "closurePaths"]
  let storePath ← Json.required Json.asStr "storePath" fields
  let name ← Json.required Json.asStr "name" fields
  let mainProgram ← Json.optional Json.asStr "mainProgram" fields
  let closurePaths ← Json.required Json.asStrs "closurePaths" fields
  return { storePath, name, mainProgram, closurePaths }

lemma EvalRequest.fromJson_toJson (req : EvalRequest) : fromJson req.toJson = some req := by
  obtain ⟨flakeRef, «attribute», revision, binaryCache⟩ := req
  cases revision with
  | none =>
      cases binaryCache with
      | none => rfl
      | some cache => rfl
  | some rev =>
      cases binaryCache with
      | none => rfl
      | some cache => rfl

lemma EvalResult.fromJson_toJson (r : EvalResult) : fromJson r.toJson = some r := by
  obtain ⟨storePath, name, mainProgram, closurePaths⟩ := r
  have hclosure := Json.asStrs_strs closurePaths
  cases mainProgram with
  | none =>
      change (Json.asStrs (.strs closurePaths)).bind _ = _
      rw [hclosure]
      rfl
  | some prog =>
      change (Json.asStrs (.strs closurePaths)).bind _ = _
      rw [hclosure]
      rfl

/-! ## Responses -/

/-- The status codes the service answers with. -/
inductive StatusCode where
  | ok
  | badRequest
  | forbidden
  | notFound
  | methodNotAllowed
  | requestTimeout
  | payloadTooLarge
  | unsupportedMediaType
  | unprocessableEntity
  | internalServerError
  | badGateway
  | serviceUnavailable
  deriving DecidableEq

namespace StatusCode

/-- The number. -/
def code : StatusCode → ℕ
  | ok => 200
  | badRequest => 400
  | forbidden => 403
  | notFound => 404
  | methodNotAllowed => 405
  | requestTimeout => 408
  | payloadTooLarge => 413
  | unsupportedMediaType => 415
  | unprocessableEntity => 422
  | internalServerError => 500
  | badGateway => 502
  | serviceUnavailable => 503

/-- What it displays. -/
def display : StatusCode → String
  | ok => "200 OK"
  | badRequest => "400 Bad Request"
  | forbidden => "403 Forbidden"
  | notFound => "404 Not Found"
  | methodNotAllowed => "405 Method Not Allowed"
  | requestTimeout => "408 Request Timeout"
  | payloadTooLarge => "413 Payload Too Large"
  | unsupportedMediaType => "415 Unsupported Media Type"
  | unprocessableEntity => "422 Unprocessable Entity"
  | internalServerError => "500 Internal Server Error"
  | badGateway => "502 Bad Gateway"
  | serviceUnavailable => "503 Service Unavailable"

end StatusCode

/-- A response of the service. -/
structure Response where
  status : StatusCode
  body : String

/-- The status, the code and the message of an error. -/
def AppError.parts : AppError → StatusCode × String × String
  | .invalidInput msg => (.badRequest, "InvalidInput", msg)
  | .flakeNotAllowed msg => (.forbidden, "FlakeNotAllowed", msg)
  | .evalFailed msg => (.unprocessableEntity, "EvalFailed", msg)
  | .evalTimeout => (.requestTimeout, "EvalTimeout", "Evaluation exceeded timeout")
  | .storePathNotCached msg => (.notFound, "StorePathNotCached", msg)
  | .closureResolutionFailed msg => (.badGateway, "ClosureResolutionFailed", msg)
  | .internal msg => (.internalServerError, "InternalError", msg)

/-- `Serialize` for `ErrorResponse`. -/
def errorBody (error message : String) : Json :=
  .obj [("error", .str error), ("message", .str message)]

/-- `into_response`. -/
def AppError.intoResponse (lib : JsonLib) (e : AppError) : Response :=
  { status := e.parts.1, body := lib.write (errorBody e.parts.2.1 e.parts.2.2) }

/-- No two errors have the same code and message. -/
lemma AppError.parts_injective {e e' : AppError} (h : e.parts.2 = e'.parts.2) : e = e' := by
  cases e <;> cases e' <;> simp_all [parts]

/-! ## Requests -/

/-- The methods the routes tell apart. -/
inductive Method where
  | get
  | head
  | post
  | other
  deriving DecidableEq

/-- A request to the service. -/
structure HttpRequest where
  method : Method
  path : String
  contentType : Option String
  body : String

/-- The web framework: which content types are JSON, and what it answers by itself. -/
structure WebLib extends JsonLib where
  jsonType : String → Bool
  /-- The answer to a request with this content type. -/
  notJson : Option String → Response
  /-- The answer to a body that is too large. -/
  tooLarge : Response
  /-- The answer to a body that is not the JSON of a request. -/
  undecodable : String → Response

/-- The largest body the framework reads. -/
def bodyLimit : ℕ := 2097152

/-- `Json<EvalRequest>` as an argument of a handler. -/
def extractRequest (lib : WebLib) (req : HttpRequest) : Except Response EvalRequest :=
  if ¬ req.contentType.any lib.jsonType then .error (lib.notJson req.contentType)
  else if bodyLimit < req.body.utf8ByteSize then .error lib.tooLarge
  else
    match lib.decode EvalRequest.fromJson req.body with
    | .ok r => .ok r
    | .error _ => .error (lib.undecodable req.body)

namespace Evaluator

/-- What `evaluate` of the handlers answers.  Where it panics the connection ends. -/
def answer (lib : JsonLib) : AppResult EvalResult → Option Response
  | .ok r => some { status := .ok, body := lib.write r.toJson }
  | .error (.err e) => some (e.intoResponse lib)
  | .error .panic => none

/-- `readyz`. -/
def readyz (e : Evaluator) : StatusCode := if e.warm then .ok else .serviceUnavailable

/-- `app`: what the service makes of a request, where `evs` is what happens while a closure is
resolved for it. -/
def app (e : Evaluator) (lib : WebLib) (crypto : Crypto) (server : Server) (nix : Nix) (now : ℕ)
    (req : HttpRequest) (evs : List ResolveEvent) : Option (Evaluator × Option Response) :=
  if req.path = "/evaluate" then
    if req.method = .post then
      match extractRequest lib req with
      | .error response => some (e, some response)
      | .ok r =>
          (e.evaluate crypto server nix now r evs).map fun out =>
            (out.1, answer lib.toJsonLib out.2)
    else some (e, some { status := .methodNotAllowed, body := "" })
  else if req.path = "/healthz" ∨ req.path = "/readyz" then
    if req.method = .get ∨ req.method = .head then
      some (e, some
        { status := if req.path = "/healthz" then .ok else e.readyz, body := "" })
    else some (e, some { status := .methodNotAllowed, body := "" })
  else some (e, some { status := .notFound, body := "" })

end Evaluator

end Niphas
