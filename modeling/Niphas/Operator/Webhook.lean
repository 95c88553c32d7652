import Niphas.Eval.Service
import Niphas.Operator.Provenance

/-!
# Calling the webhook

`call_eval_webhook` (`eval.rs` of the operator) from the request it posts to what it makes of the
response, and the eval service at the other end.  What is between them may lose the request or the
response, break the connection in the middle of a body, or take too long.

The two ends are separate programs that share the types of `eval.rs` of the core and nothing else:
one writes a request and reads a response, the other reads the request and writes the response.
Each is modelled from its own code (`Service` has the other one), and they meet in a post.  `Posted`
says what may come of it: an error where nothing has come back, or the response, with its whole body
or with an error in place of the body.  So it may be that the service has evaluated and the operator
has not heard of it, but a response is never that to another request.

JSON libraries and the web framework are parameters.  What is relied on is in `WebLib.Suits`, for
the request and the response at hand only: they are read as they were written, an empty body is
nothing, and the request is not too large to be taken.

* `callEvalWebhook` — the call.
* `Posted` — what may come of a post.
* `webhook_faithful` — the operator sees what the evaluator has returned for its spec, or a
  transient error, and can tell one error of the evaluator from another.
-/

namespace Niphas

/-! ## The call -/

/-- What comes of sending a request: an error, which may be a timeout, or a response. -/
abbrev Sent := Except (Bool × String) HttpResponse

/-- `Deserialize` for `EvalErrorResponse`: the code and the message. -/
def evalErrorFromJson (j : Json) : Option (String × String) := do
  let fields ← j.members ["error", "message"]
  let error ← Json.required Json.asStr "error" fields
  let message ← Json.required Json.asStr "message" fields
  return (error, message)

/-- The URL of the webhook. -/
def evaluateUrl (evalUrl : String) : String := trimEndSlashes evalUrl ++ "/evaluate"

/-- What `call_eval_webhook` reads of what comes of sending. -/
def WebhookReply.ofSent (lib : JsonLib) : Sent → WebhookReply
  | .error (isTimeout, e) => .sendFailed isTimeout e
  | .ok resp =>
      if resp.isSuccess then .success (resp.text >>= lib.decode EvalResult.fromJson)
      else
        let body := resp.text.toOption.getD ""
        .failure resp.statusText body (lib.decode evalErrorFromJson body).toOption

/-- `call_eval_webhook`, where `send` posts a JSON body to a URL. -/
def callEvalWebhook (lib : JsonLib) (evalUrl : String) (timeoutSecs : ℕ)
    (spec : NiphasWorkloadSpec) (send : String → String → Sent) : Except OperatorError EvalResult :=
  (WebhookReply.ofSent lib
    (send (evaluateUrl evalUrl) (lib.write (EvalRequest.ofSpec spec).toJson))).result timeoutSecs

/-! ## What is between -/

/-- The authority and the path of a URL. -/
def urlTarget (url : String) : Option (String × String) :=
  (Str.splitOnce "://" url).map fun parts =>
    let rest := parts.2.toList
    let authority := rest.takeWhile (· ∉ ['/', '?', '#'])
    let path := (rest.drop authority.length).takeWhile (· ∉ ['?', '#'])
    (String.ofList authority, if path = [] then "/" else String.ofList path)

/-- The post of a JSON body. -/
def jsonPost (path body : String) : HttpRequest :=
  { method := .post, path, contentType := some "application/json", body }

/-- The response with as much of its body as has come. -/
def Response.received (r : Response) (text : Except String String) : HttpResponse where
  status := r.status.code
  statusText := r.status.display
  text := text
  bytes := text.map Bytes.utf8

/-- What may come of a post that is answered so. -/
inductive Posted (response : Option Response) : Sent → Prop
  | delivered {r : Response} : response = some r → Posted response (.ok (r.received (.ok r.body)))
  | cut {r : Response} {e : String} : response = some r →
      Posted response (.ok (r.received (.error e)))
  | lost (isTimeout : Bool) (e : String) : Posted response (.error (isTimeout, e))

/-- `send` reaches the service where it is, while `evs` happens. -/
def Reached (e : Evaluator) (lib : WebLib) (crypto : Crypto) (server : Server) (nix : Nix)
    (now : ℕ) (evs : List ResolveEvent) (authority : String) (send : String → String → Sent) :
    Prop :=
  ∀ url path body e' response, urlTarget url = some (authority, path) →
    e.app lib crypto server nix now (jsonPost path body) evs = some (e', response) →
      Posted response (send url body)

/-- Slashes at the end make no difference. -/
lemma trimEndSlashes_slashes {url : String}
    (h : ∀ hne : url.toList ≠ [], url.toList.getLast hne ≠ '/') (n : ℕ) :
    trimEndSlashes (url ++ String.ofList (List.replicate n '/')) = url := by
  have hself : url.toList.rdropWhile (· = '/') = url.toList :=
    List.rdropWhile_eq_self_iff.mpr fun hne => by simpa using h hne
  have hall : (url.toList ++ List.replicate n '/').rdropWhile (· = '/') = url.toList := by
    induction n with
    | zero => rwa [List.replicate_zero, List.append_nil]
    | succ n ih =>
        rw [List.replicate_succ', ← List.append_assoc, List.rdropWhile_concat_pos _ _ _ rfl]
        exact ih
  rw [trimEndSlashes, String.toList_append, String.toList_ofList, hall, String.ofList_toList]

/-- The path of the webhook, where the configured URL has none, with slashes behind it or not. -/
lemma urlTarget_evaluateUrl {scheme authority : String} (hscheme : ':' ∉ scheme.toList)
    (hne : authority ≠ "") (hplain : ∀ c ∈ authority.toList, c ∉ ['/', '?', '#']) (n : ℕ) :
    urlTarget (evaluateUrl (scheme ++ "://" ++ authority ++ String.ofList (List.replicate n '/'))) =
      some (authority, "/evaluate") := by
  have hlist : authority.toList ≠ [] := fun hnil => hne (String.toList_eq_nil_iff.mp hnil)
  have hlast : ∀ hne : (scheme ++ "://" ++ authority).toList ≠ [],
      (scheme ++ "://" ++ authority).toList.getLast hne ≠ '/' := by
    intro hall heq
    have hmem := List.getLast_mem hlist
    simp only [String.toList_append, List.getLast_append_of_ne_nil _ hlist] at heq
    exact hplain _ hmem (by rw [heq]; decide)
  have hsplit : Str.splitOnce "://" (scheme ++ "://" ++ authority ++ "/evaluate") =
      some (scheme, authority ++ "/evaluate") := by
    rw [String.append_assoc, String.append_assoc]
    exact Str.splitOnce_append rfl hscheme _
  have htake : (authority.toList ++ "/evaluate".toList).takeWhile
      (fun c => decide (c ∉ ['/', '?', '#'])) = authority.toList := by
    rw [List.takeWhile_append_of_pos fun c hc => decide_eq_true (hplain c hc)]
    exact List.append_nil _
  rw [urlTarget, evaluateUrl, trimEndSlashes_slashes hlast, hsplit, Option.map_some,
    String.toList_append]
  simp only [htake, List.drop_left, String.ofList_toList]
  rfl

/-! ## What the operator sees -/

namespace Evaluator

/-- What the operator makes of what the evaluator has returned, if there is a response. -/
def received : AppResult EvalResult → Option (Except OperatorError EvalResult)
  | .ok r => some (.ok r)
  | .error (.err e) => some (.error (.evalFailed e.parts.2.1 e.parts.2.2))
  | .error .panic => none

/-- The operator can tell what has been returned. -/
lemma received_injective {out out' : AppResult EvalResult} {seen : Except OperatorError EvalResult}
    (h : received out = some seen) (h' : received out' = some seen) : out = out' := by
  rcases out with (e | _) | r
  · rcases out' with (e' | _) | r'
    · simp only [received, Option.some.injEq] at h h'
      rw [← h, Except.error.injEq, OperatorError.evalFailed.injEq] at h'
      rw [AppError.parts_injective (Prod.ext h'.1 h'.2)]
    · cases h'
    · cases h.trans h'.symm
  · cases h
  · rcases out' with (e' | _) | r'
    · cases h.trans h'.symm
    · cases h'
    · cases h.trans h'.symm
      rfl

end Evaluator

/-- The body of the response to what the evaluator has returned. -/
def IsBody : AppResult EvalResult → Json → Prop
  | .ok r, j => j = r.toJson
  | .error (.err e), j => j = errorBody e.parts.2.1 e.parts.2.2
  | .error .panic, _ => False

/-- What the JSON library and the web framework are relied on for: the request and the response are
read as they were written, nothing is read from an empty body, and the request is taken for JSON and
is not too large. -/
structure WebLib.Suits (lib : WebLib) (req : EvalRequest) (out : AppResult EvalResult) : Prop where
  request : lib.Reads req.toJson
  response : ∀ j, IsBody out j → lib.Reads j
  nothing : ∃ e, lib.read "" = .error e
  json : lib.jsonType "application/json" = true
  size : (lib.write req.toJson).utf8ByteSize ≤ bodyLimit

lemma extractRequest_jsonPost {lib : WebLib} {req : EvalRequest} {out : AppResult EvalResult}
    (h : lib.Suits req out) (path : String) :
    extractRequest lib (jsonPost path (lib.write req.toJson)) = .ok req := by
  have hdecode : lib.decode EvalRequest.fromJson (jsonPost path (lib.write req.toJson)).body =
      .ok req := JsonLib.decode_write h.request req.fromJson_toJson
  have hjson : (jsonPost path (lib.write req.toJson)).contentType.any lib.jsonType = true := h.json
  have hsize : ¬ bodyLimit < (jsonPost path (lib.write req.toJson)).body.utf8ByteSize :=
    Nat.not_lt.mpr h.size
  rw [extractRequest, if_neg (not_not_intro hjson), if_neg hsize, hdecode]

section

variable {lib : WebLib} {req : EvalRequest} {out : AppResult EvalResult} {timeoutSecs : ℕ}

/-- The response, with its whole body. -/
lemma result_delivered (h : lib.Suits req out) {r : Response}
    (hr : Evaluator.answer lib.toJsonLib out = some r) :
    some ((WebhookReply.ofSent lib.toJsonLib (.ok (r.received (.ok r.body)))).result timeoutSecs) =
      Evaluator.received out := by
  rcases out with (e | _) | result
  · cases hr
    have hdecode : lib.decode evalErrorFromJson (lib.write (errorBody e.parts.2.1 e.parts.2.2)) =
        .ok (e.parts.2.1, e.parts.2.2) := JsonLib.decode_write (h.response _ rfl) rfl
    have hfail : (Response.received (e.intoResponse lib.toJsonLib)
        (.ok (e.intoResponse lib.toJsonLib).body)).isSuccess = false := by
      cases e <;> rfl
    rw [WebhookReply.ofSent, if_neg (Bool.eq_false_iff.mp hfail)]
    change some ((WebhookReply.failure _ _ (lib.decode evalErrorFromJson
      (lib.write (errorBody e.parts.2.1 e.parts.2.2))).toOption).result timeoutSecs) = _
    rw [hdecode]
    rfl
  · cases hr
  · cases hr
    have hdecode : lib.decode EvalResult.fromJson (lib.write result.toJson) = .ok result :=
      JsonLib.decode_write (h.response _ rfl) result.fromJson_toJson
    let r : Response := { status := .ok, body := lib.write result.toJson }
    have hok : (r.received (.ok r.body)).isSuccess = true := rfl
    rw [WebhookReply.ofSent, if_pos hok]
    change some ((WebhookReply.success (lib.decode EvalResult.fromJson
      (lib.write result.toJson))).result timeoutSecs) = _
    rw [hdecode]
    rfl

/-- The response without a whole body. -/
lemma result_cut (h : lib.Suits req out) (r : Response) (e : String) :
    ∃ err, (WebhookReply.ofSent lib.toJsonLib (.ok (r.received (.error e)))).result timeoutSecs =
      .error err ∧ err.isTransient = true := by
  obtain ⟨e', hnothing⟩ := h.nothing
  have hdecode : lib.decode evalErrorFromJson "" = .error e' := by
    rw [JsonLib.decode, hnothing]
    rfl
  rw [WebhookReply.ofSent]
  split
  · exact ⟨_, rfl, rfl⟩
  · change ∃ err, (WebhookReply.failure _ _ (lib.decode evalErrorFromJson "").toOption).result
      timeoutSecs = _ ∧ _
    rw [hdecode]
    exact ⟨_, rfl, rfl⟩

/-- Whatever comes, it is what the evaluator has returned or transient. -/
lemma Posted.seen {sent : Sent} (h : Posted (Evaluator.answer lib.toJsonLib out) sent)
    (hlib : lib.Suits req out) :
    Evaluator.received out =
        some ((WebhookReply.ofSent lib.toJsonLib sent).result timeoutSecs) ∨
      ∃ err, (WebhookReply.ofSent lib.toJsonLib sent).result timeoutSecs = .error err ∧
        err.isTransient = true := by
  cases h with
  | delivered hr => exact .inl (result_delivered hlib hr).symm
  | cut _ => exact .inr (result_cut hlib _ _)
  | lost isTimeout err =>
      cases isTimeout with
      | true => exact .inr ⟨_, rfl, rfl⟩
      | false => exact .inr ⟨_, rfl, rfl⟩

lemma Posted.whole {sent : Sent} (h : Posted (Evaluator.answer lib.toJsonLib out) sent)
    (hlib : lib.Suits req out) {r : Response} (hr : sent = .ok (r.received (.ok r.body))) :
    Evaluator.received out =
      some ((WebhookReply.ofSent lib.toJsonLib sent).result timeoutSecs) := by
  cases h with
  | delivered hanswer => exact (result_delivered hlib hanswer).symm
  | cut _ => cases congrArg HttpResponse.text (Except.ok.inj hr)
  | lost => cases hr

end

section

variable {lib : WebLib} {e e' : Evaluator} {crypto : Crypto} {server : Server} {nix : Nix}
  {now : ℕ} {evs : List ResolveEvent} {out : AppResult EvalResult}

/-- The service hands the request to the evaluator. -/
lemma app_evaluate {req : EvalRequest} (h : lib.Suits req out)
    (heval : e.evaluate crypto server nix now req evs = some (e', out)) :
    e.app lib crypto server nix now (jsonPost "/evaluate" (lib.write req.toJson)) evs =
      some (e', Evaluator.answer lib.toJsonLib out) := by
  have hpath : (jsonPost "/evaluate" (lib.write req.toJson)).path = "/evaluate" := rfl
  have hpost : (jsonPost "/evaluate" (lib.write req.toJson)).method = .post := rfl
  rw [Evaluator.app, if_pos hpath, if_pos hpost, extractRequest_jsonPost h]
  change (e.evaluate crypto server nix now req evs).map _ = _
  rw [heval]
  rfl

/-- **The operator sees what the evaluator has returned** for the spec of the workload, or a
transient error: whatever is lost between them, it takes nothing else for a result, and nothing else
for an error of the evaluation.  It tells one outcome from another, and where the response is
delivered it sees the outcome. -/
theorem webhook_faithful {config : EvaluatorConfig} (hmade : Evaluator.MadeFrom config e)
    {spec : NiphasWorkloadSpec} (hlib : lib.Suits (.ofSpec spec) out)
    (heval : e.evaluate crypto server nix now (.ofSpec spec) evs = some (e', out))
    {scheme authority : String} (hscheme : ':' ∉ scheme.toList) (hne : authority ≠ "")
    (hplain : ∀ c ∈ authority.toList, c ∉ ['/', '?', '#']) (slashes : ℕ)
    {send : String → String → Sent}
    (hsend : Reached e lib crypto server nix now evs authority send) (timeoutSecs : ℕ) :
    let evalUrl := scheme ++ "://" ++ authority ++ String.ofList (List.replicate slashes '/')
    let sent := send (evaluateUrl evalUrl) (lib.write (EvalRequest.ofSpec spec).toJson)
    let seen := callEvalWebhook lib.toJsonLib evalUrl timeoutSecs spec send
    (Evaluator.received out = some seen ∨ ∃ err, seen = .error err ∧ err.isTransient = true) ∧
      (∀ r : Response, sent = .ok (r.received (.ok r.body)) → Evaluator.received out = some seen) ∧
      (∀ out', Evaluator.received out = some seen → Evaluator.received out' = some seen →
        out = out') ∧
      KubeOp.ServedBy (Evaluator.Serves config {⟨nix, server, crypto⟩}) (.evaluate (.ofSpec spec))
        (WebhookReply.ofSent lib.toJsonLib sent) := by
  intro evalUrl sent seen
  have hposted : Posted (Evaluator.answer lib.toJsonLib out) sent :=
    hsend _ _ _ _ _ (urlTarget_evaluateUrl hscheme hne hplain slashes) (app_evaluate hlib heval)
  have hseen := @Posted.seen _ _ _ timeoutSecs _ hposted hlib
  refine ⟨hseen, fun r hr => hposted.whole hlib hr,
    fun out' hout hout' => Evaluator.received_injective hout hout', fun r hr => ?_⟩
  have hok : seen = .ok r := WebhookReply.result_eq_ok.mpr hr
  have hout : out = .ok r := by
    rcases hseen with hseen | ⟨err, herr, -⟩
    · exact Evaluator.received_injective hseen (congrArg some hok.symm)
    · cases herr.symm.trans hok
  exact ⟨_, rfl, e, now, evs, e', hmade, hout ▸ heval⟩

end

/-! ## A request that is answered -/

/-- The request for a workload of an allowed flake. -/
def allowedRequestText : String :=
  "\x7b\"flakeRef\":\"github:NixOS/nixpkgs\",\"attribute\":\"hello\"\x7d"

/-- The response. -/
def allowedResponseText : String :=
  "\x7b\"storePath\":\"" ++ Evaluator.unbuilt.storePath ++
    "\",\"name\":\"hello-2.12\",\"mainProgram\":\"hello\",\"closurePaths\":[\"" ++
    Evaluator.unbuilt.storePath ++ "\",\"" ++ Rollout.glibcPath.toString ++ "\"]\x7d"

/-- Libraries that read and write these two. -/
def allowedLib : WebLib where
  write j := if (j.get "flakeRef").asStr.isSome then allowedRequestText else allowedResponseText
  read text :=
    if text = allowedRequestText then .ok (EvalRequest.ofSpec Rollout.allowedWorkload.spec).toJson
    else if text = allowedResponseText then .ok Rollout.allowedResult.toJson
    else .error "EOF while parsing a value at line 1 column 0"
  typeError _ := "invalid type"
  jsonType type := type = "application/json"
  notJson _ := { status := .unsupportedMediaType, body := "" }
  tooLarge := { status := .payloadTooLarge, body := "" }
  undecodable _ := { status := .unprocessableEntity, body := "" }

lemma read_allowedResponseText :
    allowedLib.read allowedResponseText = .ok Rollout.allowedResult.toJson := by
  have hne : ¬ allowedResponseText = allowedRequestText := by decide
  simp only [allowedLib, if_neg hne, if_true]

lemma suits_allowedLib : allowedLib.Suits (.ofSpec Rollout.allowedWorkload.spec)
    (.ok Rollout.allowedResult) where
  request := rfl
  response := by
    rintro _ rfl
    have hwrite : allowedLib.write Rollout.allowedResult.toJson = allowedResponseText := rfl
    rw [JsonLib.Reads, hwrite]
    exact read_allowedResponseText
  nothing := ⟨_, rfl⟩
  json := rfl
  size := by decide

/-- A network that loses nothing. -/
def directSend (authority : String) (url body : String) : Sent :=
  match urlTarget url with
  | none => .error (false, "builder error")
  | some (host, path) =>
      if host = authority then
        match Evaluator.oneCache.app allowedLib prefixLibraries.toCrypto Rollout.allowedServer
            Evaluator.unbuiltNix 0 (jsonPost path body) Rollout.allowedEvents with
        | some (_, some r) => .ok (r.received (.ok r.body))
        | some (_, none) => .error (false, "connection closed before message completed")
        | none => .error (true, "operation timed out")
      else .error (false, "dns error")

lemma reached_directSend (authority : String) :
    Reached Evaluator.oneCache allowedLib prefixLibraries.toCrypto Rollout.allowedServer
      Evaluator.unbuiltNix 0 Rollout.allowedEvents authority (directSend authority) := by
  intro url path body e' response htarget happ
  rw [directSend, htarget]
  simp only [if_true, happ]
  cases response with
  | some r => exact .delivered rfl
  | none => exact .lost _ _

/-- The operator gets the result. -/
theorem webhook_faithful_allowed :
    callEvalWebhook allowedLib.toJsonLib ("http" ++ "://" ++ "niphas-eval.niphas-system.svc:8443" ++
        String.ofList (List.replicate 1 '/')) 300 Rollout.allowedWorkload.spec
        (directSend "niphas-eval.niphas-system.svc:8443") = .ok Rollout.allowedResult := by
  obtain ⟨e, heval⟩ := Rollout.evaluate_allowed
  have hscheme : ':' ∉ "http".toList := by decide
  have hne : "niphas-eval.niphas-system.svc:8443" ≠ "" := by decide
  have hplain : ∀ c ∈ "niphas-eval.niphas-system.svc:8443".toList, c ∉ ['/', '?', '#'] := by decide
  obtain ⟨-, hwhole, -⟩ := webhook_faithful Rollout.madeFrom_oneCache suits_allowedLib heval
    hscheme hne hplain 1 (reached_directSend _) 300
  have hbody := hwhole { status := .ok, body := allowedLib.write Rollout.allowedResult.toJson }
  refine (Option.some.inj (hbody ?_)).symm
  rw [directSend, urlTarget_evaluateUrl hscheme hne hplain 1]
  simp only [if_true, app_evaluate suits_allowedLib heval]
  rfl

end Niphas
