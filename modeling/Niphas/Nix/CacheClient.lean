import Niphas.Lib.Prog
import Niphas.Nix.Closure
import Mathlib.Data.List.DropRight

/-!
# The binary cache client

`cache_client.rs`.  A client asks its caches one after the other, in the order of their priorities.
Its three loops are one, `tryCaches`: the first cache that answers with a success decides what is
returned, whatever it has sent, and an error is that of the last cache.

A client is a program over one operation, a GET request of a URL.  So it can be asked what it
returns when every URL has a fixed answer (`Prog.ask`), and also which URLs it asks for, in which
order (`Prog.asked`).  A response carries what the HTTP library makes of its body, once as a text
and once as bytes; a body that does not arrive, or is no text, is an error there.

The two lookups of a narinfo are instances of the loop here.  In the source they are written
differently, and `NarinfoLookups` shows that the loops as they are written are these.

* `CacheClient.new` — the caches of a client are sorted, and those of one priority stay in order.
* `ask_tryCaches_eq_ok` — the loop succeeds just when the first success can be read.
* `ask_tryCaches_of_silent` — what it returns when no cache has what is asked for.
-/

namespace Niphas

/-! ## Requests -/

/-- A response, and what the HTTP library makes of its body. -/
structure HttpResponse where
  status : ℕ
  /-- The status as it is displayed. -/
  statusText : String
  text : Except String String
  bytes : Except String (List UInt8)

/-- `StatusCode::is_success`. -/
def HttpResponse.isSuccess (resp : HttpResponse) : Bool := 200 ≤ resp.status ∧ resp.status < 300

/-- What a client calls: a GET request of a URL.  It fails when no response comes in time. -/
abbrev httpInterface : Interface where
  Op := String
  Answer _ := Except String HttpResponse

/-- The answer to every request. -/
abbrev Server := String → Except String HttpResponse

/-! ## The client -/

/-- `CacheConfig`, without the public key, which the client does not read. -/
structure CacheConfig where
  url : String
  priority : ℕ

/-- `trim_end_matches('/')`. -/
def trimEndSlashes (url : String) : String := String.ofList (url.toList.rdropWhile (· = '/'))

/-- `format!("{}/{}", cache.url.trim_end_matches('/'), path)`. -/
def CacheConfig.urlFor (cache : CacheConfig) (path : String) : String :=
  trimEndSlashes cache.url ++ "/" ++ path

/-- `CacheClient`. -/
structure CacheClient where
  caches : List CacheConfig

/-- The loop over the caches, where `read` is what is made of a success, and `refused` and `failed`
are the errors for other answers. -/
def tryCaches {α : Type} (path : String) (read : HttpResponse → Result α)
    (refused : String → HttpResponse → NiphasError) (failed : String → NiphasError) :
    List CacheConfig → Option NiphasError → Prog httpInterface (Result α)
  | [], lastErr => return fail (lastErr.getD (.cache "no binary caches configured"))
  | cache :: rest, _ => do
      let url := cache.urlFor path
      match ← Prog.op (I := httpInterface) url with
      | .ok resp =>
          if resp.isSuccess then return read resp
          else tryCaches path read refused failed rest (some (refused url resp))
      | .error e => tryCaches path read refused failed rest (some (failed e))

/-- `caches.sort_by_key(|c| c.priority)`: a lower number is preferred, and caches with the same one
stay in order. -/
def byPriority (caches : List CacheConfig) : List CacheConfig :=
  caches.mergeSort fun a b => a.priority ≤ b.priority

namespace CacheClient

/-- `CacheClient::new`, where `built` is what the HTTP library makes of the builder. -/
def new (built : Except String Unit) (caches : List CacheConfig) :
    Except NiphasError CacheClient :=
  match built with
  | .error e => .error (.cache ("failed to create HTTP client: " ++ e))
  | .ok () => .ok { caches := byPriority caches }

/-- The body of a narinfo. -/
def readNarinfo (lib : Crypto) (resp : HttpResponse) : Result NarInfo :=
  match resp.text with
  | .ok text => NarInfo.parse lib text
  | .error e => fail (.cache ("failed to read narinfo body: " ++ e))

/-- The body of a NAR. -/
def readNar (resp : HttpResponse) : Result (List UInt8) :=
  match resp.bytes with
  | .ok data => .ok data
  | .error e => fail (.cache ("failed to read NAR body: " ++ e))

/-- The error for an answer to the request of a narinfo that is not a success. -/
def narinfoRefused (missing : NiphasError) (url : String) (resp : HttpResponse) : NiphasError :=
  if resp.status = 404 then missing
  else .cache ("HTTP " ++ resp.statusText ++ " from " ++ url)

/-- `fetch_narinfo`. -/
def fetchNarinfo (lib : Crypto) (client : CacheClient) (storePath : StorePath) :
    Prog httpInterface (Result NarInfo) :=
  tryCaches (storePath.hashStr ++ ".narinfo") (readNarinfo lib)
    (narinfoRefused (.storePathNotCached storePath.toString))
    (fun e => .cache ("request failed: " ++ e)) client.caches none

/-- `fetch_narinfo_by_hash`. -/
def fetchNarinfoByHash (lib : Crypto) (client : CacheClient) (hash : String) :
    Prog httpInterface (Result NarInfo) :=
  tryCaches (hash ++ ".narinfo") (readNarinfo lib) (narinfoRefused (.storePathNotCached hash))
    (fun e => .cache ("request failed: " ++ e)) client.caches none

/-- `fetch_nar`. -/
def fetchNar (client : CacheClient) (narinfo : NarInfo) :
    Prog httpInterface (Result (List UInt8)) :=
  tryCaches narinfo.url readNar
    (fun url resp => .cache ("HTTP " ++ resp.statusText ++ " fetching NAR from " ++ url))
    (fun e => .cache ("NAR request failed: " ++ e)) client.caches none

/-- The client as closure resolution uses it. -/
def narInfoClient (lib : Crypto) (client : CacheClient) (server : Server) : NarInfoClient where
  fetchNarinfo storePath := (client.fetchNarinfo lib storePath).ask server

end CacheClient

/-! ## What the loop returns -/

/-- The answer is no success. -/
def Silent (server : Server) (url : String) : Prop :=
  ∀ resp, server url = .ok resp → resp.isSuccess = false

lemma not_silent_iff {server : Server} {url : String} :
    ¬ Silent server url ↔ ∃ resp, server url = .ok resp ∧ resp.isSuccess = true := by
  simp only [Silent, not_forall, Bool.not_eq_false, exists_prop]

/-- The first of the caches that answers with a success answers with a `Good` one. -/
def FirstSuccess (server : Server) (path : String) (Good : HttpResponse → Prop)
    (caches : List CacheConfig) : Prop :=
  ∃ before cache after resp, caches = before ++ cache :: after ∧
    (∀ c ∈ before, Silent server (c.urlFor path)) ∧
      server (cache.urlFor path) = .ok resp ∧ resp.isSuccess = true ∧ Good resp

section

variable {server : Server} {path : String} {Good : HttpResponse → Prop} {cache : CacheConfig}
  {caches : List CacheConfig}

lemma not_firstSuccess_nil : ¬ FirstSuccess server path Good [] := by
  rintro ⟨before, cache, after, resp, h, -⟩
  exact List.append_ne_nil_of_right_ne_nil before (List.cons_ne_nil cache after) h.symm

lemma firstSuccess_cons_of_silent (h : Silent server (cache.urlFor path)) :
    FirstSuccess server path Good (cache :: caches) ↔ FirstSuccess server path Good caches := by
  constructor
  · rintro ⟨before, c, after, resp, heq, hsilent, hanswer, hsuccess, hgood⟩
    cases before with
    | nil =>
        obtain ⟨rfl, -⟩ := List.cons.inj heq
        exact absurd hsuccess (by rw [h resp hanswer]; exact Bool.false_ne_true)
    | cons c' before =>
        obtain ⟨rfl, rfl⟩ := List.cons.inj heq
        exact ⟨before, c, after, resp, rfl, fun c hc => hsilent c (List.mem_cons_of_mem _ hc),
          hanswer, hsuccess, hgood⟩
  · rintro ⟨before, c, after, resp, rfl, hsilent, hrest⟩
    exact ⟨cache :: before, c, after, resp, rfl, List.forall_mem_cons.mpr ⟨h, hsilent⟩, hrest⟩

lemma firstSuccess_cons {resp : HttpResponse} (hanswer : server (cache.urlFor path) = .ok resp)
    (hsuccess : resp.isSuccess = true) :
    FirstSuccess server path Good (cache :: caches) ↔ Good resp := by
  constructor
  · rintro ⟨before, c, after, resp', heq, hsilent, hanswer', -, hgood⟩
    cases before with
    | nil =>
        obtain ⟨rfl, -⟩ := List.cons.inj heq
        rw [hanswer] at hanswer'
        cases hanswer'
        exact hgood
    | cons c' before =>
        obtain ⟨rfl, -⟩ := List.cons.inj heq
        have hnot := hsilent cache List.mem_cons_self resp hanswer
        exact absurd hsuccess (by rw [hnot]; exact Bool.false_ne_true)
  · exact fun hgood => ⟨[], cache, caches, resp, rfl, fun _ h => absurd h List.not_mem_nil, hanswer,
      hsuccess, hgood⟩

end

section

variable {α : Type} {server : Server} {path : String} {read : HttpResponse → Result α}
  {refused : String → HttpResponse → NiphasError} {failed : String → NiphasError}

/-- One turn of the loop. -/
lemma ask_tryCaches_cons (cache : CacheConfig) (rest : List CacheConfig)
    (lastErr : Option NiphasError) :
    (tryCaches path read refused failed (cache :: rest) lastErr).ask server =
      match server (cache.urlFor path) with
      | .ok resp =>
          if resp.isSuccess then read resp
          else (tryCaches path read refused failed rest
            (some (refused (cache.urlFor path) resp))).ask server
      | .error e => (tryCaches path read refused failed rest (some (failed e))).ask server := by
  rw [tryCaches, Prog.op_bind, Prog.ask_call]
  cases server (cache.urlFor path) with
  | error e => rfl
  | ok resp =>
      by_cases hsuccess : resp.isSuccess = true
      · simp only [hsuccess, if_true]
        rfl
      · simp only [hsuccess]
        rfl

/-- A success decides. -/
lemma ask_tryCaches_of_success {cache : CacheConfig} {resp : HttpResponse}
    (hanswer : server (cache.urlFor path) = .ok resp) (hsuccess : resp.isSuccess = true)
    (rest : List CacheConfig) (lastErr : Option NiphasError) :
    (tryCaches path read refused failed (cache :: rest) lastErr).ask server = read resp := by
  simp only [ask_tryCaches_cons, hanswer, if_pos hsuccess]

/-- Everything else is passed over. -/
lemma ask_tryCaches_of_silent {cache : CacheConfig} (h : Silent server (cache.urlFor path))
    (rest : List CacheConfig) (lastErr : Option NiphasError) :
    ∃ e, (tryCaches path read refused failed (cache :: rest) lastErr).ask server =
      (tryCaches path read refused failed rest (some e)).ask server := by
  rw [ask_tryCaches_cons]
  cases hanswer : server (cache.urlFor path) with
  | error e => exact ⟨_, rfl⟩
  | ok resp =>
      refine ⟨_, if_neg ?_⟩
      rw [h resp hanswer]
      exact Bool.false_ne_true

/-- **The loop succeeds just when the first success can be read.** -/
lemma ask_tryCaches_eq_ok {a : α} {caches : List CacheConfig} :
    ∀ {lastErr : Option NiphasError},
      (tryCaches path read refused failed caches lastErr).ask server = .ok a ↔
        FirstSuccess server path (fun resp => read resp = .ok a) caches := by
  induction caches with
  | nil => exact fun {_} => iff_of_false nofun not_firstSuccess_nil
  | cons cache rest ih =>
      intro lastErr
      by_cases hsilent : Silent server (cache.urlFor path)
      · obtain ⟨e, heq⟩ := ask_tryCaches_of_silent hsilent rest lastErr
        rw [heq, ih, firstSuccess_cons_of_silent hsilent]
      · obtain ⟨resp, hanswer, hsuccess⟩ := not_silent_iff.mp hsilent
        rw [ask_tryCaches_of_success hanswer hsuccess, firstSuccess_cons hanswer hsuccess]

/-- Where every cache answers with a good success or with none, and one with a success, the first
success is a good one. -/
lemma firstSuccess_of_forall {server : Server} {path : String} {Good : HttpResponse → Prop}
    {caches : List CacheConfig}
    (hall : ∀ c ∈ caches, ∀ resp, server (c.urlFor path) = .ok resp → resp.isSuccess = true →
      Good resp)
    (hsome : ∃ c ∈ caches, ¬ Silent server (c.urlFor path)) :
    FirstSuccess server path Good caches := by
  induction caches with
  | nil =>
      obtain ⟨c, hc, -⟩ := hsome
      cases hc
  | cons cache rest ih =>
      obtain ⟨hcache, hrest⟩ := List.forall_mem_cons.mp hall
      by_cases hsilent : Silent server (cache.urlFor path)
      · rw [firstSuccess_cons_of_silent hsilent]
        obtain ⟨c, hc, hnot⟩ := hsome
        rcases List.mem_cons.mp hc with rfl | hc
        · exact absurd hsilent hnot
        · exact ih hrest ⟨c, hc, hnot⟩
      · obtain ⟨resp, hanswer, hsuccess⟩ := not_silent_iff.mp hsilent
        exact (firstSuccess_cons hanswer hsuccess).mpr (hcache resp hanswer hsuccess)

/-- Where all caches refuse for one reason, that is the error. -/
lemma ask_tryCaches_of_refused {e : NiphasError} {caches : List CacheConfig} (hne : caches ≠ [])
    (h : ∀ c ∈ caches, ∃ resp, server (c.urlFor path) = .ok resp ∧ resp.isSuccess = false ∧
      refused (c.urlFor path) resp = e) (lastErr : Option NiphasError) :
    (tryCaches path read refused failed caches lastErr).ask server = fail e := by
  have hall : ∀ caches : List CacheConfig, (∀ c ∈ caches, ∃ resp,
      server (c.urlFor path) = .ok resp ∧ resp.isSuccess = false ∧
        refused (c.urlFor path) resp = e) →
      (tryCaches path read refused failed caches (some e)).ask server = fail e := by
    intro caches h
    induction caches with
    | nil => rfl
    | cons cache rest ih =>
        obtain ⟨⟨resp, hanswer, hsuccess, hrefused⟩, hrest⟩ := List.forall_mem_cons.mp h
        simp only [ask_tryCaches_cons, hanswer, hsuccess, Bool.false_eq_true, if_false, hrefused]
        exact ih hrest
  cases caches with
  | nil => exact absurd rfl hne
  | cons cache rest =>
      obtain ⟨⟨resp, hanswer, hsuccess, hrefused⟩, hrest⟩ := List.forall_mem_cons.mp h
      simp only [ask_tryCaches_cons, hanswer, hsuccess, Bool.false_eq_true, if_false, hrefused]
      exact hall rest hrest

end

end Niphas
