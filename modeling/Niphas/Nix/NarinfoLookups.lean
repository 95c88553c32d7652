import Niphas.Nix.CacheClient

/-!
# The two narinfo lookups

`fetch_narinfo_impl` and `fetch_narinfo_by_hash_impl` are the same loop over the caches, written
twice: with nested conditions, and with guards on the arms of a match.  Here each is written as the
source has it.  `fetchNarinfoImpl_eq` and `fetchNarinfoByHashImpl_eq` say that they are the lookups
of `CacheClient`, and `narinfo_lookups_agree` that they differ in the text of one error only.

What there is to agree about is more than the value that is returned.  A lookup also asks for URLs,
in an order, and stops at some point.  So the two are compared as programs, in lockstep
(`Prog.Lockstep`), which has the same calls on both sides as a part of its definition.  The one
error that differs says what is missing, and each of the loops names it in its own way.

With the texts of the errors the statement would be false, and without their variants it would say
too little: callers match on the variant (`SameVariant`).
-/

namespace Niphas

namespace CacheClient

/-! ## The loops as they are written -/

/-- The loop of `fetch_narinfo_impl`. -/
def fetchNarinfoLoop (lib : Crypto) (storePath : StorePath) :
    List CacheConfig → Option NiphasError → Prog httpInterface (Result NarInfo)
  | [], lastErr => return fail (lastErr.getD (.cache "no binary caches configured"))
  | cache :: rest, _ => do
      let url := cache.urlFor (storePath.hashStr ++ ".narinfo")
      match ← Prog.op (I := httpInterface) url with
      | .ok resp =>
          if resp.isSuccess then
            match resp.text with
            | .ok text => return NarInfo.parse lib text
            | .error e => return fail (.cache ("failed to read narinfo body: " ++ e))
          else if resp.status = 404 then
            fetchNarinfoLoop lib storePath rest (some (.storePathNotCached storePath.toString))
          else
            fetchNarinfoLoop lib storePath rest
              (some (.cache ("HTTP " ++ resp.statusText ++ " from " ++ url)))
      | .error e =>
          fetchNarinfoLoop lib storePath rest (some (.cache ("request failed: " ++ e)))

/-- `fetch_narinfo_impl`. -/
def fetchNarinfoImpl (lib : Crypto) (client : CacheClient) (storePath : StorePath) :
    Prog httpInterface (Result NarInfo) :=
  fetchNarinfoLoop lib storePath client.caches none

/-- The guard of an arm `Ok(resp) if ..`. -/
def okIf (guard : HttpResponse → Bool) : Except String HttpResponse → Option HttpResponse
  | .ok resp => if guard resp then some resp else none
  | .error _ => none

/-- The loop of `fetch_narinfo_by_hash_impl`.  Its arms are tried in their order. -/
def fetchNarinfoByHashLoop (lib : Crypto) (hash : String) :
    List CacheConfig → Option NiphasError → Prog httpInterface (Result NarInfo)
  | [], lastErr => return fail (lastErr.getD (.cache "no binary caches configured"))
  | cache :: rest, _ => do
      let url := cache.urlFor (hash ++ ".narinfo")
      let answer ← Prog.op (I := httpInterface) url
      match okIf (·.isSuccess) answer, okIf (·.status = 404) answer, answer with
      | some resp, _, _ =>
          match resp.text with
          | .ok text => return NarInfo.parse lib text
          | .error e => return fail (.cache ("failed to read narinfo body: " ++ e))
      | none, some _, _ =>
          fetchNarinfoByHashLoop lib hash rest (some (.storePathNotCached hash))
      | none, none, .ok resp =>
          fetchNarinfoByHashLoop lib hash rest
            (some (.cache ("HTTP " ++ resp.statusText ++ " from " ++ url)))
      | none, none, .error e =>
          fetchNarinfoByHashLoop lib hash rest (some (.cache ("request failed: " ++ e)))

/-- `fetch_narinfo_by_hash_impl`. -/
def fetchNarinfoByHashImpl (lib : Crypto) (client : CacheClient) (hash : String) :
    Prog httpInterface (Result NarInfo) :=
  fetchNarinfoByHashLoop lib hash client.caches none

/-! ## One loop -/

/-- The nested conditions are those of `tryCaches`. -/
lemma fetchNarinfoLoop_eq (lib : Crypto) (storePath : StorePath) (caches : List CacheConfig) :
    ∀ lastErr, fetchNarinfoLoop lib storePath caches lastErr
      = tryCaches (storePath.hashStr ++ ".narinfo") (readNarinfo lib)
          (narinfoRefused (.storePathNotCached storePath.toString))
          (fun e => .cache ("request failed: " ++ e)) caches lastErr := by
  induction caches with
  | nil => exact fun _ => rfl
  | cons cache rest ih =>
      intro lastErr
      rw [fetchNarinfoLoop, tryCaches, Prog.op_bind, Prog.op_bind]
      refine congrArg (Prog.call _) (funext fun answer => ?_)
      cases answer with
      | error e => exact ih _
      | ok resp =>
          by_cases hsuccess : resp.isSuccess = true
          · simp only [hsuccess, if_true, readNarinfo]
            cases resp.text <;> rfl
          · by_cases hmissing : resp.status = 404
            · simp only [hsuccess, hmissing, narinfoRefused, if_true]
              exact ih _
            · simp only [hsuccess, hmissing, narinfoRefused, if_false]
              exact ih _

/-- So are the guards. -/
lemma fetchNarinfoByHashLoop_eq (lib : Crypto) (hash : String) (caches : List CacheConfig) :
    ∀ lastErr, fetchNarinfoByHashLoop lib hash caches lastErr
      = tryCaches (hash ++ ".narinfo") (readNarinfo lib)
          (narinfoRefused (.storePathNotCached hash))
          (fun e => .cache ("request failed: " ++ e)) caches lastErr := by
  induction caches with
  | nil => exact fun _ => rfl
  | cons cache rest ih =>
      intro lastErr
      rw [fetchNarinfoByHashLoop, tryCaches, Prog.op_bind, Prog.op_bind]
      refine congrArg (Prog.call _) (funext fun answer => ?_)
      cases answer with
      | error e => exact ih _
      | ok resp =>
          by_cases hsuccess : resp.isSuccess = true
          · simp only [okIf, hsuccess, if_true, readNarinfo]
            cases resp.text <;> rfl
          · by_cases hmissing : resp.status = 404
            · simp only [okIf, hsuccess, hmissing, narinfoRefused, decide_true, if_true]
              exact ih _
            · simp only [okIf, hsuccess, hmissing, narinfoRefused, decide_false, if_false]
              exact ih _

end CacheClient

/-- **The lookups of the client.**  The loops of the source are the ones the other modules use. -/
lemma fetchNarinfoImpl_eq (lib : Crypto) (client : CacheClient) (storePath : StorePath) :
    client.fetchNarinfoImpl lib storePath = client.fetchNarinfo lib storePath :=
  CacheClient.fetchNarinfoLoop_eq lib storePath client.caches none

lemma fetchNarinfoByHashImpl_eq (lib : Crypto) (client : CacheClient) (hash : String) :
    client.fetchNarinfoByHashImpl lib hash = client.fetchNarinfoByHash lib hash :=
  CacheClient.fetchNarinfoByHashLoop_eq lib hash client.caches none

/-! ## Agreement -/

/-- Errors of the same variant, whatever their text. -/
def SameVariant (e e' : NiphasError) : Prop := e.ctorIdx = e'.ctorIdx

/-- The same value, errors of the same variant, or panics. -/
inductive SameOutcome {α : Type} : Result α → Result α → Prop
  | ok (a : α) : SameOutcome (.ok a) (.ok a)
  | err {e e' : NiphasError} (h : SameVariant e e') : SameOutcome (fail e) (fail e')
  | panic : SameOutcome (.error .panic) (.error .panic)

lemma SameOutcome.refl {α : Type} : ∀ r : Result α, SameOutcome r r
  | .ok a => .ok a
  | .error (.err _) => .err rfl
  | .error .panic => .panic

/-- Two loops that differ in the error for a refusal, within its variant, ask the same caches and
end in the same way.  What is carried through the loop is that the last errors are of one variant,
where no error yet counts as the one of an empty list. -/
lemma lockstep_tryCaches {α : Type} {path : String} {read : HttpResponse → Result α}
    {refused refused' : String → HttpResponse → NiphasError} {failed : String → NiphasError}
    (hrefused : ∀ url resp, SameVariant (refused url resp) (refused' url resp))
    (caches : List CacheConfig) :
    ∀ {lastErr lastErr' : Option NiphasError},
      SameVariant (lastErr.getD (.cache "no binary caches configured"))
        (lastErr'.getD (.cache "no binary caches configured")) →
      Prog.Lockstep SameOutcome (tryCaches path read refused failed caches lastErr)
        (tryCaches path read refused' failed caches lastErr') := by
  induction caches with
  | nil => exact fun hlast => .pure (.err hlast)
  | cons cache rest ih =>
      intro lastErr lastErr' _
      rw [tryCaches, tryCaches, Prog.op_bind, Prog.op_bind]
      refine .call _ fun answer => ?_
      cases answer with
      | error e => exact ih rfl
      | ok resp =>
          by_cases hsuccess : resp.isSuccess = true
          · simp only [hsuccess, if_true]
            exact .pure (.refl (read resp))
          · simp only [hsuccess]
            exact ih (hrefused _ resp)

/-- The errors for a path that a cache does not have are of one variant. -/
lemma sameVariant_narinfoRefused (msg msg' url : String) (resp : HttpResponse) :
    SameVariant (CacheClient.narinfoRefused (.storePathNotCached msg) url resp)
      (CacheClient.narinfoRefused (.storePathNotCached msg') url resp) := by
  unfold CacheClient.narinfoRefused
  split
  · rfl
  · rfl

/-- Both lookups call the same URLs in the same order, return the same narinfo, and fail with the
same variant. -/
theorem narinfo_lookups_agree (lib : Crypto) (client : CacheClient) (server : Server)
    (sp : StorePath) :
    (client.fetchNarinfoImpl lib sp).asked server
        = (client.fetchNarinfoByHashImpl lib sp.hashStr).asked server ∧
      SameOutcome ((client.fetchNarinfoImpl lib sp).ask server)
        ((client.fetchNarinfoByHashImpl lib sp.hashStr).ask server) := by
  rw [fetchNarinfoImpl_eq, fetchNarinfoByHashImpl_eq]
  have hlockstep : Prog.Lockstep SameOutcome (client.fetchNarinfo lib sp)
      (client.fetchNarinfoByHash lib sp.hashStr) :=
    lockstep_tryCaches (sameVariant_narinfoRefused _ _) client.caches rfl
  exact ⟨hlockstep.asked_eq server, hlockstep.ask_rel server⟩

end Niphas
