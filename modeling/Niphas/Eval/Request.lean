import Niphas.Operator.Eval

/-!
# Validating an evaluation request

The validators of the core's `eval.rs`.  Each loop over characters is `checkChars`; what a validator
lets through is one equivalence for each of them.

The order of the checks decides which error is reported, so it is that of the source, and so are the
texts.  The equivalences are about acceptance only: they say which characters a text has and where,
and whoever works with an accepted request uses them and does not look at the loops again.

* `validateFlakeRef_eq_ok`, `validateAttribute_eq_ok`, `validateRevision_eq_ok` — what is accepted.
* `validateEvalRequest_eq_ok` — a request is accepted if its parts are.
-/

namespace Niphas

/-- A loop that returns an error at the first character that is not allowed. -/
def checkChars (allowed : Char → Bool) (message : Char → String) :
    List Char → Except NiphasError Unit
  | [] => .ok ()
  | c :: cs =>
      if allowed c then checkChars allowed message cs else .error (.invalidInput (message c))

lemma checkChars_eq_ok {allowed : Char → Bool} {message : Char → String} {cs : List Char} :
    checkChars allowed message cs = .ok () ↔ ∀ c ∈ cs, allowed c = true := by
  induction cs with
  | nil => simp [checkChars]
  | cons c cs ih =>
      rw [checkChars, List.forall_mem_cons]
      by_cases hc : allowed c = true
      · rw [if_pos hc, ih]
        exact (and_iff_right hc).symm
      · rw [if_neg hc]
        exact iff_of_false nofun fun h => hc h.1

/-! ## The flake reference -/

/-- The characters of a scheme after its first. -/
def schemeChar (c : Char) : Bool := c.isAlphanum || c = '+' || c = '-' || c = '.'

/-- The characters of the path of a flake reference. -/
def flakePathChar (c : Char) : Bool :=
  c.isAlphanum || c = '/' || c = '_' || c = '-' || c = '.' || c = '@' || c = ':' || c = '#' ||
    c = '+' || c = '?' || c = '=' || c = '&' || c = '~'

/-- The check of the scheme. -/
def checkScheme (scheme : String) : Except NiphasError Unit :=
  let bad : Except NiphasError Unit :=
    .error (.invalidInput ("flake_ref scheme must start with a letter: '" ++ scheme ++ "'"))
  match scheme.toList with
  | [] => bad
  | c :: cs =>
      if c.isAlpha then
        checkChars schemeChar (fun c => "flake_ref scheme contains invalid character '" ++
          String.singleton c ++ "': '" ++ scheme ++ "'") cs
      else bad

/-- `validate_flake_ref` of the core. -/
def validateFlakeRef (flakeRef : String) : Except NiphasError Unit :=
  if flakeRef = "" then .error (.invalidInput "flake_ref must not be empty")
  else
    match Str.splitOnce ":" flakeRef with
    | none => .error (.invalidInput ("flake_ref missing scheme: '" ++ flakeRef ++ "'"))
    | some (scheme, path) => do
        checkScheme scheme
        if path = "" then
          .error (.invalidInput ("flake_ref path must not be empty: '" ++ flakeRef ++ "'"))
        else
          checkChars flakePathChar (fun c => "flake_ref contains unsafe character '" ++
            String.singleton c ++ "': '" ++ flakeRef ++ "'") path.toList

lemma checkScheme_eq_ok {scheme : String} :
    checkScheme scheme = .ok () ↔
      ∃ c cs, scheme.toList = c :: cs ∧ c.isAlpha = true ∧ ∀ d ∈ cs, schemeChar d = true := by
  rw [checkScheme]
  cases scheme.toList with
  | nil => exact iff_of_false nofun fun ⟨_, _, h, _⟩ => nomatch h
  | cons c cs =>
      by_cases hc : c.isAlpha = true
      · simp only [if_pos hc, checkChars_eq_ok, List.cons.injEq]
        constructor
        · exact fun h => ⟨c, cs, ⟨rfl, rfl⟩, hc, h⟩
        · rintro ⟨_, _, ⟨rfl, rfl⟩, -, h⟩
          exact h
      · simp only [if_neg hc, reduceCtorEq, List.cons.injEq, false_iff]
        rintro ⟨_, _, ⟨rfl, rfl⟩, hc', -⟩
        exact hc hc'

/-- Characters that are in no scheme. -/
lemma not_mem_scheme {c : Char} {scheme : List Char} (hc : c.isAlpha = true)
    (hscheme : ∀ d ∈ scheme, schemeChar d = true) {d : Char} (hd : d.isAlpha = false)
    (hd' : schemeChar d = false) : d ∉ c :: scheme := by
  intro hmem
  rcases List.mem_cons.mp hmem with rfl | hmem
  · exact Bool.false_ne_true (hd.symm.trans hc)
  · exact Bool.false_ne_true (hd'.symm.trans (hscheme d hmem))

/-- What is accepted: a letter, characters of a scheme, a colon, and at least one character of a
path. -/
theorem validateFlakeRef_eq_ok {flakeRef : String} :
    validateFlakeRef flakeRef = .ok () ↔
      ∃ c scheme path, flakeRef.toList = c :: (scheme ++ ':' :: path) ∧ c.isAlpha = true ∧
        (∀ d ∈ scheme, schemeChar d = true) ∧ path ≠ [] ∧ ∀ d ∈ path, flakePathChar d = true := by
  constructor
  · intro h
    unfold validateFlakeRef at h
    split at h
    · cases h
    split at h
    · cases h
    next scheme path hsplit =>
    obtain ⟨⟨as, bs⟩, hchars, heq⟩ := Option.map_eq_some_iff.mp hsplit
    cases heq
    obtain ⟨hlist, -⟩ := Str.splitOnceChars_singleton_eq_some.mp hchars
    cases hscheme : checkScheme (String.ofList as) with
    | error e =>
        rw [hscheme] at h
        cases h
    | ok u =>
        rw [hscheme] at h
        change (if String.ofList bs = "" then _ else _) = _ at h
        split at h
        · cases h
        next hpath =>
        obtain ⟨c, cs, hcs, hc, hall⟩ := checkScheme_eq_ok.mp hscheme
        rw [String.toList_ofList] at hcs
        subst hcs
        refine ⟨c, cs, bs, hlist, hc, hall, ?_, ?_⟩
        · rintro rfl
          exact hpath rfl
        · have hok := checkChars_eq_ok.mp h
          rwa [String.toList_ofList] at hok
  · rintro ⟨c, scheme, path, hlist, hc, hscheme, hpath, hall⟩
    have hne : flakeRef ≠ "" := by
      rintro rfl
      cases hlist
    have hsplit : Str.splitOnce ":" flakeRef
        = some (String.ofList (c :: scheme), String.ofList path) := by
      have hchars : Str.splitOnceChars [':'] flakeRef.toList = some (c :: scheme, path) :=
        Str.splitOnceChars_singleton_eq_some.mpr
          ⟨hlist, not_mem_scheme hc hscheme (by decide) (by decide)⟩
      exact congrArg (Option.map _) hchars
    have hok : checkScheme (String.ofList (c :: scheme)) = .ok () :=
      checkScheme_eq_ok.mpr ⟨c, scheme, String.toList_ofList, hc, hscheme⟩
    have hpath' : String.ofList path ≠ "" := by
      intro h
      have hnil := congrArg String.toList h
      rw [String.toList_ofList] at hnil
      exact hpath hnil
    simp only [validateFlakeRef, if_neg hne, hsplit, hok]
    change (if String.ofList path = "" then _ else _) = _
    rw [if_neg hpath', checkChars_eq_ok, String.toList_ofList]
    exact hall

/-! ## The attribute and the revision -/

/-- The first character of a segment of an attribute path. -/
def attrStart (c : Char) : Bool := c.isAlpha || c = '_'

/-- The other characters of a segment. -/
def attrChar (c : Char) : Bool := c.isAlphanum || c = '_' || c = '-'

/-- The body of the loop over the segments of an attribute path. -/
def checkSegment («attribute» : String) : List Char → Except NiphasError Unit
  | [] => .error (.invalidInput ("attribute contains empty segment: '" ++ «attribute» ++ "'"))
  | c :: cs =>
      if attrStart c then
        checkChars attrChar (fun c => "attribute contains invalid character '" ++
          String.singleton c ++ "': '" ++ «attribute» ++ "'") cs
      else
        .error (.invalidInput ("attribute segment must start with letter or '_', got '" ++
          String.singleton c ++ "': '" ++ «attribute» ++ "'"))

/-- The loop over the segments. -/
def checkSegments («attribute» : String) : List (List Char) → Except NiphasError Unit
  | [] => .ok ()
  | segment :: rest => do
      checkSegment «attribute» segment
      checkSegments «attribute» rest

/-- `validate_attribute`. -/
def validateAttribute («attribute» : String) : Except NiphasError Unit :=
  if «attribute» = "" then .error (.invalidInput "attribute must not be empty")
  else checkSegments «attribute» (Str.splitChars (· = '.') «attribute».toList)

/-- `char::is_ascii_hexdigit`. -/
def isHexDigit (c : Char) : Bool :=
  c.isDigit || ('a' ≤ c && c ≤ 'f') || ('A' ≤ c && c ≤ 'F')

/-- `validate_revision`. -/
def validateRevision (revision : String) : Except NiphasError Unit :=
  let len := (Bytes.utf8 revision).length
  if len < 6 ∨ 40 < len then
    .error (.invalidInput ("revision must be 6-40 hex characters, got " ++ Nat.repr len ++
      " characters: '" ++ revision ++ "'"))
  else
    checkChars isHexDigit (fun c => "revision contains non-hex character '" ++
      String.singleton c ++ "': '" ++ revision ++ "'") revision.toList

/-- `validate_eval_request`. -/
def validateEvalRequest (req : EvalRequest) : Except NiphasError Unit := do
  validateFlakeRef req.flakeRef
  validateAttribute req.«attribute»
  match req.revision with
  | some rev => validateRevision rev
  | none => .ok ()

/-! ## The errors -/

/-- A check whose only error is `InvalidInput`. -/
def Rejects (r : Except NiphasError Unit) : Prop :=
  ∀ e, r = .error e → ∃ msg, e = .invalidInput msg

namespace Rejects

lemma ok : Rejects (.ok ()) := fun _ h => by cases h

lemma error (msg : String) : Rejects (.error (.invalidInput msg)) :=
  fun _ h => ⟨msg, (Except.error.inj h).symm⟩

lemma bind {r : Except NiphasError Unit} {f : Unit → Except NiphasError Unit} (hr : Rejects r)
    (hf : Rejects (f ())) : Rejects (r >>= f) := by
  cases r with
  | ok u => exact hf
  | error e => exact fun e' h => hr e' h

lemma checkChars (allowed : Char → Bool) (message : Char → String) (cs : List Char) :
    Rejects (Niphas.checkChars allowed message cs) := by
  induction cs with
  | nil => exact ok
  | cons c cs ih =>
      rw [Niphas.checkChars]
      split
      · exact ih
      · exact error _

lemma checkScheme (scheme : String) : Rejects (Niphas.checkScheme scheme) := by
  rw [Niphas.checkScheme]
  cases scheme.toList with
  | nil => exact error _
  | cons c cs =>
      by_cases hc : c.isAlpha = true
      · simp only [if_pos hc]
        exact checkChars _ _ _
      · simp only [if_neg hc]
        exact error _

lemma validateFlakeRef (flakeRef : String) : Rejects (Niphas.validateFlakeRef flakeRef) := by
  unfold Niphas.validateFlakeRef
  split
  · exact error _
  split
  · exact error _
  · refine (checkScheme _).bind ?_
    split
    · exact error _
    · exact checkChars _ _ _

lemma validateAttribute («attribute» : String) :
    Rejects (Niphas.validateAttribute «attribute») := by
  have hsegment : ∀ segment, Rejects (checkSegment «attribute» segment) := by
    intro segment
    cases segment with
    | nil => exact error _
    | cons c cs =>
        rw [checkSegment]
        split
        · exact checkChars _ _ _
        · exact error _
  have hsegments : ∀ segments, Rejects (checkSegments «attribute» segments) := by
    intro segments
    induction segments with
    | nil => exact ok
    | cons segment rest ih => exact (hsegment segment).bind ih
  rw [Niphas.validateAttribute]
  split
  · exact error _
  · exact hsegments _

lemma validateRevision (revision : String) : Rejects (Niphas.validateRevision revision) := by
  unfold Niphas.validateRevision
  simp only
  split
  · exact error _
  · exact checkChars _ _ _

/-- Every error of the validators is `InvalidInput`. -/
lemma validateEvalRequest (req : EvalRequest) : Rejects (Niphas.validateEvalRequest req) := by
  refine (validateFlakeRef _).bind ((validateAttribute _).bind ?_)
  cases req.revision with
  | none => exact ok
  | some rev => exact validateRevision rev

end Rejects

/-- An identifier of an attribute path. -/
def IsAttrName (cs : List Char) : Prop :=
  ∃ c rest, cs = c :: rest ∧ attrStart c = true ∧ ∀ d ∈ rest, attrChar d = true

lemma checkSegment_eq_ok {«attribute» : String} {cs : List Char} :
    checkSegment «attribute» cs = .ok () ↔ IsAttrName cs := by
  cases cs with
  | nil => exact iff_of_false nofun fun ⟨_, _, h, _⟩ => nomatch h
  | cons c cs =>
      rw [checkSegment]
      by_cases hc : attrStart c = true
      · rw [if_pos hc, checkChars_eq_ok]
        constructor
        · exact fun h => ⟨c, cs, rfl, hc, h⟩
        · rintro ⟨_, _, ⟨⟩, -, h⟩
          exact h
      · rw [if_neg hc]
        refine iff_of_false nofun ?_
        rintro ⟨_, _, ⟨⟩, hc', -⟩
        exact hc hc'

lemma checkSegments_eq_ok {«attribute» : String} {segments : List (List Char)} :
    checkSegments «attribute» segments = .ok () ↔ ∀ cs ∈ segments, IsAttrName cs := by
  induction segments with
  | nil => simp [checkSegments]
  | cons segment rest ih =>
      rw [checkSegments, List.forall_mem_cons, ← ih, ← checkSegment_eq_ok]
      cases h : checkSegment «attribute» segment with
      | error e => exact iff_of_false nofun fun h => nomatch h.1
      | ok u => exact (and_iff_right rfl).symm

/-- What is accepted: identifiers with dots between them. -/
theorem validateAttribute_eq_ok {«attribute» : String} :
    validateAttribute «attribute» = .ok () ↔
      ∀ cs ∈ Str.splitChars (· = '.') «attribute».toList, IsAttrName cs := by
  rw [validateAttribute]
  split
  · next h =>
    subst h
    refine iff_of_false nofun fun h => ?_
    obtain ⟨_, _, h, -⟩ := h [] (List.mem_singleton.mpr rfl)
    cases h
  · exact checkSegments_eq_ok

/-- What is accepted: six to forty hexadecimal digits. -/
theorem validateRevision_eq_ok {revision : String} :
    validateRevision revision = .ok () ↔
      6 ≤ (Bytes.utf8 revision).length ∧ (Bytes.utf8 revision).length ≤ 40 ∧
        ∀ c ∈ revision.toList, isHexDigit c = true := by
  rw [validateRevision]
  split
  · next h => exact iff_of_false nofun fun h' => by omega
  · next h =>
    rw [checkChars_eq_ok]
    exact ⟨fun hall => ⟨by omega, by omega, hall⟩, fun h' => h'.2.2⟩

/-- A request is accepted if its parts are. -/
theorem validateEvalRequest_eq_ok {req : EvalRequest} :
    validateEvalRequest req = .ok () ↔
      validateFlakeRef req.flakeRef = .ok () ∧ validateAttribute req.«attribute» = .ok () ∧
        ∀ rev, req.revision = some rev → validateRevision rev = .ok () := by
  rw [validateEvalRequest]
  cases validateFlakeRef req.flakeRef with
  | error e => exact iff_of_false nofun fun h => nomatch h.1
  | ok u =>
      cases validateAttribute req.«attribute» with
      | error e => exact iff_of_false nofun fun h => nomatch h.2.1
      | ok u =>
          cases req.revision with
          | none => exact ⟨fun _ => ⟨rfl, rfl, nofun⟩, fun _ => rfl⟩
          | some rev =>
              constructor
              · exact fun h => ⟨rfl, rfl, fun _ hrev => Option.some.inj hrev ▸ h⟩
              · exact fun h => h.2.2 rev rfl

end Niphas
