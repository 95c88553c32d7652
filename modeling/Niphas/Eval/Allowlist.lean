import Niphas.Lib.Glob
import Niphas.Eval.Request

/-!
# The flake allowlist

The allowlist of the eval service (`allowlist.rs`): which flake references may be evaluated at all.

The matcher is recursive over the pattern and tries every position of the rest of the input for a
`*`.  It steps over the input byte by byte and takes a slice at each position, so on an input with
longer characters it may panic.  The validator runs first and lets through one-byte characters only;
the results are about references that it has accepted, and then the matcher has a value.

What a pattern means is said in the comment on the matcher: `*` matches any characters other than
`/`.  `GlobMatch` is this, by the general notion of a pattern in `Glob`, and the question is where
the matcher, whose `*` matches any characters, comes to the same.  One direction always holds.  The
other fails just for references in which some `*` has to stand for a `/`, and this can be seen from
the number of slashes on both sides (`CrossesSlash`).

* `allowlist_glob` — the documented `*` stands for characters other than `/`.  The matcher lets it
  stand for any characters, so it agrees with the documentation unless a `*` has to cross a `/`.
-/

namespace Niphas

/-- `AppError` of the eval service, variant for variant. -/
inductive AppError where
  | invalidInput (msg : String)
  | flakeNotAllowed (msg : String)
  | evalFailed (msg : String)
  | evalTimeout
  | storePathNotCached (msg : String)
  | closureResolutionFailed (msg : String)
  | internal (msg : String)
  deriving DecidableEq, Repr

/-- `From<NiphasError>` for `AppError`. -/
def AppError.ofNiphasError : NiphasError → AppError
  | .invalidInput msg => .invalidInput msg
  | .flakeNotAllowed msg => .flakeNotAllowed msg
  | .evalTimeout _ => .evalTimeout
  | .storePathNotCached msg => .storePathNotCached msg
  | .closureResolution msg => .closureResolutionFailed msg
  | other => .internal other.toString

namespace Allowlist

/-! ## The matcher -/

/-- The loop over the positions of the remaining input, byte by byte.  A position inside a character
makes the slice panic, and there is no value. -/
def tryPositions (matchesRest : List Char → Option Bool) (input : String) :
    List ℕ → Option Bool
  | [] => some false
  | i :: is =>
      match Str.sliceFrom input i with
      | none => none
      | some rest =>
          match matchesRest rest.toList with
          | none => none
          | some true => some true
          | some false => tryPositions matchesRest input is

/-- `matches_glob` on characters, the pattern first. -/
def matchesGlobChars : List Char → List Char → Option Bool
  | [], input => some (input = [])
  | p :: ps, input =>
      if p = '*' then
        if ps = [] then some true
        else
          let remaining := String.ofList input
          tryPositions (matchesGlobChars ps) remaining
            (List.range ((Bytes.utf8 remaining).length + 1))
      else
        match input with
        | [] => some false
        | c :: cs => if p = c then matchesGlobChars ps cs else some false

/-- `matches_glob`. -/
def matchesGlob (input pattern : String) : Option Bool :=
  matchesGlobChars pattern.toList input.toList

/-- The loop over the patterns. -/
def anyMatches (flakeRef : String) : List String → Option Bool
  | [] => some false
  | pattern :: rest =>
      match matchesGlob flakeRef pattern with
      | none => none
      | some true => some true
      | some false => anyMatches flakeRef rest

/-- `allowlist::validate_flake_ref`. -/
def validateFlakeRef (flakeRef : String) (allowlist : List String) :
    Option (Except AppError Unit) :=
  if allowlist = [] then
    some (.error (.flakeNotAllowed
      (flakeRef ++ ": no flake origins are allowed (empty allowlist)")))
  else
    match anyMatches flakeRef allowlist with
    | none => none
    | some true => some (.ok ())
    | some false => some (.error (.flakeNotAllowed (flakeRef ++ " not in allowlist")))

/-! ## What the matcher computes -/

/-- Every position of a string of one-byte characters is the start of a character. -/
lemma sliceFrom_of_ascii {cs : List Char} (hcs : ∀ c ∈ cs, c.utf8Size = 1) {i : ℕ}
    (hi : i ≤ cs.length) :
    Str.sliceFrom (String.ofList cs) i = some (String.ofList (cs.drop i)) := by
  have happ : String.ofList cs = String.ofList (cs.take i) ++ String.ofList (cs.drop i) := by
    rw [← String.ofList_append, List.take_append_drop]
  have hlen : (Bytes.utf8 (String.ofList (cs.take i))).length = i := by
    rw [Bytes.length_utf8_ofList fun c hc => hcs c (List.mem_of_mem_take hc),
      List.length_take_of_le hi]
  have hslice := Str.sliceFrom_append (String.ofList (cs.take i)) (String.ofList (cs.drop i))
  rwa [hlen, ← happ] at hslice

/-- The search over positions finds one if there is one. -/
lemma tryPositions_of_ascii {matchesRest : List Char → Option Bool} {P : List Char → Prop}
    {cs : List Char} (hcs : ∀ c ∈ cs, c.utf8Size = 1)
    (hrest : ∀ i, ∃ b, matchesRest (cs.drop i) = some b ∧ (b = true ↔ P (cs.drop i))) :
    ∀ is : List ℕ, (∀ i ∈ is, i ≤ cs.length) →
      ∃ b, tryPositions matchesRest (String.ofList cs) is = some b ∧
        (b = true ↔ ∃ i ∈ is, P (cs.drop i)) := by
  intro is his
  induction is with
  | nil => exact ⟨false, rfl, by simp⟩
  | cons i is ih =>
      obtain ⟨hi, his⟩ := List.forall_mem_cons.mp his
      obtain ⟨b, hb, hbP⟩ := hrest i
      simp only [tryPositions, sliceFrom_of_ascii hcs hi, String.toList_ofList, hb,
        List.exists_mem_cons_iff]
      cases b with
      | true => exact ⟨true, rfl, iff_of_true rfl (Or.inl (hbP.mp rfl))⟩
      | false =>
          obtain ⟨b, hb, hiff⟩ := ih his
          have hno : ¬ P (cs.drop i) := fun h => Bool.false_ne_true (hbP.mpr h)
          exact ⟨b, hb, hiff.trans (or_iff_right hno).symm⟩

/-- **On one-byte characters the matcher has a value**, and it is the one of wildcards that stand
for any characters. -/
lemma matchesGlobChars_of_ascii (pattern : List Char) :
    ∀ cs : List Char, (∀ c ∈ cs, c.utf8Size = 1) →
      ∃ b, matchesGlobChars pattern cs = some b ∧
        (b = true ↔ Glob.Matches '*' (fun _ => True) pattern cs) := by
  induction pattern with
  | nil =>
      intro cs _
      rw [Glob.matches_nil_iff]
      exact ⟨decide (cs = []), rfl, decide_eq_true_iff⟩
  | cons p ps ih =>
      intro cs hcs
      by_cases hp : p = '*'
      · simp only [matchesGlobChars, if_pos hp]
        subst hp
        by_cases hps : ps = []
        · subst hps
          exact ⟨true, rfl, iff_of_true rfl (Glob.matches_last_wildcard fun _ _ => trivial)⟩
        · have hlen := Bytes.length_utf8_ofList hcs
          have hrest := fun i => ih (cs.drop i) fun c hc => hcs c (List.mem_of_mem_drop hc)
          obtain ⟨b, hb, hiff⟩ := tryPositions_of_ascii hcs hrest (List.range (cs.length + 1))
            fun i hi => Nat.le_of_lt_succ (List.mem_range.mp hi)
          rw [if_neg hps, hlen]
          refine ⟨b, hb, hiff.trans ?_⟩
          rw [Glob.matches_wildcard_iff]
          constructor
          · rintro ⟨i, hi, h⟩
            exact ⟨i, Nat.le_of_lt_succ (List.mem_range.mp hi), fun _ _ => trivial, h⟩
          · rintro ⟨i, hi, -, h⟩
            exact ⟨i, List.mem_range.mpr (Nat.lt_succ_of_le hi), h⟩
      · simp only [matchesGlobChars, if_neg hp, Glob.matches_symbol_iff hp]
        cases cs with
        | nil =>
            refine ⟨false, rfl, iff_of_false Bool.false_ne_true ?_⟩
            rintro ⟨w, hw, -⟩
            cases hw
        | cons c cs =>
            by_cases hpc : p = c
            · subst hpc
              obtain ⟨b, hb, hiff⟩ := ih cs fun c hc => hcs c (List.mem_cons_of_mem p hc)
              refine ⟨b, (if_pos rfl).trans hb, hiff.trans ⟨fun h => ⟨cs, rfl, h⟩, ?_⟩⟩
              rintro ⟨w, hw, h⟩
              cases hw
              exact h
            · refine ⟨false, if_neg hpc, iff_of_false Bool.false_ne_true ?_⟩
              rintro ⟨w, hw, -⟩
              cases hw
              exact hpc rfl

lemma utf8Size_of_isAlphanum {c : Char} (h : c.isAlphanum = true) : c.utf8Size = 1 := by
  have hranges : (decide (c.val ≥ 65 ∧ c.val ≤ 90) ||
      decide (c.val ≥ 97) && decide (c.val ≤ 122) ||
        decide (c.val ≥ 48) && decide (c.val ≤ 57)) = true := h
  simp only [Bool.or_eq_true, Bool.and_eq_true, decide_eq_true_eq, UInt32.le_iff_toNat_le]
    at hranges
  rw [Char.utf8Size_eq_one_iff, UInt32.le_iff_toNat_le]
  rcases hranges with (h | h) | h <;> exact h.2.trans (by decide)

/-- The characters of an accepted flake reference take one byte each. -/
lemma utf8Size_of_validateFlakeRef {flakeRef : String}
    (h : Niphas.validateFlakeRef flakeRef = .ok ()) : ∀ c ∈ flakeRef.toList, c.utf8Size = 1 := by
  obtain ⟨c, scheme, path, hlist, hc, hscheme, -, hpath⟩ := validateFlakeRef_eq_ok.mp h
  have hletter : c.utf8Size = 1 :=
    utf8Size_of_isAlphanum (by rw [Char.isAlphanum, hc, Bool.true_or])
  have hschemeChar : ∀ d, schemeChar d = true → d.utf8Size = 1 := by
    intro d hd
    simp only [schemeChar, Bool.or_eq_true, decide_eq_true_eq, or_assoc] at hd
    rcases hd with hd | rfl | rfl | rfl
    · exact utf8Size_of_isAlphanum hd
    all_goals rfl
  have hpathChar : ∀ d, flakePathChar d = true → d.utf8Size = 1 := by
    intro d hd
    simp only [flakePathChar, Bool.or_eq_true, decide_eq_true_eq, or_assoc] at hd
    rcases hd with hd | rfl | rfl | rfl | rfl | rfl | rfl | rfl | rfl | rfl | rfl | rfl | rfl
    · exact utf8Size_of_isAlphanum hd
    all_goals rfl
  intro d hd
  rw [hlist, List.mem_cons, List.mem_append, List.mem_cons] at hd
  rcases hd with rfl | hd | rfl | hd
  · exact hletter
  · exact hschemeChar d (hscheme d hd)
  · rfl
  · exact hpathChar d (hpath d hd)

/-! ## The matcher against the documented language -/

/-- The documented language: `*` matches any sequence of non-`/` characters. -/
def GlobMatch (flakeRef pattern : String) : Prop :=
  Glob.Matches '*' (· ≠ '/') pattern.toList flakeRef.toList

/-- The matcher decides the documented language. -/
def MatcherExact (flakeRef pattern : String) : Prop :=
  ∃ b, matchesGlob flakeRef pattern = some b ∧ (b = true ↔ GlobMatch flakeRef pattern)

/-- The allowlist admits what one of its patterns documents, and nothing else. -/
def AllowlistExact (flakeRef : String) (allowlist : List String) : Prop :=
  ∃ r, validateFlakeRef flakeRef allowlist = some r ∧
    (r = .ok () ↔ ∃ pattern ∈ allowlist, GlobMatch flakeRef pattern)

/-- The pattern matches only if its wildcards also stand for a `/`: the reference has more of them
than the pattern. -/
def CrossesSlash (flakeRef pattern : String) : Prop :=
  Glob.Matches '*' (fun _ => True) pattern.toList flakeRef.toList ∧
    pattern.toList.count '/' < flakeRef.toList.count '/'

lemma matchesGlob_of_validateFlakeRef {flakeRef : String}
    (h : Niphas.validateFlakeRef flakeRef = .ok ()) (pattern : String) :
    ∃ b, matchesGlob flakeRef pattern = some b ∧
      (b = true ↔ GlobMatch flakeRef pattern ∨ CrossesSlash flakeRef pattern) := by
  obtain ⟨b, hb, hiff⟩ := matchesGlobChars_of_ascii pattern.toList flakeRef.toList
    (utf8Size_of_validateFlakeRef h)
  refine ⟨b, hb, hiff.trans ?_⟩
  have hslash : '/' ≠ '*' := by decide
  rw [GlobMatch, CrossesSlash, Glob.matches_ne_iff hslash, ← and_or_left]
  constructor
  · intro hm
    exact ⟨hm, (hm.count_le hslash).eq_or_lt.imp_left Eq.symm⟩
  · exact And.left

/-- A pattern is not matched in both ways. -/
lemma GlobMatch.not_crossesSlash {flakeRef pattern : String} (h : GlobMatch flakeRef pattern) :
    ¬ CrossesSlash flakeRef pattern := by
  rintro ⟨-, hlt⟩
  have hslash : '/' ≠ '*' := by decide
  have heq := ((Glob.matches_ne_iff hslash).mp h).2
  exact hlt.ne heq.symm

lemma anyMatches_of_validateFlakeRef {flakeRef : String}
    (h : Niphas.validateFlakeRef flakeRef = .ok ()) (allowlist : List String) :
    ∃ b, anyMatches flakeRef allowlist = some b ∧
      (b = true ↔ ∃ pattern ∈ allowlist,
        GlobMatch flakeRef pattern ∨ CrossesSlash flakeRef pattern) := by
  induction allowlist with
  | nil => exact ⟨false, rfl, by simp⟩
  | cons pattern rest ih =>
      obtain ⟨b, hb, hiff⟩ := matchesGlob_of_validateFlakeRef h pattern
      simp only [anyMatches, hb, List.exists_mem_cons_iff]
      cases b with
      | true => exact ⟨true, rfl, iff_of_true rfl (Or.inl (hiff.mp rfl))⟩
      | false =>
          obtain ⟨b, hb, hrest⟩ := ih
          exact ⟨b, hb, hrest.trans
            (or_iff_right fun h => Bool.false_ne_true (hiff.mpr h)).symm⟩

lemma validateFlakeRef_of_accepted {flakeRef : String}
    (h : Niphas.validateFlakeRef flakeRef = .ok ()) (allowlist : List String) :
    ∃ r, validateFlakeRef flakeRef allowlist = some r ∧
      (r = .ok () ↔ ∃ pattern ∈ allowlist,
        GlobMatch flakeRef pattern ∨ CrossesSlash flakeRef pattern) := by
  rw [validateFlakeRef]
  split
  · next hnil =>
    subst hnil
    exact ⟨_, rfl, iff_of_false nofun (by simp)⟩
  · obtain ⟨b, hb, hiff⟩ := anyMatches_of_validateFlakeRef h allowlist
    simp only [hb]
    cases b with
    | true => exact ⟨_, rfl, iff_of_true rfl (hiff.mp rfl)⟩
    | false => exact ⟨_, rfl, iff_of_false nofun fun h => Bool.false_ne_true (hiff.mpr h)⟩

/-- **The matcher and the documented language.**  For an accepted reference the matcher decides a
pattern as documented just when no `*` of it has to stand for a `/`; the allowlist decides as
documented just when a pattern that is matched only so comes with one that matches as documented. -/
theorem allowlist_glob {flakeRef : String} (h : Niphas.validateFlakeRef flakeRef = .ok ()) :
    (∀ pattern, MatcherExact flakeRef pattern ↔ ¬ CrossesSlash flakeRef pattern) ∧
      ∀ allowlist, AllowlistExact flakeRef allowlist ↔
        ((∃ pattern ∈ allowlist, CrossesSlash flakeRef pattern) →
          ∃ pattern ∈ allowlist, GlobMatch flakeRef pattern) := by
  refine ⟨fun pattern => ?_, fun allowlist => ?_⟩
  · obtain ⟨b, hb, hiff⟩ := matchesGlob_of_validateFlakeRef h pattern
    simp only [MatcherExact, hb, Option.some.injEq, exists_eq_left', hiff]
    constructor
    · intro hexact hcross
      exact (hexact.mp (Or.inr hcross)).not_crossesSlash hcross
    · intro hno
      exact or_iff_left hno
  · obtain ⟨r, hr, hiff⟩ := validateFlakeRef_of_accepted h allowlist
    simp only [AllowlistExact, hr, Option.some.injEq, exists_eq_left', hiff, and_or_left,
      exists_or]
    exact or_iff_left_iff_imp

/-- A repository of an allowed organisation matches, and only such. -/
theorem allowlist_glob_nixpkgs :
    Niphas.validateFlakeRef "github:nixos/nixpkgs" = .ok () ∧
      MatcherExact "github:nixos/nixpkgs" "github:nixos/*" := by
  have hok : Niphas.validateFlakeRef "github:nixos/nixpkgs" = .ok () := by decide
  refine ⟨hok, ((allowlist_glob hok).1 "github:nixos/*").mpr ?_⟩
  rintro ⟨-, hlt⟩
  exact absurd hlt (by decide)

/-- The wildcard of `github:myorg/*` also admits a reference with one component more. -/
theorem allowlist_crosses_slash :
    Niphas.validateFlakeRef "github:myorg/app/branch" = .ok () ∧
      ¬ MatcherExact "github:myorg/app/branch" "github:myorg/*" ∧
      ¬ AllowlistExact "github:myorg/app/branch" ["github:myorg/*"] := by
  have hslash : '/' ≠ '*' := by decide
  have hno : ¬ GlobMatch "github:myorg/app/branch" "github:myorg/*" := by
    intro h
    exact absurd ((Glob.matches_ne_iff hslash).mp h).2 (by decide)
  have hmatch : matchesGlob "github:myorg/app/branch" "github:myorg/*" = some true := by decide
  refine ⟨by decide, ?_, ?_⟩
  · rintro ⟨b, hb, hiff⟩
    cases hmatch.symm.trans hb
    exact hno (hiff.mp rfl)
  · rintro ⟨r, hr, hiff⟩
    have hok : validateFlakeRef "github:myorg/app/branch" ["github:myorg/*"] = some (.ok ()) := by
      decide
    cases hok.symm.trans hr
    obtain ⟨pattern, hmem, h⟩ := hiff.mp rfl
    cases List.mem_singleton.mp hmem
    exact hno h

end Allowlist

end Niphas
