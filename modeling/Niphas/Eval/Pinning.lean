import Niphas.Eval.Evaluator

/-!
# Pinning a flake reference

`Evaluator::evaluate` pins a reference by writing a slash and the revision behind it.  A reference
may end in query parameters or in a fragment, and then it is these that the revision is written
behind.

A flake reference is a URL, so its parts are those of one: a scheme, a path, a query behind the
first `?` and a fragment behind the first `#`.  Pinning is right if the path gets the revision and
the other parts stay (`KeepsParts`).  What Nix makes of the parts is not modelled; it does not have
to be, to see that a revision in a query parameter is another parameter and not a revision.

The condition is about the reference alone, and exact for all accepted references and revisions.  An
accepted revision has only hexadecimal digits, so there is nothing in it that could begin a part.

* `pinnedRef_keeps` — which references keep their parts.
-/

namespace Niphas

/-! ## The parts of a reference -/

/-- What stands in front of the first `c`, and what stands behind it if there is one. -/
def cut (c : Char) (cs : List Char) : List Char × Option (List Char) :=
  match Str.splitOnceChars [c] cs with
  | some (front, back) => (front, some back)
  | none => (cs, none)

/-- A flake reference as a URL: `scheme:path?query#fragment`. -/
structure FlakeParts where
  scheme : List Char
  path : List Char
  query : Option (List Char)
  fragment : Option (List Char)
  deriving DecidableEq

/-- The parts of what stands behind the scheme. -/
def FlakeParts.ofRest (scheme rest : List Char) : FlakeParts :=
  let (front, fragment) := cut '#' rest
  let (path, query) := cut '?' front
  { scheme, path, query, fragment }

/-- The parts of a reference with a scheme. -/
def FlakeParts.parse (flakeRef : String) : Option FlakeParts :=
  (Str.splitOnceChars [':'] flakeRef.toList).map fun r => ofRest r.1 r.2

/-- The pinned reference has the parts of the reference, with the revision behind the path. -/
def KeepsParts (req : EvalRequest) (rev : String) : Prop :=
  ∃ parts, FlakeParts.parse req.flakeRef = some parts ∧
    FlakeParts.parse (Evaluator.pinnedRef req) =
      some { parts with path := parts.path ++ '/' :: rev.toList }

lemma cut_of_not_mem {c : Char} {cs : List Char} (h : c ∉ cs) : cut c cs = (cs, none) := by
  rw [cut]
  split
  next front back hsplit =>
    obtain ⟨rfl, -⟩ := Str.splitOnceChars_singleton_eq_some.mp hsplit
    exact absurd (List.mem_append_right _ List.mem_cons_self) h
  next => rfl

lemma cut_append {c : Char} {front : List Char} (h : c ∉ front) (back : List Char) :
    cut c (front ++ c :: back) = (front, some back) := by
  rw [cut, Str.splitOnceChars_singleton_eq_some.mpr ⟨rfl, h⟩]

/-- What is written behind a text with a `c` is behind the first `c`. -/
lemma cut_append_of_mem {c : Char} {cs : List Char} (h : c ∈ cs) (ds : List Char) :
    ∃ front back, cut c cs = (front, some back) ∧
      cut c (cs ++ ds) = (front, some (back ++ ds)) := by
  obtain ⟨front, back, rfl, hfront⟩ := List.eq_append_cons_of_mem h
  refine ⟨front, back, cut_append hfront back, ?_⟩
  rw [List.append_assoc, List.cons_append]
  exact cut_append hfront _

/-! ## The pin -/

/-- The parts of a rest with a text without separators behind it are kept just when there is no
separator in it. -/
lemma ofRest_append_iff (scheme path : List Char) {pin : List Char} (hpin : pin ≠ [])
    (hquery : '?' ∉ pin) (hfragment : '#' ∉ pin) :
    FlakeParts.ofRest scheme (path ++ pin) =
        { FlakeParts.ofRest scheme path with path := (FlakeParts.ofRest scheme path).path ++ pin } ↔
      '?' ∉ path ∧ '#' ∉ path := by
  have hlonger : ∀ back : List Char, some (back ++ pin) ≠ some back := fun back heq =>
    hpin (List.append_right_eq_self.mp (Option.some.inj heq))
  by_cases hhash : '#' ∈ path
  · -- the fragment is pinned
    obtain ⟨front, back, hcut, hcut'⟩ := cut_append_of_mem hhash pin
    refine iff_of_false (fun h => hlonger back ?_) fun h => h.2 hhash
    have hparts := congrArg FlakeParts.fragment h
    simpa only [FlakeParts.ofRest, hcut, hcut'] using hparts
  have hnone : cut '#' path = (path, none) := cut_of_not_mem hhash
  have hnone' : cut '#' (path ++ pin) = (path ++ pin, none) := by
    refine cut_of_not_mem fun hmem => ?_
    exact (List.mem_append.mp hmem).elim hhash hfragment
  by_cases hmark : '?' ∈ path
  · -- the query is pinned
    obtain ⟨front, back, hcut, hcut'⟩ := cut_append_of_mem hmark pin
    refine iff_of_false (fun h => hlonger back ?_) fun h => h.1 hmark
    have hparts := congrArg FlakeParts.query h
    simpa only [FlakeParts.ofRest, hnone, hnone', hcut, hcut'] using hparts
  · have hmark' : '?' ∉ path ++ pin := fun hmem => (List.mem_append.mp hmem).elim hmark hquery
    refine iff_of_true ?_ ⟨hmark, hhash⟩
    simp only [FlakeParts.ofRest, hnone, hnone', cut_of_not_mem hmark, cut_of_not_mem hmark']

/-- The parts of a text with a scheme. -/
lemma FlakeParts.parse_eq {flakeRef : String} {scheme rest : List Char} (hcolon : ':' ∉ scheme)
    (h : flakeRef.toList = scheme ++ ':' :: rest) :
    parse flakeRef = some (.ofRest scheme rest) := by
  rw [parse, h, Str.splitOnceChars_singleton_eq_some.mpr ⟨rfl, hcolon⟩, Option.map_some]

/-- An accepted reference has a scheme, without separators. -/
lemma exists_scheme {flakeRef : String} (h : validateFlakeRef flakeRef = .ok ()) :
    ∃ scheme rest, flakeRef.toList = scheme ++ ':' :: rest ∧
      ':' ∉ scheme ∧ '?' ∉ scheme ∧ '#' ∉ scheme := by
  obtain ⟨c, scheme, rest, hchars, hc, hscheme, -, -⟩ := validateFlakeRef_eq_ok.mp h
  exact ⟨c :: scheme, rest, hchars, not_mem_scheme hc hscheme (by decide) (by decide),
    not_mem_scheme hc hscheme (by decide) (by decide),
    not_mem_scheme hc hscheme (by decide) (by decide)⟩

/-- An accepted revision has no separator. -/
lemma not_mem_revision {rev : String} (h : validateRevision rev = .ok ()) {d : Char}
    (hd : isHexDigit d = false) : d ∉ rev.toList := fun hmem =>
  Bool.false_ne_true (hd.symm.trans ((validateRevision_eq_ok.mp h).2.2 d hmem))

/-- **Which references keep their parts when they are pinned**: those without query parameters and
without a fragment. -/
theorem pinnedRef_keeps (req : EvalRequest) (rev : String) (hrevision : req.revision = some rev)
    (hflakeRef : validateFlakeRef req.flakeRef = .ok ()) (hrev : validateRevision rev = .ok ()) :
    KeepsParts req rev ↔ '?' ∉ req.flakeRef.toList ∧ '#' ∉ req.flakeRef.toList := by
  obtain ⟨scheme, rest, hchars, hcolon, hmark, hhash⟩ := exists_scheme hflakeRef
  have hpinned : (Evaluator.pinnedRef req).toList =
      scheme ++ ':' :: (rest ++ '/' :: rev.toList) := by
    simp [Evaluator.pinnedRef, hrevision, hchars]
  have hmem : ∀ d : Char, d ≠ ':' → d ∉ scheme → (d ∈ req.flakeRef.toList ↔ d ∈ rest) := by
    intro d hne hd
    rw [hchars, List.mem_append, or_iff_right hd, List.mem_cons, or_iff_right hne]
  have hpin : ∀ d : Char, d ≠ '/' → isHexDigit d = false → d ∉ '/' :: rev.toList :=
    fun d hne hd => List.not_mem_cons_of_ne_of_not_mem hne (not_mem_revision hrev hd)
  rw [hmem '?' (by decide) hmark, hmem '#' (by decide) hhash,
    ← ofRest_append_iff scheme rest (List.cons_ne_nil _ _) (hpin '?' (by decide) (by decide))
      (hpin '#' (by decide) (by decide)), KeepsParts, FlakeParts.parse_eq hcolon hchars,
    FlakeParts.parse_eq hcolon hpinned]
  simp only [Option.some.injEq, exists_eq_left']

/-- A reference without parameters, pinned. -/
theorem pinnedRef_keeps_app :
    KeepsParts ⟨"github:myorg/app", "hello", some "0123abcd", none⟩ "0123abcd" :=
  (pinnedRef_keeps _ _ rfl (by decide) (by decide)).mpr (by decide)

/-- The reference with query parameters of the tests, with a revision. -/
def queryRequest : EvalRequest :=
  ⟨"github:org/repo?dir=subdir&ref=main", "hello", some "abc123", none⟩

/-- **A revision that becomes part of a parameter**: the request is accepted, and what is evaluated
is another branch. -/
theorem pinnedRef_query :
    validateEvalRequest queryRequest = .ok () ∧
      FlakeParts.parse (Evaluator.pinnedRef queryRequest) =
        some { scheme := "github".toList, path := "org/repo".toList,
               query := some "dir=subdir&ref=main/abc123".toList, fragment := none } ∧
      ¬ KeepsParts queryRequest "abc123" := by
  have hparse : FlakeParts.parse (Evaluator.pinnedRef queryRequest) =
      some { scheme := "github".toList, path := "org/repo".toList,
             query := some "dir=subdir&ref=main/abc123".toList, fragment := none } := by
    decide +kernel
  refine ⟨by decide +kernel, hparse, ?_⟩
  rintro ⟨parts, hparts, hpinned⟩
  have horig : FlakeParts.parse queryRequest.flakeRef =
      some { scheme := "github".toList, path := "org/repo".toList,
             query := some "dir=subdir&ref=main".toList, fragment := none } := by
    decide +kernel
  rw [hparse, Option.some.injEq] at hpinned
  rw [horig, Option.some.injEq] at hparts
  subst hparts
  exact absurd (congrArg FlakeParts.query hpinned) (by decide +kernel)

end Niphas
