import Niphas.Eval.Request
import Niphas.Lib.Grammar

/-!
# The grammars of a request

The regular languages that the comments of `eval.rs` give for the parts of a request, and that its
validators accept them and nothing else.

The comments have regular expressions, and so have the definitions here: languages over characters,
put together by concatenation, repetition and separation as in `Grammar`, with each character class
as it is written.  The validators are loops over characters, with a case of their own for the first
one and one for each segment.  The two are compared over all strings, also over those with
characters outside of ASCII, where a class of the code and one of a comment might differ.

`validate_attribute` has an `unreachable!()`, for a segment without a first character.  It is
written as a panic here, and the theorem says that it is not reached.

* `validators_accept` — each validator and its grammar.
-/

namespace Niphas

open Grammar Computability

/-! ## The grammars -/

/-- `[a-zA-Z]`. -/
def letterClass : Char → Prop := InClass [('a', 'z'), ('A', 'Z')] []

/-- `[a-zA-Z0-9+.-]`. -/
def schemeClass : Char → Prop := InClass [('a', 'z'), ('A', 'Z'), ('0', '9')] ['+', '-', '.']

/-- `[a-zA-Z0-9/_.@:#+?=&~-]`. -/
def pathClass : Char → Prop :=
  InClass [('a', 'z'), ('A', 'Z'), ('0', '9')]
    ['/', '_', '-', '.', '@', ':', '#', '+', '?', '=', '&', '~']

/-- `[a-zA-Z_]`. -/
def nameStartClass : Char → Prop := InClass [('a', 'z'), ('A', 'Z')] ['_']

/-- `[a-zA-Z0-9_-]`. -/
def nameClass : Char → Prop := InClass [('a', 'z'), ('A', 'Z'), ('0', '9')] ['_', '-']

/-- `[0-9a-fA-F]`. -/
def hexClass : Char → Prop := InClass [('0', '9'), ('a', 'f'), ('A', 'F')] []

/-- `[a-zA-Z][a-zA-Z0-9+.-]*:[a-zA-Z0-9/_.@:#+?=&~-]+`. -/
def flakeRefGrammar : Language Char :=
  one letterClass * ((one schemeClass)∗ * ({[':']} * (one pathClass * (one pathClass)∗)))

/-- `[a-zA-Z_][a-zA-Z0-9_-]*`, with dots between them. -/
def attributeGrammar : Language Char := sepBy '.' (one nameStartClass * (one nameClass)∗)

/-- `[0-9a-fA-F]{6,40}`. -/
def revisionGrammar : Language Char := {w | ∃ n, 6 ≤ n ∧ n ≤ 40 ∧ w ∈ one hexClass ^ n}

/-! ## The classes in the code -/

lemma isAlpha_iff (c : Char) : c.isAlpha = true ↔ ('a' ≤ c ∧ c ≤ 'z') ∨ 'A' ≤ c ∧ c ≤ 'Z' := by
  have hclass : c.isAlpha = (decide (c.val ≥ 'A'.val ∧ c.val ≤ 'Z'.val) ||
      (decide (c.val ≥ 'a'.val) && decide (c.val ≤ 'z'.val))) := rfl
  simp only [hclass, Bool.or_eq_true, Bool.and_eq_true, decide_eq_true_eq]
  exact or_comm

lemma isDigit_iff (c : Char) : c.isDigit = true ↔ '0' ≤ c ∧ c ≤ '9' := by
  have hclass : c.isDigit = (decide (c.val ≥ '0'.val) && decide (c.val ≤ '9'.val)) := rfl
  simp only [hclass, Bool.and_eq_true, decide_eq_true_eq]
  exact Iff.rfl

/-- A class with all letters. -/
lemma inClass_alpha_iff (others : List Char) (c : Char) :
    InClass [('a', 'z'), ('A', 'Z')] others c ↔ c.isAlpha = true ∨ c ∈ others := by
  rw [isAlpha_iff]
  simp [InClass]

/-- A class with all letters and digits. -/
lemma inClass_alphanum_iff (others : List Char) (c : Char) :
    InClass [('a', 'z'), ('A', 'Z'), ('0', '9')] others c ↔ c.isAlphanum = true ∨ c ∈ others := by
  rw [Char.isAlphanum, Bool.or_eq_true, isAlpha_iff, isDigit_iff]
  simp [InClass, or_assoc]

lemma letterClass_iff (c : Char) : letterClass c ↔ c.isAlpha = true := by
  simp [letterClass, inClass_alpha_iff]

lemma schemeClass_iff (c : Char) : schemeClass c ↔ schemeChar c = true := by
  simp [schemeClass, inClass_alphanum_iff, schemeChar, or_assoc]

lemma pathClass_iff (c : Char) : pathClass c ↔ flakePathChar c = true := by
  simp [pathClass, inClass_alphanum_iff, flakePathChar, or_assoc]

lemma nameStartClass_iff (c : Char) : nameStartClass c ↔ attrStart c = true := by
  simp [nameStartClass, inClass_alpha_iff, attrStart]

lemma nameClass_iff (c : Char) : nameClass c ↔ attrChar c = true := by
  simp [nameClass, inClass_alphanum_iff, attrChar, or_assoc]

lemma hexClass_iff (c : Char) : hexClass c ↔ isHexDigit c = true := by
  simp only [isHexDigit, Bool.or_eq_true, Bool.and_eq_true, isDigit_iff]
  simp [hexClass, InClass, or_assoc]

/-! ## The loop of `validate_attribute` -/

/-- The body of the loop, with the `unreachable!()` for a segment without a first character. -/
def validateSegment («attribute» segment : String) : Result Unit :=
  if segment = "" then
    fail (.invalidInput ("attribute contains empty segment: '" ++ «attribute» ++ "'"))
  else
    match segment.toList with
    | c :: cs =>
        if attrStart c then
          Result.ofExcept (checkChars attrChar (fun c => "attribute contains invalid character '" ++
            String.singleton c ++ "': '" ++ «attribute» ++ "'") cs)
        else
          fail (.invalidInput ("attribute segment must start with letter or '_', got '" ++
            String.singleton c ++ "': '" ++ «attribute» ++ "'"))
    | [] => .error .panic

/-- `validate_attribute`, as a loop over the pieces of the string. -/
def validateAttributeLoop («attribute» : String) : Result Unit :=
  if «attribute» = "" then fail (.invalidInput "attribute must not be empty")
  else (Str.split '.' «attribute»).forM (validateSegment «attribute»)

lemma validateSegment_eq («attribute» : String) (cs : List Char) :
    validateSegment «attribute» (String.ofList cs) =
      Result.ofExcept (checkSegment «attribute» cs) := by
  rw [validateSegment, String.toList_ofList]
  cases cs with
  | nil => rfl
  | cons c cs =>
      have hne : String.ofList (c :: cs) ≠ "" := by
        rw [ne_eq, String.ofList_eq_empty_iff]
        exact List.cons_ne_nil c cs
      rw [if_neg hne, checkSegment]
      show (if attrStart c then _ else _) = _
      split <;> rfl

/-- **The `unreachable!()` is not reached**: the loop is the check without it. -/
lemma validateAttributeLoop_eq («attribute» : String) :
    validateAttributeLoop «attribute» = Result.ofExcept (validateAttribute «attribute») := by
  have hloop : ∀ segments : List (List Char),
      (segments.map String.ofList).forM (validateSegment «attribute») =
        Result.ofExcept (checkSegments «attribute» segments) := by
    intro segments
    induction segments with
    | nil => rfl
    | cons segment rest ih =>
        show (validateSegment «attribute» (String.ofList segment) >>= fun _ =>
          (rest.map String.ofList).forM (validateSegment «attribute»)) = _
        rw [validateSegment_eq, checkSegments, ih]
        cases checkSegment «attribute» segment <;> rfl
  rw [validateAttributeLoop, validateAttribute]
  split
  · rfl
  · exact hloop _

/-! ## The result -/

lemma mem_flakeRefGrammar {w : List Char} :
    w ∈ flakeRefGrammar ↔ ∃ c scheme path, w = c :: (scheme ++ ':' :: path) ∧ letterClass c ∧
      (∀ d ∈ scheme, schemeClass d) ∧ path ≠ [] ∧ ∀ d ∈ path, pathClass d := by
  have hpath : ∀ path : List Char, path ∈ one pathClass * (one pathClass)∗ ↔
      path ≠ [] ∧ ∀ d ∈ path, pathClass d := by
    intro path
    rw [mem_one_mul]
    constructor
    · rintro ⟨c, v, rfl, hc, hv⟩
      exact ⟨List.cons_ne_nil c v, List.forall_mem_cons.mpr ⟨hc, mem_star_one.mp hv⟩⟩
    · rintro ⟨hne, hall⟩
      obtain ⟨c, v, rfl⟩ := List.exists_cons_of_ne_nil hne
      obtain ⟨hc, hv⟩ := List.forall_mem_cons.mp hall
      exact ⟨c, v, rfl, hc, mem_star_one.mpr hv⟩
  rw [flakeRefGrammar, mem_one_mul]
  constructor
  · rintro ⟨c, _, rfl, hc, hrest⟩
    obtain ⟨scheme, hscheme, _, hcolon, rfl⟩ := Language.mem_mul.mp hrest
    obtain ⟨path, rfl, hp⟩ := mem_literal_mul.mp hcolon
    exact ⟨c, scheme, path, rfl, hc, mem_star_one.mp hscheme, (hpath path).mp hp⟩
  · rintro ⟨c, scheme, path, rfl, hc, hscheme, hp⟩
    have hcolon : ':' :: path ∈ ({[':']} : Language Char) * (one pathClass * (one pathClass)∗) :=
      mem_literal_mul.mpr ⟨path, rfl, (hpath path).mpr hp⟩
    exact ⟨c, _, rfl, hc, Language.mem_mul.mpr ⟨scheme, mem_star_one.mpr hscheme, _, hcolon, rfl⟩⟩

/-- A name has no dot in it. -/
lemma dot_not_mem_name {w : List Char} (h : IsAttrName w) : '.' ∉ w := by
  obtain ⟨c, rest, rfl, hc, hrest⟩ := h
  intro hmem
  rcases List.mem_cons.mp hmem with rfl | hmem
  · exact absurd hc (by decide)
  · exact absurd (hrest '.' hmem) (by decide)

lemma mem_name {w : List Char} : w ∈ one nameStartClass * (one nameClass)∗ ↔ IsAttrName w := by
  rw [mem_one_mul, IsAttrName]
  simp only [mem_star_one, nameStartClass_iff, nameClass_iff]

/-- A hexadecimal digit is one byte. -/
lemma utf8Size_of_isHexDigit {c : Char} (h : isHexDigit c = true) : c.utf8Size = 1 := by
  have hmax : ∀ r ∈ [('0', '9'), ('a', 'f'), ('A', 'F')], r.2 ≤ 'f' := by decide
  have hle : c ≤ 'f' := by
    rcases (hexClass_iff c).mpr h with ⟨r, hr, -, hle⟩ | hmem
    · exact Char.le_trans hle (hmax r hr)
    · cases hmem
  have hval : c.val ≤ 127 := UInt32.le_trans (Char.le_def.mp hle) (by decide)
  exact Char.utf8Size_eq_one_iff.mpr hval

lemma mem_revisionGrammar {s : String} :
    s.toList ∈ revisionGrammar ↔ 6 ≤ (Bytes.utf8 s).length ∧ (Bytes.utf8 s).length ≤ 40 ∧
      ∀ c ∈ s.toList, isHexDigit c = true := by
  have hlen : (∀ c ∈ s.toList, isHexDigit c = true) → (Bytes.utf8 s).length = s.toList.length := by
    intro hhex
    have hofList := Bytes.length_utf8_ofList fun c hc => utf8Size_of_isHexDigit (hhex c hc)
    rwa [String.ofList_toList] at hofList
  constructor
  · rintro ⟨n, hmin, hmax, hmem⟩
    obtain ⟨rfl, hall⟩ := mem_pow_one.mp hmem
    have hhex : ∀ c ∈ s.toList, isHexDigit c = true := fun c hc => (hexClass_iff c).mp (hall c hc)
    rw [hlen hhex]
    exact ⟨hmin, hmax, hhex⟩
  · rintro ⟨hmin, hmax, hhex⟩
    rw [hlen hhex] at hmin hmax
    exact ⟨_, hmin, hmax, mem_pow_one.mpr ⟨rfl, fun c hc => (hexClass_iff c).mpr (hhex c hc)⟩⟩

/-- **The validators accept their grammars**, for all strings, and none of them panics. -/
theorem validators_accept :
    (∀ s, validateFlakeRef s = .ok () ↔ s.toList ∈ flakeRefGrammar) ∧
    (∀ s, validateAttribute s = .ok () ↔ s.toList ∈ attributeGrammar) ∧
    (∀ s, validateAttributeLoop s = Result.ofExcept (validateAttribute s) ∧
      validateAttributeLoop s ≠ .error .panic) ∧
    ∀ s, validateRevision s = .ok () ↔ s.toList ∈ revisionGrammar := by
  refine ⟨fun s => ?_, fun s => ?_, fun s => ⟨validateAttributeLoop_eq s, ?_⟩, fun s => ?_⟩
  · rw [validateFlakeRef_eq_ok, mem_flakeRefGrammar]
    simp only [letterClass_iff, schemeClass_iff, pathClass_iff]
  · rw [validateAttribute_eq_ok, attributeGrammar,
      mem_sepBy fun w hw => dot_not_mem_name (mem_name.mp hw)]
    simp only [mem_name]
  · rw [validateAttributeLoop_eq]
    cases validateAttribute s <;> exact fun h => by cases h
  · rw [validateRevision_eq_ok, mem_revisionGrammar]

end Niphas
