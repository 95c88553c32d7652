import Niphas.Lib.NixTokens
import Niphas.Eval.Request

/-!
# The expression given to Nix

The text the evaluator (`evaluator.rs`) builds from a request and hands to `nix eval`.  It has two
splice points: the flake reference inside of a string, and the attribute path behind it.

Whether a request can change what is evaluated is a question about the tokens of this text, not
about its characters.  `NixTokens` has the part of the lexical grammar of Nix that the template
uses, as a reader that rejects everything else.  The theorem gives the tokens of the whole text, for
every accepted request: those of the template, with one string token that has the reference as its
value, and one name for each segment of the attribute.  So no quote, no escape and no interpolation
gets out of the string, and nothing but names gets into the path.

That the validators are strict enough for this is where the proof begins: the characters they let
through are none of the few that matter (`unsafeChars`).

* `nixExpr_tokens` — an accepted request fills in the value of the string and the names of the path,
  and changes no other token.
-/

namespace Niphas

namespace Evaluator

open NixTokens

/-! ## The text -/

/-- The flake reference with the revision, if there is one. -/
def pinnedRef (req : EvalRequest) : String :=
  match req.revision with
  | some rev => req.flakeRef ++ "/" ++ rev
  | none => req.flakeRef

/-- The template up to the flake reference. -/
def exprHead : String := "let drv = (builtins.getFlake \""

/-- The template behind the attribute and its semicolon. -/
def exprTail : String :=
  " in builtins.toJSON \x7b\n                outPath = drv.outPath;\n" ++
  "                name = drv.name;\n" ++
  "                mainProgram = drv.meta.mainProgram or null;\n            \x7d"

/-- The text of `nix_eval`. -/
def nixExpr (pinnedRef «attribute» : String) : String :=
  exprHead ++ pinnedRef ++ "\")." ++ «attribute» ++ ";" ++ exprTail

/-! ## The fixed tokens -/

/-- The tokens in front of the flake reference. -/
def headTokens : List Token :=
  [.word "let", .word "drv", .symbol '=', .symbol '(', .word "builtins", .symbol '.',
    .word "getFlake"]

/-- The tokens behind the attribute and its semicolon. -/
def tailTokens : List Token :=
  [.word "in", .word "builtins", .symbol '.', .word "toJSON", .symbol '{',
    .word "outPath", .symbol '=', .word "drv", .symbol '.', .word "outPath", .symbol ';',
    .word "name", .symbol '=', .word "drv", .symbol '.', .word "name", .symbol ';',
    .word "mainProgram", .symbol '=', .word "drv", .symbol '.', .word "meta", .symbol '.',
    .word "mainProgram", .word "or", .word "null", .symbol ';', .symbol '}']

lemma reads_exprHead :
    Reads ⟨[], .code []⟩ exprHead.toList (headTokens ++ [.quote]) ⟨[], .string []⟩ := by
  unfold Reads
  decide

lemma reads_exprTail :
    Reads ⟨[], .code []⟩ exprTail.toList tailTokens ⟨[], .code []⟩ := by
  unfold Reads
  decide +kernel

/-! ## The tokens of an accepted request -/

/-- An identifier of an attribute path is a word of Nix. -/
lemma isWord_of_isAttrName {cs : List Char} (h : IsAttrName cs) : IsWord cs := by
  obtain ⟨c, rest, rfl, hc, hrest⟩ := h
  refine ⟨c, rest, rfl, hc, fun d hd => ?_⟩
  rw [wordChar]
  exact Bool.or_eq_true_iff.mpr (Or.inl (hrest d hd))

/-- What no part of a request may contain. -/
def unsafeChars : List Char := ['"', '\\', '$', ')']

lemma not_mem_unsafeChars {allowed : Char → Bool}
    (hallowed : ∀ c ∈ unsafeChars, allowed c = false) {c : Char} (h : allowed c = true) :
    c ∉ unsafeChars := fun hmem => Bool.false_ne_true ((hallowed c hmem).symm.trans h)

lemma plain_of_not_mem {c : Char} (h : c ∉ unsafeChars) : Plain c := by
  refine ⟨?_, ?_, ?_⟩
  all_goals
    rintro rfl
    exact h (by decide)

/-- An accepted flake reference, with an accepted revision or without, has no unsafe character. -/
lemma not_mem_unsafeChars_pinnedRef {req : EvalRequest} (h : validateEvalRequest req = .ok ()) :
    ∀ c ∈ (pinnedRef req).toList, c ∉ unsafeChars := by
  obtain ⟨hflake, -, hrevision⟩ := validateEvalRequest_eq_ok.mp h
  have hflakeRef : ∀ c ∈ req.flakeRef.toList, c ∉ unsafeChars := by
    obtain ⟨c, scheme, path, hlist, hc, hscheme, -, hpath⟩ := validateFlakeRef_eq_ok.mp hflake
    intro d hd
    rw [hlist, List.mem_cons, List.mem_append, List.mem_cons] at hd
    rcases hd with rfl | hd | rfl | hd
    · exact @not_mem_unsafeChars Char.isAlpha (by decide) _ hc
    · exact not_mem_unsafeChars (by decide) (hscheme d hd)
    · decide
    · exact not_mem_unsafeChars (by decide) (hpath d hd)
  rw [pinnedRef]
  cases hrev : req.revision with
  | none => exact hflakeRef
  | some rev =>
      have hdigits := (validateRevision_eq_ok.mp (hrevision rev hrev)).2.2
      intro c hc
      rw [String.toList_append, String.toList_append, List.mem_append, List.mem_append] at hc
      rcases hc with (hc | hc) | hc
      · exact hflakeRef c hc
      · cases List.mem_singleton.mp hc
        decide
      · exact not_mem_unsafeChars (by decide) (hdigits c hc)

lemma flush_pinnedRef {req : EvalRequest} (h : validateEvalRequest req = .ok ()) :
    flush .text (pinnedRef req).toList = [.text (pinnedRef req)] := by
  have hne : (pinnedRef req).toList ≠ [] := by
    obtain ⟨c, scheme, path, hlist, -⟩ :=
      validateFlakeRef_eq_ok.mp (validateEvalRequest_eq_ok.mp h).1
    rw [pinnedRef]
    cases req.revision with
    | none => simp [hlist]
    | some rev => simp [String.toList_append, hlist]
  rw [flush_of_ne_nil _ hne, String.ofList_toList]

/-- The template up to the quote behind the flake reference. -/
lemma reads_argument {req : EvalRequest} (h : validateEvalRequest req = .ok ()) :
    Reads ⟨[], .code []⟩ (exprHead ++ pinnedRef req ++ "\"").toList
      (headTokens ++ [.quote, .text (pinnedRef req), .quote]) ⟨[], .code []⟩ := by
  have hplain := reads_plain [] [] fun c hc =>
    plain_of_not_mem (not_mem_unsafeChars_pinnedRef h c hc)
  have hquote : Reads ⟨[], .string (pinnedRef req).toList⟩ ['"']
      [.text (pinnedRef req), .quote] ⟨[], .code []⟩ := by
    have hstep : step ⟨[], .string (pinnedRef req).toList⟩ '"'
        = some (flush .text (pinnedRef req).toList ++ [.quote], ⟨[], .code []⟩) := rfl
    rw [flush_pinnedRef h] at hstep
    exact Reads.cons hstep (Reads.nil _)
  have hread := (reads_exprHead.append hplain).append hquote
  rw [List.append_nil, List.append_assoc] at hread
  rw [String.toList_append, String.toList_append]
  exact hread

/-- The names of an accepted attribute. -/
lemma isAttrName_of_mem_split {«attribute» : String} (h : validateAttribute «attribute» = .ok ()) :
    ∀ name ∈ Str.split '.' «attribute», IsAttrName name.toList := by
  intro name hname
  obtain ⟨cs, hcs, rfl⟩ := List.mem_map.mp hname
  rw [String.toList_ofList]
  exact validateAttribute_eq_ok.mp h cs hcs

lemma not_mem_attribute {«attribute» : String} (h : validateAttribute «attribute» = .ok ()) :
    ';' ∉ «attribute».toList := by
  obtain ⟨piece, rest, hsplit, hchars⟩ := Str.splitChars_eq_cons '.' «attribute».toList
  have hname : ∀ name ∈ piece :: rest, ';' ∉ name := by
    intro name hmem
    obtain ⟨c, cs, rfl, hc, hcs⟩ := validateAttribute_eq_ok.mp h name (hsplit ▸ hmem)
    rw [List.mem_cons]
    rintro (rfl | hmem)
    · exact absurd hc (by decide)
    · exact absurd (hcs _ hmem) (by decide)
  rw [hchars, List.mem_append, List.mem_flatMap]
  rintro (hmem | ⟨name, hrest, hmem⟩)
  · exact hname piece List.mem_cons_self hmem
  · rcases List.mem_cons.mp hmem with heq | hmem
    · cases heq
    · exact hname name (List.mem_cons_of_mem piece hrest) hmem

/-- The dot and the attribute. -/
lemma reads_attribute {«attribute» : String} (h : validateAttribute «attribute» = .ok ()) :
    ∃ ts last, Reads ⟨[], .code []⟩ ('.' :: «attribute».toList) ts ⟨[], .code last⟩ ∧
      ts ++ flush .word last =
        (Str.split '.' «attribute»).flatMap fun name => [.symbol '.', .word name] := by
  obtain ⟨piece, rest, hsplit, hchars⟩ := Str.splitChars_eq_cons '.' «attribute».toList
  have hnames : ∀ name ∈ Str.splitChars (· = '.') «attribute».toList, IsWord name :=
    fun name hname =>
    isWord_of_isAttrName (validateAttribute_eq_ok.mp h name hname)
  obtain ⟨ts, last, hread, htokens⟩ := reads_dotted [] hnames []
  have htext : (Str.splitChars (· = '.') «attribute».toList).flatMap ('.' :: ·)
      = '.' :: «attribute».toList := by
    rw [hsplit, List.flatMap_cons, List.cons_append, ← hchars]
  rw [htext] at hread
  refine ⟨ts, last, hread, htokens.trans ?_⟩
  rw [Str.split, List.flatMap_map]
  rfl

/-- **What an accepted request can change**: the value of the one string, and the names of the
attribute path.  The text between the first `).` and the next `;` is the attribute. -/
theorem nixExpr_tokens {req : EvalRequest} (h : validateEvalRequest req = .ok ()) :
    tokens (nixExpr (pinnedRef req) req.«attribute») =
        some (headTokens ++ [.quote, .text (pinnedRef req), .quote] ++ [.symbol ')'] ++
          ((Str.split '.' req.«attribute»).flatMap fun name => [.symbol '.', .word name]) ++
          [.symbol ';'] ++ tailTokens) ∧
      (∀ name ∈ Str.split '.' req.«attribute», IsAttrName name.toList) ∧
      ∃ argument rest tail,
        Str.splitOnce ")." (nixExpr (pinnedRef req) req.«attribute») = some (argument, rest) ∧
          tokens argument = some (headTokens ++ [.quote, .text (pinnedRef req), .quote]) ∧
          Str.splitOnce ";" rest = some (req.«attribute», tail) := by
  obtain ⟨-, hattr, -⟩ := validateEvalRequest_eq_ok.mp h
  have hargument := reads_argument h
  refine ⟨?_, isAttrName_of_mem_split hattr, ?_⟩
  · have hparen : Reads ⟨[], .code []⟩ [')'] [.symbol ')'] ⟨[], .code []⟩ := rfl
    obtain ⟨ts, last, hread, htokens⟩ := reads_attribute hattr
    have hsemicolon : Reads ⟨[], .code last⟩ [';'] (flush .word last ++ [.symbol ';'])
        ⟨[], .code []⟩ := by
      have hstep : step ⟨[], .code last⟩ ';'
          = some (flush .word last ++ [.symbol ';'], ⟨[], .code []⟩) := step_code rfl [] last
      have hread := Reads.cons hstep (Reads.nil _)
      rwa [List.append_nil] at hread
    have hall := (((hargument.append hparen).append hread).append hsemicolon).append reads_exprTail
    have htext : (nixExpr (pinnedRef req) req.«attribute»).toList =
        (exprHead ++ pinnedRef req ++ "\"").toList ++ [')'] ++ ('.' :: req.«attribute».toList) ++
          [';'] ++ exprTail.toList := by
      simp [nixExpr]
    rw [← htext] at hall
    rw [tokens_of_reads hall, ← htokens]
    simp [flush]
  · refine ⟨exprHead ++ pinnedRef req ++ "\"", req.«attribute» ++ (";" ++ exprTail), exprTail,
      ?_, ?_, Str.splitOnce_append rfl (not_mem_attribute hattr) exprTail⟩
    · have hno : ')' ∉ (exprHead ++ pinnedRef req ++ "\"").toList := by
        rw [String.toList_append, String.toList_append, List.mem_append, List.mem_append]
        rintro ((hmem | hmem) | hmem)
        · exact absurd hmem (by decide)
        · exact not_mem_unsafeChars_pinnedRef h _ hmem (by decide)
        · exact absurd hmem (by decide)
      have htext : nixExpr (pinnedRef req) req.«attribute» =
          exprHead ++ pinnedRef req ++ "\"" ++
            (")." ++ (req.«attribute» ++ (";" ++ exprTail))) := by
        rw [← String.toList_inj]
        simp [nixExpr]
      rw [htext]
      exact Str.splitOnce_append rfl hno _
    · rw [tokens_of_reads hargument]
      rfl

/-- A request with a revision and an attribute path of two names. -/
theorem nixExpr_tokens_hello :
    validateEvalRequest ⟨"github:myorg/app", "packages.hello", some "0123abcd", none⟩ = .ok () ∧
      tokens (nixExpr "github:myorg/app/0123abcd" "packages.hello") =
        some (headTokens ++
          [.quote, .text "github:myorg/app/0123abcd", .quote, .symbol ')', .symbol '.',
            .word "packages", .symbol '.', .word "hello", .symbol ';'] ++ tailTokens) := by
  have hok : validateEvalRequest ⟨"github:myorg/app", "packages.hello", some "0123abcd", none⟩
      = .ok () := by decide
  exact ⟨hok, (nixExpr_tokens hok).1⟩

end Evaluator

end Niphas
