import Niphas.Lib.Str

/-!
# Tokens of Nix expressions

A reader for the lexical grammar of Nix, as an automaton: words, double-quoted strings with escapes
and interpolations, and the symbols `( ) { } . ; =`.  Text that needs anything else of the grammar
outside of a string (numbers, paths, URIs, comments, indented strings, operators) has no tokens
here, so that it is never misread.

The reader goes from left to right and keeps its state between two characters: which braces are
open, and whether it is in a word, in a string, or in neither.  An interpolation inside of a string
is read like any other text, up to the brace that ends it, so strings and braces nest.  Since the
state is all there is to know about what has been read, reading composes: a template with holes is
read by reading its fixed parts and what is put into the holes, each from the state it is reached
in.

* `tokens` — the tokens of a text.
* `Reads.append` — reading one text and then another is reading their concatenation.
* `reads_plain` — characters that neither end a string nor escape nor interpolate are its value.
* `reads_dotted` — names with dots in front are read as such.
-/

namespace NixTokens

/-- A token.  A string is a `quote`, its texts and interpolations, and a `quote`. -/
inductive Token where
  /-- An identifier or a keyword: both are made of the same characters. -/
  | word (name : String)
  | symbol (c : Char)
  | quote
  /-- A stretch of a string, with the values of its escapes. -/
  | text (value : String)
  | interpolation
  deriving DecidableEq, Repr

/-- What an open brace was opened for. -/
inductive Frame where
  | brace
  | interpolation
  deriving DecidableEq, Repr

/-- What is being read. -/
inductive Mode where
  /-- A word, or nothing yet. -/
  | code (word : List Char)
  /-- Nothing yet, behind a symbol that would be another one if it came twice. -/
  | behind (c : Char)
  | string (value : List Char)
  /-- A string, behind a backslash. -/
  | escape (value : List Char)
  /-- A string, behind a dollar sign. -/
  | dollar (value : List Char)
  deriving DecidableEq, Repr

/-- A state of the reader: the braces that are open, and what is being read. -/
structure State where
  frames : List Frame
  mode : Mode
  deriving DecidableEq, Repr

/-- The first character of a word. -/
def wordStart (c : Char) : Bool := c.isAlpha || c = '_'

/-- The other characters of a word. -/
def wordChar (c : Char) : Bool := c.isAlphanum || c = '_' || c = '-' || c = '\''

/-- White space of the grammar. -/
def isSpace (c : Char) : Bool := c = ' ' || c = '\t' || c = '\r' || c = '\n'

/-- The value of a character behind a backslash. -/
def unescape (c : Char) : Char :=
  if c = 'n' then '\n' else if c = 'r' then '\r' else if c = 't' then '\t' else c

/-- The token of the characters read so far, if there are any. -/
def flush (token : String → Token) (cs : List Char) : List Token :=
  if cs = [] then [] else [token (String.ofList cs)]

lemma flush_of_ne_nil (token : String → Token) {cs : List Char} (h : cs ≠ []) :
    flush token cs = [token (String.ofList cs)] := if_neg h

/-- A character outside of strings that does not belong to a word begun before. -/
def start (frames : List Frame) (c : Char) : Option (List Token × State) :=
  if wordStart c then some ([], ⟨frames, .code [c]⟩)
  else if isSpace c then some ([], ⟨frames, .code []⟩)
  else if c = '"' then some ([.quote], ⟨frames, .string []⟩)
  else if c = '{' then some ([.symbol c], ⟨.brace :: frames, .code []⟩)
  else if c = '}' then
    match frames with
    | [] => none
    | .brace :: frames => some ([.symbol c], ⟨frames, .code []⟩)
    | .interpolation :: frames => some ([.symbol c], ⟨frames, .string []⟩)
  else if c = '.' ∨ c = '=' then some ([.symbol c], ⟨frames, .behind c⟩)
  else if c = '(' ∨ c = ')' ∨ c = ';' then some ([.symbol c], ⟨frames, .code []⟩)
  else none

/-- A character of a string. -/
def stringStep (frames : List Frame) (value : List Char) (c : Char) : List Token × State :=
  if c = '"' then (flush .text value ++ [.quote], ⟨frames, .code []⟩)
  else if c = '\\' then ([], ⟨frames, .escape value⟩)
  else if c = '$' then ([], ⟨frames, .dollar value⟩)
  else ([], ⟨frames, .string (value ++ [c])⟩)

/-- One character: the tokens it ends, and the state behind it. -/
def step (s : State) (c : Char) : Option (List Token × State) :=
  match s.mode with
  | .code word =>
      if word ≠ [] ∧ wordChar c then some ([], ⟨s.frames, .code (word ++ [c])⟩)
      else (start s.frames c).map fun r => (flush .word word ++ r.1, r.2)
  | .behind d => if c = d then none else start s.frames c
  | .string value => some (stringStep s.frames value c)
  | .escape value => some ([], ⟨s.frames, .string (value ++ [unescape c])⟩)
  | .dollar value =>
      if c = '{' then
        some (flush .text value ++ [.interpolation], ⟨.interpolation :: s.frames, .code []⟩)
      -- a dollar sign takes the next character with it, unless that one ends or escapes
      else if c = '"' ∨ c = '\\' then some (stringStep s.frames (value ++ ['$']) c)
      else some ([], ⟨s.frames, .string (value ++ ['$', c])⟩)

/-- The characters of a text, one after the other. -/
def feed (s : State) : List Char → Option (List Token × State)
  | [] => some ([], s)
  | c :: cs =>
      match step s c with
      | none => none
      | some (ts, s') => (feed s' cs).map fun r => (ts ++ r.1, r.2)

/-- The end of a text: not inside of a string. -/
def finish (s : State) : Option (List Token) :=
  match s.mode with
  | .code word => some (flush .word word)
  | .behind _ => some []
  | _ => none

/-- The tokens of a text. -/
def tokens (s : String) : Option (List Token) :=
  match feed ⟨[], .code []⟩ s.toList with
  | none => none
  | some (ts, s') => (finish s').map (ts ++ ·)

example : tokens "a = \"x\\\"y ${ { b = c; } }\";" = some [.word "a", .symbol '=', .quote,
    .text "x\"y ", .interpolation, .symbol '{', .word "b", .symbol '=', .word "c", .symbol ';',
    .symbol '}', .symbol '}', .quote, .symbol ';'] := by decide

/-! ## Reading -/

/-- From the state `s` the text `cs` is read as the tokens `ts`, up to the state `s'`. -/
def Reads (s : State) (cs : List Char) (ts : List Token) (s' : State) : Prop :=
  feed s cs = some (ts, s')

variable {s s' s'' : State} {frames : List Frame} {cs cs' : List Char} {ts ts' : List Token}

lemma Reads.nil (s : State) : Reads s [] [] s := rfl

lemma Reads.cons {c : Char} (h : step s c = some (ts, s')) (h' : Reads s' cs ts' s'') :
    Reads s (c :: cs) (ts ++ ts') s'' := by
  rw [Reads] at h'
  simp only [Reads, feed, h, h', Option.map_some]

/-- Reading one text and then another is reading their concatenation. -/
lemma Reads.append (h : Reads s cs ts s') (h' : Reads s' cs' ts' s'') :
    Reads s (cs ++ cs') (ts ++ ts') s'' := by
  induction cs generalizing s ts with
  | nil =>
      cases h
      exact h'
  | cons c cs ih =>
      rw [Reads, feed] at h
      split at h
      · cases h
      · next us t hstep =>
        obtain ⟨⟨vs, t'⟩, hfeed, heq⟩ := Option.map_eq_some_iff.mp h
        cases heq
        rw [List.append_assoc]
        exact Reads.cons hstep (ih hfeed)

/-- What is read up to a word, or up to the end of one, are the tokens. -/
lemma tokens_of_reads {text : String} {word : List Char}
    (h : Reads ⟨[], .code []⟩ text.toList ts ⟨frames, .code word⟩) :
    tokens text = some (ts ++ flush .word word) := by
  rw [Reads] at h
  simp only [tokens, h, finish, Option.map_some]

/-- A character of a string that is just itself. -/
def Plain (c : Char) : Prop := c ≠ '"' ∧ c ≠ '\\' ∧ c ≠ '$'

/-- Plain characters are the value of a string. -/
lemma reads_plain (frames : List Frame) (value : List Char) (h : ∀ c ∈ cs, Plain c) :
    Reads ⟨frames, .string value⟩ cs [] ⟨frames, .string (value ++ cs)⟩ := by
  induction cs generalizing value with
  | nil =>
      rw [List.append_nil]
      exact Reads.nil _
  | cons c cs ih =>
      obtain ⟨⟨hquote, hescape, hdollar⟩, hcs⟩ := List.forall_mem_cons.mp h
      have hstep : step ⟨frames, .string value⟩ c
          = some ([], ⟨frames, .string (value ++ [c])⟩) := by
        simp only [step, stringStep, if_neg hquote, if_neg hescape, if_neg hdollar]
      have hrest := ih (value ++ [c]) hcs
      rw [List.append_assoc] at hrest
      exact Reads.cons hstep hrest

/-- More characters of a word. -/
lemma reads_wordChars (frames : List Frame) {word : List Char} (hword : word ≠ [])
    (h : ∀ c ∈ cs, wordChar c = true) :
    Reads ⟨frames, .code word⟩ cs [] ⟨frames, .code (word ++ cs)⟩ := by
  induction cs generalizing word with
  | nil =>
      rw [List.append_nil]
      exact Reads.nil _
  | cons c cs ih =>
      obtain ⟨hc, hcs⟩ := List.forall_mem_cons.mp h
      have hstep : step ⟨frames, .code word⟩ c = some ([], ⟨frames, .code (word ++ [c])⟩) := by
        simp only [step, if_pos (And.intro hword hc)]
      have hrest := ih (List.append_ne_nil_of_right_ne_nil word (List.cons_ne_nil c [])) hcs
      rw [List.append_assoc] at hrest
      exact Reads.cons hstep hrest

/-- A word: what its first and its other characters may be. -/
def IsWord (cs : List Char) : Prop :=
  ∃ c rest, cs = c :: rest ∧ wordStart c = true ∧ ∀ d ∈ rest, wordChar d = true

lemma IsWord.ne_nil (h : IsWord cs) : cs ≠ [] := by
  obtain ⟨c, rest, rfl, -⟩ := h
  exact List.cons_ne_nil c rest

/-- A character that is in no word ends the word. -/
lemma step_code {c : Char} (hc : wordChar c = false) (frames : List Frame) (word : List Char) :
    step ⟨frames, .code word⟩ c = (start frames c).map fun r => (flush .word word ++ r.1, r.2) := by
  have hno : ¬ (word ≠ [] ∧ wordChar c = true) := fun h =>
    Bool.false_ne_true (hc.symm.trans h.2)
  simp only [step, if_neg hno]

/-- A word behind a dot. -/
lemma reads_dot_word (frames : List Frame) (word : List Char) {name : List Char}
    (hname : IsWord name) :
    Reads ⟨frames, .code word⟩ ('.' :: name) (flush .word word ++ [.symbol '.'])
      ⟨frames, .code name⟩ := by
  obtain ⟨c, rest, rfl, hc, hrest⟩ := hname
  have hdot : step ⟨frames, .code word⟩ '.'
      = some (flush .word word ++ [.symbol '.'], ⟨frames, .behind '.'⟩) := step_code rfl frames word
  have hne : c ≠ '.' := by
    rintro rfl
    exact Bool.false_ne_true hc
  have hstart : step ⟨frames, .behind '.'⟩ c = some ([], ⟨frames, .code [c]⟩) := by
    simp only [step, if_neg hne, start, if_pos hc]
  have hword := reads_wordChars frames (List.cons_ne_nil c []) hrest
  have hread := Reads.cons hdot (Reads.cons hstart hword)
  rwa [List.append_nil, List.append_nil] at hread

/-- **Names with dots in front** are read as that; the last one is still being read. -/
lemma reads_dotted (frames : List Frame) {names : List (List Char)}
    (hnames : ∀ name ∈ names, IsWord name) (word : List Char) :
    ∃ ts last, Reads ⟨frames, .code word⟩ (names.flatMap ('.' :: ·)) ts ⟨frames, .code last⟩ ∧
      ts ++ flush .word last = flush .word word ++
        names.flatMap fun name => [.symbol '.', .word (String.ofList name)] := by
  induction names generalizing word with
  | nil => exact ⟨[], word, Reads.nil _, (List.append_nil _).symm⟩
  | cons name names ih =>
      obtain ⟨hname, hrest⟩ := List.forall_mem_cons.mp hnames
      obtain ⟨ts, last, hread, htokens⟩ := ih hrest name
      refine ⟨_, last, (reads_dot_word frames word hname).append hread, ?_⟩
      rw [List.append_assoc, htokens, flush_of_ne_nil _ hname.ne_nil, List.flatMap_cons,
        List.append_assoc]
      rfl

end NixTokens
