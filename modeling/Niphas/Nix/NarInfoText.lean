import Niphas.Lib.Render
import Niphas.Nix.NarInfo

/-!
# The text of a `.narinfo` file

A `.narinfo` file as a cache serves it, and what the parser makes of it: one `Key: value` line for
each field there is, with the line of the references also where there are none.

The repository has no writer for this format, only a reader.  So what is "read back" has to be given
here: `render` is the file that Nix itself writes for a value, with its keys in their order.  The
values for which the question makes sense are `Renderable`.  A field that stands on a line has no
line feed in it and no white space around it, a signature is the base64 of 64 bytes as the library
decodes it, and the sizes fit into 64 bits.  These are properties of what is served, and no more
than the text format needs.

The parser splits a line at its first `": "`, after it has trimmed the line.  Where the list of the
references is empty, the blank behind the colon is gone by then.

* `parse_render` — a file is read back as the value it was written from, unless there are no
  references: the line `References: ` is then trimmed to one without a separator.
-/

namespace Niphas

open Str

/-! ## Base64 -/

/-- The alphabet of base64. -/
def base64Chars : List Char :=
  "ABCDEFGHIJKLMNOPQRSTUVWXYZabcdefghijklmnopqrstuvwxyz0123456789+/".toList

/-- The digit of six bits. -/
def sextet (n : ℕ) : Char := base64Chars.getD (n % 64) '='

/-- Base64 with padding: four digits for three bytes. -/
def base64Chunks : List UInt8 → List Char
  | a :: b :: c :: rest =>
      let n := a.toNat * 65536 + b.toNat * 256 + c.toNat
      sextet (n / 262144) :: sextet (n / 4096) :: sextet (n / 64) :: sextet n :: base64Chunks rest
  | [a, b] =>
      let n := a.toNat * 65536 + b.toNat * 256
      [sextet (n / 262144), sextet (n / 4096), sextet (n / 64), '=']
  | [a] =>
      let n := a.toNat * 65536
      [sextet (n / 262144), sextet (n / 4096), '=', '=']
  | [] => []

/-- `STANDARD.encode`. -/
def base64Encode (bs : List UInt8) : String := String.ofList (base64Chunks bs)

example : base64Encode [77, 97, 110, 77, 97] = "TWFuTWE=" := by decide

lemma isWhitespace_sextet (n : ℕ) : isWhitespace (sextet n) = false := by
  have hall : ∀ c ∈ '=' :: base64Chars, isWhitespace c = false := by decide
  refine hall _ ?_
  rw [sextet, List.getD_eq_getElem?_getD]
  cases h : base64Chars[n % 64]? with
  | none => exact List.mem_cons_self
  | some c => exact List.mem_cons_of_mem _ (List.mem_of_getElem? h)

lemma isWhitespace_base64Chunks : ∀ bs : List UInt8, ∀ c ∈ base64Chunks bs, isWhitespace c = false
  | a :: b :: c :: rest => by
      have ih := isWhitespace_base64Chunks rest
      simpa only [base64Chunks, List.forall_mem_cons, isWhitespace_sextet, true_and] using ih
  | [a, b] => by
      simp only [base64Chunks, List.forall_mem_cons, isWhitespace_sextet, true_and]
      exact ⟨by decide, nofun⟩
  | [a] => by
      simp only [base64Chunks, List.forall_mem_cons, isWhitespace_sextet, true_and]
      exact ⟨by decide, by decide, nofun⟩
  | [] => nofun

namespace NarInfo

/-! ## Rendering -/

/-- One line of the file. -/
def field (key value : String) : String := key ++ ": " ++ value

/-- The value of a `Sig` line. -/
def renderSignature (sig : NarSignature) : String :=
  sig.keyName ++ ":" ++ base64Encode sig.signature

/-- The value of the `References` line. -/
def renderReferences (references : List StorePathRef) : String :=
  String.intercalate " " (references.map (·.val))

/-- The lines before the references. -/
def headLines (info : NarInfo) : List String :=
  [field "StorePath" info.storePath.toString, field "URL" info.url,
    field "Compression" info.compression.toString, field "FileHash" info.fileHash.toString,
    field "FileSize" (Nat.repr info.fileSize), field "NarHash" info.narHash.toString,
    field "NarSize" (Nat.repr info.narSize)]

/-- The lines behind the references. -/
def tailLines (info : NarInfo) : List String :=
  info.deriver.toList.map (field "Deriver") ++
    info.signatures.map (fun sig => field "Sig" (renderSignature sig)) ++
    info.ca.toList.map (field "CA")

/-- The file. -/
def render (info : NarInfo) : String :=
  unlines (info.headLines ++ field "References" (renderReferences info.references) ::
    info.tailLines)

/-! ## Values that stand on a line

The conditions are on the fields as texts.  Store paths, hashes and numbers meet them by themselves;
a URL, a deriver, a content address and the name of a key need not.
-/

/-- A text that is read back from behind a key: not empty, on one line, without white space around
it. -/
structure IsValue (s : String) : Prop where
  ne_empty : s ≠ ""
  newline : '\n' ∉ s.toList
  trimmed : Trimmed s.toList

/-- What of the fields of a `NarInfo` the text format relies on; the sizes are `u64`. -/
structure Renderable (lib : Crypto) (info : NarInfo) : Prop where
  name : IsValue info.storePath.name
  url : IsValue info.url
  fileHash : info.fileHash.digest.length = info.fileHash.algo.digestLen
  fileSize : info.fileSize < 2 ^ 64
  narHash : info.narHash.digest.length = info.narHash.algo.digestLen
  narSize : info.narSize < 2 ^ 64
  references : ∀ r ∈ info.references, ∀ c ∈ r.val.toList, isWhitespace c = false
  deriver : ∀ d, info.deriver = some d → IsValue d
  signatures : ∀ sig ∈ info.signatures, IsValue sig.keyName ∧ ':' ∉ sig.keyName.toList ∧
    lib.base64Decode (base64Encode sig.signature) = .ok sig.signature
  ca : ∀ ca, info.ca = some ca → IsValue ca

lemma IsValue.of_forall {s : String} (hs : s ≠ "")
    (h : ∀ c ∈ s.toList, isWhitespace c = false) : IsValue s := by
  refine ⟨hs, fun hmem => absurd (h _ hmem) (by decide), ?_, ?_⟩
  · exact fun c hc => h c (List.mem_of_head? hc)
  · exact fun c hc => h c (List.mem_of_getLast? hc)

/-- A value stays one when a text without white space at its front is put before it. -/
lemma IsValue.append {s t : String} (hs : s ≠ "") (hnewline : '\n' ∉ s.toList)
    (hhead : ∀ c, s.toList.head? = some c → isWhitespace c = false) (ht : IsValue t) :
    IsValue (s ++ t) := by
  have hs' : s.toList ≠ [] := mt String.toList_eq_nil_iff.mp hs
  have ht' : t.toList ≠ [] := mt String.toList_eq_nil_iff.mp ht.ne_empty
  refine ⟨?_, ?_, ?_⟩
  · rw [ne_eq, ← String.toList_eq_nil_iff, String.toList_append, List.append_eq_nil_iff]
    exact fun h => hs' h.1
  · rw [String.toList_append, List.mem_append]
    exact fun h => h.elim hnewline ht.newline
  · rw [String.toList_append]
    exact Trimmed.append hs' ht' hhead ht.trimmed.2

/-- A value makes a line. -/
lemma IsValue.isLine {s : String} (h : IsValue s) : IsLine s := by
  refine ⟨h.newline, fun hcr => ?_⟩
  exact absurd (h.trimmed.2 _ hcr) (by decide)

/-- A key: not empty, with no colon and no white space. -/
def IsKey (key : String) : Prop :=
  key ≠ "" ∧ ':' ∉ key.toList ∧ ∀ c ∈ key.toList, isWhitespace c = false

instance (key : String) : Decidable (IsKey key) := inferInstanceAs (Decidable (_ ∧ _ ∧ _))

lemma isValue_field {key value : String} (hkey : IsKey key) (hvalue : IsValue value) :
    IsValue (field key value) := by
  obtain ⟨hne, -, hspace⟩ := hkey
  have hpre : (key ++ ": ").toList = key.toList ++ [':', ' '] := String.toList_append
  refine IsValue.append ?_ ?_ ?_ hvalue
  · rw [ne_eq, ← String.toList_eq_nil_iff, hpre]
    exact List.append_ne_nil_of_right_ne_nil _ (List.cons_ne_nil _ _)
  · rw [hpre, List.mem_append]
    rintro (hmem | hmem)
    · exact absurd (hspace _ hmem) (by decide)
    · exact absurd hmem (by decide)
  · intro c hc
    rw [hpre, List.head?_append_of_ne_nil _ (mt String.toList_eq_nil_iff.mp hne)] at hc
    exact hspace c (List.mem_of_head? hc)

/-- A line is split at its key. -/
lemma readLine_field (lib : Crypto) (f : Fields) {key value : String} (hkey : IsKey key)
    (hvalue : IsValue value) : readLine lib f (field key value) = readField lib f key value := by
  have hline := isValue_field hkey hvalue
  have hsplit : splitOnce ": " (field key value) = some (key, value) := by
    rw [field, String.append_assoc]
    exact splitOnce_append rfl hkey.2.1 value
  simp only [readLine, trim_eq_self hline.trimmed, if_neg hline.ne_empty, hsplit]

/-! ## The values of the fields -/

lemma isWhitespace_of_mem_toNixBase32 {bs : List UInt8} :
    ∀ c ∈ (toNixBase32 bs).toList, isWhitespace c = false := by
  have hall : ∀ c ∈ nixBase32Chars, isWhitespace c = false := by decide
  exact fun c hc => hall c (mem_nixBase32Chars_of_mem hc)

lemma isValue_storePath {p : StorePath} (hname : IsValue p.name) : IsValue p.toString := by
  have hpre : (storeDir ++ "/" ++ p.hashStr ++ "-").toList
      = '/' :: ("nix/store/".toList ++ p.hashStr.toList ++ ['-']) := by
    simp [storeDir]
  refine IsValue.append ?_ ?_ ?_ hname
  · rw [ne_eq, ← String.toList_eq_nil_iff, hpre]
    exact List.cons_ne_nil _ _
  · rw [hpre, List.mem_cons, List.mem_append, List.mem_append]
    rintro (hmem | (hmem | hmem) | hmem)
    · cases hmem
    · exact absurd hmem (by decide)
    · exact absurd (isWhitespace_of_mem_toNixBase32 _ hmem) (by decide)
    · exact absurd hmem (by decide)
  · rw [hpre]
    rintro _ ⟨⟩
    decide

lemma isValue_hash (h : NixHash) : IsValue h.toString := by
  have hchars : h.toString.toList
      = h.algo.toString.toList ++ ':' :: (toNixBase32 h.digest).toList := by
    simp [NixHash.toString]
  refine IsValue.of_forall ?_ ?_
  · rw [ne_eq, ← String.toList_eq_nil_iff, hchars]
    exact List.append_ne_nil_of_right_ne_nil _ (List.cons_ne_nil _ _)
  · have halgo : ∀ c ∈ h.algo.toString.toList, isWhitespace c = false := by
      cases h.algo <;> decide
    rw [hchars]
    intro c hc
    rw [List.mem_append, List.mem_cons] at hc
    rcases hc with hc | rfl | hc
    · exact halgo c hc
    · decide
    · exact isWhitespace_of_mem_toNixBase32 c hc

lemma isValue_compression (c : Compression) : IsValue c.toString := by
  refine IsValue.of_forall ?_ ?_
  · cases c <;> decide
  · cases c <;> decide

lemma isValue_repr (n : ℕ) : IsValue (Nat.repr n) := by
  refine IsValue.of_forall ?_ fun c hc => ?_
  · rw [ne_eq, ← String.toList_eq_nil_iff, Nat.toList_repr]
    exact Nat.toDigits_ne_nil
  · rw [Nat.toList_repr] at hc
    have hdigit := Nat.isDigit_of_mem_toDigits (by decide) (by decide) hc
    rw [Char.isDigit_iff_toNat] at hdigit
    have hzero : '0'.toNat = 48 := rfl
    have hnine : '9'.toNat = 57 := rfl
    simp only [isWhitespace, decide_eq_false_iff_not]
    omega

lemma isValue_signature {sig : NarSignature} (hname : IsValue sig.keyName) :
    IsValue (renderSignature sig) := by
  have hvalue : IsValue (":" ++ base64Encode sig.signature) := by
    refine IsValue.of_forall ?_ fun c hc => ?_
    · rw [ne_eq, ← String.toList_eq_nil_iff, String.toList_append]
      exact List.cons_ne_nil _ _
    · rw [String.toList_append, List.mem_append] at hc
      rcases hc with hc | hc
      · cases List.mem_singleton.mp hc
        decide
      · rw [base64Encode, String.toList_ofList] at hc
        exact isWhitespace_base64Chunks _ c hc
  rw [renderSignature, String.append_assoc]
  exact IsValue.append hname.ne_empty hname.newline hname.trimmed.1 hvalue

/-- Words with blanks between them are a value, if there are any. -/
lemma isValue_intercalate {ws : List String} (hws : ∀ w ∈ ws, IsWord w) (hne : ws ≠ []) :
    IsValue (String.intercalate " " ws) := by
  induction ws with
  | nil => exact absurd rfl hne
  | cons w ws ih =>
      obtain ⟨hw, hws⟩ := List.forall_mem_cons.mp hws
      by_cases hnil : ws = []
      · subst hnil
        rw [String.intercalate_singleton]
        exact IsValue.of_forall hw.1 hw.2
      · have hword := IsValue.of_forall hw.1 hw.2
        have hpre : (w ++ " ").toList = w.toList ++ [' '] := String.toList_append
        have hw' : w.toList ≠ [] := mt String.toList_eq_nil_iff.mp hw.1
        rw [String.intercalate_cons_of_ne_nil hnil]
        refine IsValue.append ?_ ?_ ?_ (ih hws hnil)
        · rw [ne_eq, ← String.toList_eq_nil_iff, hpre]
          exact List.append_ne_nil_of_left_ne_nil hw' _
        · rw [hpre, List.mem_append]
          exact fun h => h.elim hword.newline (by decide)
        · intro c hc
          rw [hpre, List.head?_append_of_ne_nil _ hw'] at hc
          exact hword.trimmed.1 c hc

lemma isWord_val {r : StorePathRef} (h : ∀ c ∈ r.val.toList, isWhitespace c = false) :
    IsWord r.val := by
  refine ⟨?_, h⟩
  have hpath := r.basename_path
  intro hempty
  rw [hempty, StorePath.basename, ← String.toList_inj, String.toList_append] at hpath
  simp at hpath

lemma isWord_of_mem {lib : Crypto} {info : NarInfo} (h : Renderable lib info) :
    ∀ w ∈ info.references.map (·.val), IsWord w := by
  intro w hw
  obtain ⟨r, hr, rfl⟩ := List.mem_map.mp hw
  exact isWord_val (h.references r hr)

/-! ## Reading the lines -/

/-- The fields read from the lines before the references. -/
def headFields (info : NarInfo) : Fields :=
  { storePath := some info.storePath, url := some info.url, compression := some info.compression
    fileHash := some info.fileHash, fileSize := some info.fileSize, narHash := some info.narHash
    narSize := some info.narSize }

variable {lib : Crypto} {info : NarInfo}

lemma parseSize_repr {n : ℕ} (hn : n < 2 ^ 64) (key : String) :
    parseSize key (Nat.repr n) = .ok n := by
  rw [parseSize, parseU64_repr hn]

/-- The lines before the references are read back. -/
lemma foldlM_headLines (h : Renderable lib info) :
    info.headLines.foldlM (readLine lib) {} = .ok info.headFields := by
  have hpath := StorePath.parse_toString info.storePath h.name.ne_empty
  have hfile := NixHash.parse_toString h.fileHash
  have hnar := NixHash.parse_toString h.narHash
  have line1 := fun f => @readLine_field lib f "StorePath" _ (by decide) (isValue_storePath h.name)
  have line2 := fun f => @readLine_field lib f "URL" _ (by decide) h.url
  have line3 := fun f => @readLine_field lib f "Compression" _ (by decide)
    (isValue_compression info.compression)
  have line4 := fun f => @readLine_field lib f "FileHash" _ (by decide)
    (isValue_hash info.fileHash)
  have line5 := fun f => @readLine_field lib f "FileSize" _ (by decide)
    (isValue_repr info.fileSize)
  have line6 := fun f => @readLine_field lib f "NarHash" _ (by decide) (isValue_hash info.narHash)
  have line7 := fun f => @readLine_field lib f "NarSize" _ (by decide) (isValue_repr info.narSize)
  simp only [headLines, List.foldlM_cons, List.foldlM_nil, line1, line2, line3, line4, line5,
    line6, line7, readField, hpath, hfile, hnar, Compression.parse_toString,
    parseSize_repr h.fileSize, parseSize_repr h.narSize]
  rfl

/-- A reference is read back. -/
lemma parse_val (r : StorePathRef) : StorePathRef.parse r.val = .ok r := by
  unfold StorePathRef.parse
  split
  · rfl
  · next e he =>
    exact absurd (r.parseBasename_val.symm.trans he) nofun

lemma mapM_parse_val (references : List StorePathRef) :
    (references.map (·.val)).mapM StorePathRef.parse = .ok references := by
  induction references with
  | nil => rfl
  | cons r rest ih =>
      rw [List.map_cons, List.mapM_cons, parse_val, ih]
      rfl

/-- The line of the references is read back if there are any. -/
lemma readLine_references (h : Renderable lib info) (hne : info.references ≠ []) (f : Fields) :
    readLine lib f (field "References" (renderReferences info.references)) =
      .ok { f with references := info.references } := by
  have hne' : info.references.map (·.val) ≠ [] := mt List.map_eq_nil_iff.mp hne
  have hvalue : IsValue (renderReferences info.references) :=
    isValue_intercalate (isWord_of_mem h) hne'
  have hsplit : splitWhitespace (renderReferences info.references) =
      info.references.map (·.val) := splitWhitespace_intercalate (isWord_of_mem h)
  rw [readLine_field lib f (by decide) hvalue]
  simp only [readField, if_neg hvalue.ne_empty, hsplit, mapM_parse_val]
  rfl

/-- Without references the line is malformed: its separator ends in the blank that is trimmed. -/
lemma readLine_no_references (lib : Crypto) (f : Fields) :
    readLine lib f (field "References" (renderReferences [])) =
      fail (.narInfoParse "malformed line: 'References:'") := by
  rfl

lemma readLine_signature (h : Renderable lib info) {sig : NarSignature}
    (hsig : sig ∈ info.signatures) (f : Fields) :
    readLine lib f (field "Sig" (renderSignature sig)) =
      .ok { f with signatures := f.signatures ++ [sig] } := by
  obtain ⟨hname, hcolon, hdecode⟩ := h.signatures sig hsig
  have hsplit : splitOnce ":" (renderSignature sig)
      = some (sig.keyName, base64Encode sig.signature) := by
    rw [renderSignature, String.append_assoc]
    exact splitOnce_append rfl hcolon _
  have hparse : NarSignature.parse lib (renderSignature sig) = .ok sig := by
    simp only [NarSignature.parse, hsplit, hdecode, dif_pos sig.length_signature]
  rw [readLine_field lib f (by decide) (isValue_signature hname)]
  simp only [readField, hparse]
  rfl

lemma foldlM_signatures (h : Renderable lib info) {sigs : List NarSignature}
    (hsigs : ∀ sig ∈ sigs, sig ∈ info.signatures) (f : Fields) :
    (sigs.map fun sig => field "Sig" (renderSignature sig)).foldlM (readLine lib) f =
      .ok { f with signatures := f.signatures ++ sigs } := by
  induction sigs generalizing f with
  | nil =>
      rw [List.append_nil]
      rfl
  | cons sig sigs ih =>
      obtain ⟨hsig, hrest⟩ := List.forall_mem_cons.mp hsigs
      have hread := readLine_signature h hsig f
      have htail := ih hrest { f with signatures := f.signatures ++ [sig] }
      rw [List.append_assoc] at htail
      rw [List.map_cons, List.foldlM_cons, hread]
      exact htail

lemma foldlM_deriver (h : Renderable lib info) {f : Fields} (hf : f.deriver = none) :
    (info.deriver.toList.map (field "Deriver")).foldlM (readLine lib) f =
      .ok { f with deriver := info.deriver } := by
  cases hd : info.deriver with
  | none =>
      cases f
      cases hf
      rfl
  | some d =>
      rw [Option.toList_some, List.map_singleton, List.foldlM_cons,
        readLine_field lib f (by decide) (h.deriver d hd)]
      rfl

lemma foldlM_ca (h : Renderable lib info) {f : Fields} (hf : f.ca = none) :
    (info.ca.toList.map (field "CA")).foldlM (readLine lib) f = .ok { f with ca := info.ca } := by
  cases hc : info.ca with
  | none =>
      cases f
      cases hf
      rfl
  | some c =>
      rw [Option.toList_some, List.map_singleton, List.foldlM_cons,
        readLine_field lib f (by decide) (h.ca c hc)]
      rfl

/-- The lines behind the references are read back. -/
lemma foldlM_tailLines (h : Renderable lib info) {f : Fields} (hderiver : f.deriver = none)
    (hsigs : f.signatures = []) (hca : f.ca = none) :
    info.tailLines.foldlM (readLine lib) f =
      .ok { f with deriver := info.deriver, signatures := info.signatures, ca := info.ca } := by
  have hlast := foldlM_ca h (f := { f with deriver := info.deriver, signatures := info.signatures })
    hca
  rw [tailLines, List.foldlM_append, List.foldlM_append, foldlM_deriver h hderiver, Result.ok_bind,
    foldlM_signatures h fun _ hsig => hsig, Result.ok_bind, hsigs, List.nil_append]
  exact hlast

/-! ## The file -/

/-- Every line of the file is one line. -/
lemma isLine_of_mem (h : Renderable lib info) :
    ∀ l ∈ info.headLines ++ field "References" (renderReferences info.references) ::
      info.tailLines, IsLine l := by
  have hline : ∀ {key value}, IsKey key → IsValue value → IsLine (field key value) :=
    fun hkey hvalue => (isValue_field hkey hvalue).isLine
  have hreferences : IsLine (field "References" (renderReferences info.references)) := by
    by_cases hnil : info.references = []
    · rw [hnil]
      unfold IsLine
      decide
    · exact hline (by decide)
        (isValue_intercalate (isWord_of_mem h) (mt List.map_eq_nil_iff.mp hnil))
  intro l hl
  simp only [headLines, tailLines, List.mem_append, List.mem_cons, List.mem_map, List.not_mem_nil,
    or_false, Option.mem_toList] at hl
  rcases hl with (rfl | rfl | rfl | rfl | rfl | rfl | rfl) | rfl | (⟨d, hd, rfl⟩ | ⟨sig, hsig, rfl⟩)
    | ⟨c, hc, rfl⟩
  · exact hline (by decide) (isValue_storePath h.name)
  · exact hline (by decide) h.url
  · exact hline (by decide) (isValue_compression _)
  · exact hline (by decide) (isValue_hash _)
  · exact hline (by decide) (isValue_repr _)
  · exact hline (by decide) (isValue_hash _)
  · exact hline (by decide) (isValue_repr _)
  · exact hreferences
  · exact hline (by decide) (h.deriver d hd)
  · exact hline (by decide) (isValue_signature (h.signatures sig hsig).1)
  · exact hline (by decide) (h.ca c hc)

/-- The parser reads the references behind the lines before them. -/
lemma foldlM_lines_render (h : Renderable lib info) :
    (lines info.render).foldlM (readLine lib) {} =
      (readLine lib info.headFields (field "References" (renderReferences info.references)) >>=
        fun f => info.tailLines.foldlM (readLine lib) f) := by
  rw [render, lines_unlines (isLine_of_mem h), List.foldlM_append, foldlM_headLines h,
    Result.ok_bind, List.foldlM_cons]

/-- A file without references is rejected. -/
lemma parse_render_no_references (h : Renderable lib info) (hnil : info.references = []) :
    parse lib info.render = fail (.narInfoParse "malformed line: 'References:'") := by
  rw [parse, foldlM_lines_render h, hnil, readLine_no_references]
  rfl

/-- A file with references is read back. -/
lemma parse_render_of_references (h : Renderable lib info) (hne : info.references ≠ []) :
    parse lib info.render = .ok info := by
  have hall : (lines info.render).foldlM (readLine lib) {} =
      .ok { info.headFields with
        references := info.references, deriver := info.deriver
        signatures := info.signatures, ca := info.ca } := by
    rw [foldlM_lines_render h, readLine_references h hne, Result.ok_bind]
    exact foldlM_tailLines h rfl rfl rfl
  rw [parse, hall]
  rfl

/-- **A file is read back** just when there are references. -/
theorem parse_render (h : Renderable lib info) :
    parse lib info.render = .ok info ↔ info.references ≠ [] := by
  refine ⟨fun hok hnil => ?_, parse_render_of_references h⟩
  rw [parse_render_no_references h hnil] at hok
  cases hok

/-- Cryptography of which only the base64 decoder matters, and that on one text. -/
def zeroLib : Crypto where
  sha256 _ := []
  base64Decode s :=
    if s = base64Encode (List.replicate 64 0) then .ok (List.replicate 64 0) else .error "invalid"
  checkKey _ := .ok ()
  verify _ _ _ := false

/-- A value with one signature and the given references. -/
def zeroInfo (references : List StorePathRef) : NarInfo where
  storePath := .zeroHashed "hello-2.12"
  url := "nar/0.nar.zst"
  compression := .zstd
  fileHash := ⟨.sha256, List.replicate 32 0⟩
  fileSize := 12345
  narHash := ⟨.sha256, List.replicate 32 0⟩
  narSize := 67890
  references := references
  deriver := none
  signatures := [.zeros "cache.nixos.org-1"]
  ca := none

lemma renderable_zeroInfo {references : List StorePathRef}
    (h : ∀ r ∈ references, ∀ c ∈ r.val.toList, isWhitespace c = false) :
    Renderable zeroLib (zeroInfo references) := by
  have hname : IsValue "hello-2.12" := IsValue.of_forall (by decide) (by decide)
  have hurl : IsValue "nar/0.nar.zst" := IsValue.of_forall (by decide) (by decide)
  have hkey : IsValue "cache.nixos.org-1" := IsValue.of_forall (by decide) (by decide)
  have hcolon : ':' ∉ "cache.nixos.org-1".toList := by decide
  have hdecode : zeroLib.base64Decode (base64Encode (List.replicate 64 0)) =
      .ok (List.replicate 64 0) := by
    simp only [zeroLib, if_true]
  have hfileSize : 12345 < 2 ^ 64 := by decide
  have hnarSize : 67890 < 2 ^ 64 := by decide
  have hsigs : ∀ sig ∈ (zeroInfo references).signatures, IsValue sig.keyName ∧
      ':' ∉ sig.keyName.toList ∧
        zeroLib.base64Decode (base64Encode sig.signature) = .ok sig.signature := by
    intro sig hsig
    cases List.mem_singleton.mp hsig
    exact ⟨hkey, hcolon, hdecode⟩
  exact ⟨hname, hurl, rfl, hfileSize, rfl, hnarSize, h, nofun, hsigs, nofun⟩

/-- A reference to the path itself. -/
def zeroRef : StorePathRef :=
  ⟨(zeroInfo []).storePath.basename, _, StorePath.parseBasename_basename _ (by decide)⟩

/-- A path that refers to itself. -/
theorem parse_render_self : parse zeroLib (zeroInfo [zeroRef]).render = .ok (zeroInfo [zeroRef]) :=
  (parse_render (renderable_zeroInfo (by decide))).mpr (List.cons_ne_nil _ _)

/-- A path without references. -/
theorem parse_render_leaf :
    Renderable zeroLib (zeroInfo []) ∧ parse zeroLib (zeroInfo []).render ≠ .ok (zeroInfo []) := by
  have hleaf : Renderable zeroLib (zeroInfo []) :=
    renderable_zeroInfo fun r hr => absurd hr List.not_mem_nil
  refine ⟨hleaf, ?_⟩
  rw [parse_render_no_references hleaf rfl]
  exact fun h => by cases h

end NarInfo

end Niphas
