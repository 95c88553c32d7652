import Niphas.Lib.Octal
import Niphas.Csi.Mount

/-!
# Reading the mount table

`is_mountpoint` looks for a path in `/proc/self/mountinfo`, as the fifth word of a line.  The kernel
separates the fields of a line with spaces and escapes four characters of a path, so that no field
has a space in it; the reader splits at any white space of Unicode, and does not undo the escapes.

The question is for which tables the answer is right, so there has to be a table to compare it with.
`MountEntry` is a mount as the kernel knows it, with paths that are any bytes, and `mountInfo`
writes the file for a list of them, escapes included.  The reader gets these bytes.  It fails on a
file that is not UTF-8 as a whole, and then finds nothing.

The statement has three parts.  For a readable table whose roots have no white space that is not
escaped, the condition on the mount points is exact.  A root that has such white space shifts the
fields of its line, and there are mount points with which it breaks a table.  And of an unreadable
table it is said exactly when finding nothing is right.

* `MountEntry`, `mountInfo` — a mount table, and the bytes the kernel writes for it.
* `ExactDetection` — a path is found just when something is mounted there.
* `isMountpoint_exact` — when it is: for mount points in which neither matters.
-/

namespace Niphas

open Bytes Str Octal

/-! ## Mount tables -/

/-- An absolute path with nothing to resolve in it: `/`, or names with a `/` in front of each. -/
def CanonicalPath (bs : List UInt8) : Prop :=
  bs = [47] ∨ ∃ names : List (List UInt8), names ≠ [] ∧ bs = names.flatMap (47 :: ·) ∧
    ∀ name ∈ names, name ≠ [] ∧ name ≠ [46] ∧ name ≠ [46, 46] ∧ 47 ∉ name ∧ 0 ∉ name

/-- A mount: the numbers in front, the directory that is mounted, the mount point, and what stands
behind it: the options, the optional fields, the separator, the type, the source and the options of
the superblock, as they are written. -/
structure MountEntry where
  mountId : ℕ
  parentId : ℕ
  major : ℕ
  minor : ℕ
  root : List UInt8
  point : List UInt8
  rest : List UInt8
  canonical : CanonicalPath point
  one_line : 10 ∉ rest

namespace MountEntry

/-- The numbers in front. -/
def numbers (e : MountEntry) : String :=
  Nat.repr e.mountId ++ (" " ++ (Nat.repr e.parentId ++ (" " ++
    (Nat.repr e.major ++ ":" ++ Nat.repr e.minor))))

/-- The line of a mount. -/
def line (e : MountEntry) : List UInt8 :=
  utf8 e.numbers ++ 32 :: (escape e.root ++ 32 :: (escape e.point ++ 32 :: (e.rest ++ [10])))

end MountEntry

/-- What the kernel writes for a mount table. -/
def mountInfo (table : List MountEntry) : List UInt8 := table.flatMap MountEntry.line

/-- What `is_mountpoint` is given: the table as a string, if it is one, and the canonical form of
its argument. -/
def probeAnswer (table : List MountEntry) (canonical : String) : Option (String × String) :=
  (fromUtf8 (mountInfo table)).map fun content => (content, canonical)

/-- Something is mounted there. -/
def Mounted (table : List MountEntry) (canonical : String) : Prop :=
  ∃ e ∈ table, e.point = utf8 canonical

/-- `is_mountpoint` finds the mount points of the table, and nothing else.  Of `path` only its
canonical form matters. -/
def ExactDetection (table : List MountEntry) : Prop :=
  ∀ path canonical, CanonicalPath (utf8 canonical) →
    ((RealMountOps.isMountpoint path).Exec [⟨.probe path, probeAnswer table canonical⟩] true ↔
      Mounted table canonical)

/-! ## Paths that are read as they are -/

/-- A text without white space and backslashes. -/
def Verbatim (bs : List UInt8) : Prop :=
  ∃ s, utf8 s = bs ∧ ∀ c ∈ s.toList, isWhitespace c = false ∧ c ≠ '\\'

/-- A text that is one word when it is escaped. -/
def Unbroken (bs : List UInt8) : Prop :=
  ∃ s, utf8 s = bs ∧ (splitWhitespace (escapeText s)).length = 1

/-- The table is a string. -/
def ReadableTable (table : List MountEntry) : Prop :=
  ∃ content, fromUtf8 (mountInfo table) = some content

/-! ## Text -/

/-- The text of bytes that are one. -/
def decode (bs : List UInt8) : String := (fromUtf8 bs).getD ""

lemma decode_utf8 (s : String) : decode (utf8 s) = s := by
  rw [decode, fromUtf8_eq_some.mpr rfl]
  rfl

lemma utf8_decode {bs : List UInt8} (h : IsText bs) : utf8 (decode bs) = bs := by
  obtain ⟨s, rfl⟩ := h
  rw [decode_utf8]

namespace MountEntry

variable {e : MountEntry}

/-- All of the mount is text. -/
structure Textual (e : MountEntry) : Prop where
  root : IsText e.root
  point : IsText e.point
  rest : IsText e.rest

/-- The line of a mount as a text, without its line feed. -/
def text (e : MountEntry) : String :=
  e.numbers ++ (" " ++ (escapeText (decode e.root) ++ (" " ++ (escapeText (decode e.point) ++
    (" " ++ decode e.rest)))))

lemma line_eq (h : e.Textual) : e.line = utf8 (e.text ++ "\n") := by
  have hspace : utf8 " " = [32] := by decide
  have hfeed : utf8 "\n" = [10] := by decide
  simp only [line, text, utf8_append, utf8_escapeText, utf8_decode h.root, utf8_decode h.point,
    utf8_decode h.rest, hspace, hfeed, List.append_assoc, List.cons_append, List.nil_append]

end MountEntry

lemma mountInfo_eq {table : List MountEntry} (h : ∀ e ∈ table, e.Textual) :
    mountInfo table = utf8 (unlines (table.map MountEntry.text)) := by
  induction table with
  | nil => rfl
  | cons e table ih =>
      obtain ⟨he, htable⟩ := List.forall_mem_cons.mp h
      rw [List.map_cons, unlines, utf8_append, ← MountEntry.line_eq he, ← ih htable]
      exact List.flatMap_cons

lemma utf8_space : utf8 (String.singleton ' ') = [32] := by decide

lemma utf8_lineFeed : utf8 (String.singleton '\n') = [10] := by decide

/-- The fields of a line in a text are texts, and so is what stands behind the line. -/
lemma textual_of_utf8_eq {e : MountEntry} {s : String} {bs : List UInt8}
    (h : utf8 s = e.line ++ bs) : e.Textual ∧ IsText bs := by
  have hspace : (32 : UInt8).IsUTF8FirstByte := by decide
  have hfeed : (10 : UInt8).IsUTF8FirstByte := by decide
  simp only [MountEntry.line, List.append_assoc, List.cons_append, List.nil_append] at h
  obtain ⟨-, s₁, -, -, h₁⟩ := exists_of_utf8_eq_append_cons utf8_space hspace h
  obtain ⟨root, s₂, -, hroot, h₂⟩ := exists_of_utf8_eq_append_cons utf8_space hspace h₁
  obtain ⟨point, s₃, -, hpoint, h₃⟩ := exists_of_utf8_eq_append_cons utf8_space hspace h₂
  obtain ⟨rest, s₄, -, hrest, h₄⟩ := exists_of_utf8_eq_append_cons utf8_lineFeed hfeed h₃
  exact ⟨⟨isText_of_isText_escape ⟨root, hroot⟩, isText_of_isText_escape ⟨point, hpoint⟩,
    ⟨rest, hrest⟩⟩, ⟨s₄, h₄⟩⟩

/-- **A table is a string just when all of it is text.** -/
lemma readableTable_iff {table : List MountEntry} :
    ReadableTable table ↔ ∀ e ∈ table, e.Textual := by
  constructor
  · rintro ⟨content, hcontent⟩
    have htext : IsText (mountInfo table) := ⟨content, fromUtf8_eq_some.mp hcontent⟩
    clear hcontent
    induction table with
    | nil => exact fun e he => absurd he List.not_mem_nil
    | cons e table ih =>
        obtain ⟨s, hs⟩ := htext
        obtain ⟨he, htable⟩ := textual_of_utf8_eq (hs.trans List.flatMap_cons)
        exact List.forall_mem_cons.mpr ⟨he, ih htable⟩
  · intro h
    exact ⟨_, fromUtf8_eq_some.mpr (mountInfo_eq h).symm⟩

/-! ## The words of a line -/

namespace MountEntry

variable {e : MountEntry}

/-- The words of a line are those of its fields. -/
lemma splitWhitespace_text (e : MountEntry) :
    splitWhitespace e.text = [Nat.repr e.mountId, Nat.repr e.parentId,
        Nat.repr e.major ++ ":" ++ Nat.repr e.minor] ++
      (splitWhitespace (escapeText (decode e.root)) ++
        (splitWhitespace (escapeText (decode e.point)) ++ splitWhitespace (decode e.rest))) := by
  have happend : ∀ s t : String,
      splitWhitespace (s ++ (" " ++ t)) = splitWhitespace s ++ splitWhitespace t :=
    splitWhitespace_append (c := ' ') (by decide)
  have hdevice : IsWord (Nat.repr e.major ++ ":" ++ Nat.repr e.minor) := by
    refine ⟨fun hempty => ?_, fun c hc => ?_⟩
    · have hlen := congrArg (fun s : String => s.toList.length) hempty
      simp at hlen
    · rw [String.toList_append, String.toList_append, List.mem_append, List.mem_append] at hc
      rcases hc with (hc | hc) | hc
      · exact (isWord_repr e.major).2 c hc
      · rw [List.mem_singleton.mp hc]
        rfl
      · exact (isWord_repr e.minor).2 c hc
  simp only [text, numbers, happend, splitWhitespace_of_isWord (isWord_repr _),
    splitWhitespace_of_isWord hdevice, List.append_assoc]
  rfl

/-- No line has a line feed in it. -/
lemma not_mem_text (h : e.Textual) : '\n' ∉ e.text.toList := by
  have hnumber : ∀ n, '\n' ∉ (Nat.repr n).toList := by
    intro n hmem
    have hwhite := (isWord_repr n).2 '\n' hmem
    revert hwhite
    decide
  have hescape : ∀ s, '\n' ∉ (escapeText s).toList := by
    intro s
    rw [escapeText, String.toList_ofList]
    exact not_mem_escapeChars (by decide) (by decide)
  have hrest : '\n' ∉ (decode e.rest).toList := by
    intro hmem
    have hbyte := mem_utf8_of_mem utf8_lineFeed hmem
    rw [utf8_decode h.rest] at hbyte
    exact e.one_line hbyte
  simp only [text, numbers, String.toList_append, List.mem_append, not_or]
  exact ⟨⟨hnumber _, by decide, hnumber _, by decide, ⟨hnumber _, by decide⟩, hnumber _⟩,
    by decide, hescape _, by decide, hescape _, by decide, hrest⟩

/-- Where the root is one word, the fifth word is the first one behind it. -/
lemma fifth_text (hroot : Unbroken e.root) :
    (splitWhitespace e.text)[4]?
      = (splitWhitespace (escapeText (decode e.point)) ++ splitWhitespace (decode e.rest))[0]? := by
  have hfifth : ∀ (a b c w : String) (ws : List String), ([a, b, c] ++ ([w] ++ ws))[4]? = ws[0]? :=
    fun _ _ _ _ _ => rfl
  obtain ⟨s, hs, hone⟩ := hroot
  obtain ⟨w, hw⟩ := List.length_eq_one_iff.mp hone
  rw [splitWhitespace_text, ← hs, decode_utf8, hw, hfifth]

/-- And where the mount point has no white space, it is the mount point as it is escaped. -/
lemma fifth_text_of_point (hroot : Unbroken e.root)
    (hpoint : IsWord (escapeText (decode e.point))) :
    (splitWhitespace e.text)[4]? = some (escapeText (decode e.point)) := by
  rw [fifth_text hroot, splitWhitespace_of_isWord hpoint]
  rfl

end MountEntry

/-! ## What is detected -/

/-- `is_mountpoint` answers from the table it reads. -/
lemma exec_isMountpoint {path : String} {answer : Option (String × String)} :
    (RealMountOps.isMountpoint path).Exec [⟨.probe path, answer⟩] true ↔
      ∃ content canonical, answer = some (content, canonical) ∧
        RealMountOps.isMountpointIn content canonical = true := by
  constructor
  · intro h
    obtain ⟨r, log, hlog, hexec⟩ := Prog.exec_call_iff.mp h
    cases hlog
    cases answer with
    | none =>
        obtain ⟨-, hfalse⟩ := Prog.exec_pure_iff.mp hexec
        cases hfalse
    | some found =>
        obtain ⟨-, htrue⟩ := Prog.exec_pure_iff.mp hexec
        exact ⟨found.1, found.2, rfl, htrue.symm⟩
  · rintro ⟨content, canonical, rfl, htrue⟩
    exact Prog.exec_call_iff.mpr ⟨_, [], rfl, Prog.exec_pure_iff.mpr ⟨rfl, htrue.symm⟩⟩

/-- In a table that is a string, a path is found as the fifth word of a line. -/
lemma detected_iff {table : List MountEntry} (htable : ∀ e ∈ table, e.Textual)
    {path canonical : String} :
    (RealMountOps.isMountpoint path).Exec [⟨.probe path, probeAnswer table canonical⟩] true ↔
      ∃ e ∈ table, (splitWhitespace e.text)[4]? = some canonical := by
  have hcontent : fromUtf8 (mountInfo table) = some (unlines (table.map MountEntry.text)) :=
    fromUtf8_eq_some.mpr (mountInfo_eq htable).symm
  have hlines : ∀ l ∈ table.map MountEntry.text, '\n' ∉ l.toList := by
    intro l hl
    obtain ⟨e, he, rfl⟩ := List.mem_map.mp hl
    exact MountEntry.not_mem_text (htable e he)
  have hfound : RealMountOps.isMountpointIn (unlines (table.map MountEntry.text)) canonical = true ↔
      ∃ e ∈ table, (splitWhitespace e.text)[4]? = some canonical := by
    rw [RealMountOps.isMountpointIn, lines_unlines_eq hlines]
    simp only [List.any_map, List.any_eq_true, Function.comp_apply, splitWhitespace_stripCr,
      decide_eq_true_eq]
  rw [exec_isMountpoint, ← hfound, probeAnswer, hcontent]
  constructor
  · rintro ⟨content, canonical', heq, htrue⟩
    cases heq
    exact htrue
  · exact fun htrue => ⟨_, _, rfl, htrue⟩

/-- Nothing is found in a table that is none. -/
lemma not_detected_of_not_readableTable {table : List MountEntry} (h : ¬ ReadableTable table)
    {path canonical : String} :
    ¬ (RealMountOps.isMountpoint path).Exec [⟨.probe path, probeAnswer table canonical⟩] true := by
  rw [exec_isMountpoint, probeAnswer]
  rintro ⟨content, canonical', heq, -⟩
  obtain ⟨content, hcontent, -⟩ := Option.map_eq_some_iff.mp heq
  exact h ⟨content, hcontent⟩

/-! ## Mount points

That the condition on the mount points is necessary takes an argument: a backslash makes the escaped
form longer, so a mount point with one would have to be found in the line of a shorter one, and that
in the line of a shorter one again.
-/

namespace MountEntry

variable {e : MountEntry}

lemma point_ne_nil (e : MountEntry) : e.point ≠ [] := by
  rcases e.canonical with hroot | ⟨names, hne, hpoint, -⟩
  · rw [hroot]
    exact List.cons_ne_nil _ _
  · obtain ⟨name, names, rfl⟩ := List.exists_cons_of_ne_nil hne
    rw [hpoint]
    exact List.cons_ne_nil _ _

lemma decode_point_ne_nil (h : e.Textual) : (decode e.point).toList ≠ [] := by
  intro hnil
  have hdecode := utf8_decode h.point
  rw [String.toList_eq_nil_iff.mp hnil] at hdecode
  exact e.point_ne_nil hdecode.symm

/-- A mount point without white space is one word when it is escaped. -/
lemma isWord_escape_point (h : e.Textual)
    (hspace : ∀ c ∈ (decode e.point).toList, isWhitespace c = false) :
    IsWord (escapeText (decode e.point)) := by
  refine ⟨fun hempty => ?_, ?_⟩
  · have hlen := length_le_escapeChars (decode e.point).toList
    have hnil : escapeChars (decode e.point).toList = [] := by
      rw [← String.toList_ofList (l := escapeChars _)]
      exact String.toList_eq_nil_iff.mpr hempty
    rw [hnil, List.length_nil, Nat.le_zero, List.length_eq_zero_iff] at hlen
    exact decode_point_ne_nil h hlen
  · rw [escapeText, String.toList_ofList]
    exact isWhitespace_escapeChars hspace

lemma point_eq_iff (h : e.Textual) {canonical : String} :
    e.point = utf8 canonical ↔ decode e.point = canonical := by
  rw [← utf8_decode h.point, utf8_inj, decode_utf8]

/-- A mount point without white space and backslashes is written as it is. -/
lemma escapeText_point_of_verbatim (hpoint : Verbatim e.point) :
    escapeText (decode e.point) = decode e.point ∧
      ∀ c ∈ (decode e.point).toList, isWhitespace c = false := by
  obtain ⟨s, hs, hverbatim⟩ := hpoint
  have hspace : ∀ c ∈ s.toList, isWhitespace c = false := fun c hc => (hverbatim c hc).1
  have hslash : '\\' ∉ s.toList := fun hmem => (hverbatim _ hmem).2 rfl
  rw [← hs, decode_utf8, escapeText, escapeChars_eq_self hspace hslash, String.ofList_toList]
  exact ⟨rfl, hspace⟩

lemma splitWhitespace_point_of_verbatim (h : e.Textual) (hpoint : Verbatim e.point) :
    splitWhitespace (escapeText (decode e.point)) = [decode e.point] := by
  obtain ⟨hescape, hspace⟩ := escapeText_point_of_verbatim hpoint
  rw [splitWhitespace_of_isWord (isWord_escape_point h hspace), hescape]

/-- It is what the reader finds in its line. -/
lemma fifth_text_of_verbatim (h : e.Textual) (hroot : Unbroken e.root) (hpoint : Verbatim e.point) :
    (splitWhitespace e.text)[4]? = some (decode e.point) := by
  rw [fifth_text hroot, splitWhitespace_point_of_verbatim h hpoint]
  rfl

end MountEntry

section

variable {table : List MountEntry}

/-- Mount points that are read as they are are found, and nothing else is. -/
lemma exactDetection_of_verbatim (htable : ∀ e ∈ table, e.Textual)
    (hroots : ∀ e ∈ table, Unbroken e.root) (hverbatim : ∀ e ∈ table, Verbatim e.point) :
    ExactDetection table := by
  intro path canonical _
  rw [detected_iff htable]
  refine exists_congr fun e => and_congr_right fun he => ?_
  rw [MountEntry.fifth_text_of_verbatim (htable e he) (hroots e he) (hverbatim e he),
    MountEntry.point_eq_iff (htable e he), Option.some.injEq]

/-- Where detection is exact, some line has each mount point for its fifth word. -/
lemma exists_fifth_of_exact (htable : ∀ e ∈ table, e.Textual) (hexact : ExactDetection table)
    {e : MountEntry} (he : e ∈ table) :
    ∃ e' ∈ table, (splitWhitespace e'.text)[4]? = some (decode e.point) := by
  have hpoint : e.point = utf8 (decode e.point) := (utf8_decode (htable e he).point).symm
  have hdetected := (hexact "" (decode e.point) (hpoint ▸ e.canonical)).mpr ⟨e, he, hpoint⟩
  exact (detected_iff htable).mp hdetected

/-- So no mount point has white space in it: a word has none. -/
lemma not_isWhitespace_of_exact (htable : ∀ e ∈ table, e.Textual) (hexact : ExactDetection table)
    {e : MountEntry} (he : e ∈ table) :
    ∀ c ∈ (decode e.point).toList, isWhitespace c = false := by
  obtain ⟨e', -, hfifth⟩ := exists_fifth_of_exact htable hexact he
  exact (isWord_of_mem_splitWhitespace (List.mem_of_getElem? hfifth)).2

/-- And none has a backslash: the line that has it for its fifth word is that of a shorter mount
point with a backslash, and so on. -/
lemma not_mem_of_exact (htable : ∀ e ∈ table, e.Textual) (hroots : ∀ e ∈ table, Unbroken e.root)
    (hexact : ExactDetection table) :
    ∀ e ∈ table, '\\' ∉ (decode e.point).toList := by
  have hshorter : ∀ n, ∀ e ∈ table, (decode e.point).toList.length = n →
      '\\' ∉ (decode e.point).toList := by
    intro n
    induction n using Nat.strong_induction_on with
    | _ n ih =>
        intro e he hn hslash
        obtain ⟨e', he', hfifth⟩ := exists_fifth_of_exact htable hexact he
        have hspace := not_isWhitespace_of_exact htable hexact he'
        rw [MountEntry.fifth_text_of_point (hroots e' he')
          (MountEntry.isWord_escape_point (htable e' he') hspace), Option.some.injEq] at hfifth
        have hchars : escapeChars (decode e'.point).toList = (decode e.point).toList := by
          rw [← hfifth, escapeText, String.toList_ofList]
        by_cases hslash' : '\\' ∈ (decode e'.point).toList
        · have hlt := length_lt_escapeChars hslash'
          rw [hchars, hn] at hlt
          exact ih _ hlt e' he' rfl hslash'
        · rw [escapeChars_eq_self hspace hslash'] at hchars
          exact hslash' (hchars ▸ hslash)
  exact fun e he => hshorter _ e he rfl

/-- **Exact detection needs mount points that are read as they are.** -/
lemma verbatim_of_exactDetection (htable : ∀ e ∈ table, e.Textual)
    (hroots : ∀ e ∈ table, Unbroken e.root) (hexact : ExactDetection table) :
    ∀ e ∈ table, Verbatim e.point := by
  intro e he
  refine ⟨decode e.point, utf8_decode (htable e he).point, fun c hc => ⟨?_, ?_⟩⟩
  · exact not_isWhitespace_of_exact htable hexact he c hc
  · rintro rfl
    exact not_mem_of_exact htable hroots hexact e he hc

/-- In a table that is no string, detection is exact only if no mount point could be asked for. -/
lemma exactDetection_iff_of_not_readableTable (h : ¬ ReadableTable table) :
    ExactDetection table ↔ ∀ e ∈ table, ¬ IsText e.point := by
  constructor
  · rintro hexact e he ⟨canonical, hpoint⟩
    exact not_detected_of_not_readableTable h
      ((hexact "" canonical (hpoint ▸ e.canonical)).mpr ⟨e, he, hpoint.symm⟩)
  · rintro hnone path canonical -
    refine iff_of_false (not_detected_of_not_readableTable h) ?_
    rintro ⟨e, he, hpoint⟩
    exact hnone e he ⟨canonical, hpoint.symm⟩

end

/-! ## Roots that break a line -/

/-- A mount of a disk. -/
def diskMount (root point : List UInt8) (canonical : CanonicalPath point) : MountEntry where
  mountId := 36
  parentId := 35
  major := 8
  minor := 1
  root := root
  point := point
  rest := utf8 "rw,relatime shared:1 - ext4 /dev/sda1 rw"
  canonical := canonical
  one_line := by decide

lemma canonicalPath_letter {b : UInt8} (hdot : b ≠ 46) (hslash : b ≠ 47) (hnul : b ≠ 0) :
    CanonicalPath [47, b] := by
  refine .inr ⟨[[b]], List.cons_ne_nil _ _, rfl, fun name hname => ?_⟩
  rw [List.mem_singleton.mp hname]
  refine ⟨List.cons_ne_nil _ _, ?_, ?_, ?_, ?_⟩
  · exact fun h => hdot (List.cons.inj h).1
  · exact fun h => List.cons_ne_nil _ _ (List.cons.inj h).2.symm
  · exact fun h => hslash (List.mem_singleton.mp h).symm
  · exact fun h => hnul (List.mem_singleton.mp h).symm

lemma textual_diskMount (root point : String) (canonical : CanonicalPath (utf8 point)) :
    (diskMount (utf8 root) (utf8 point) canonical).Textual :=
  ⟨⟨root, rfl⟩, ⟨point, rfl⟩, ⟨_, rfl⟩⟩

/-- The fifth word of a line whose root is not one word is not the mount point's: it is the root's
second word, or a word behind the mount point. -/
lemma fifth_text_of_broken {root : String}
    (hbroken : (splitWhitespace (escapeText root)).length ≠ 1) :
    ∃ w, ∀ (point : String) (canonical : CanonicalPath (utf8 point)), Verbatim (utf8 point) →
      (splitWhitespace (diskMount (utf8 root) (utf8 point) canonical).text)[4]? = some w := by
  have hwords : ∀ (point : String) (canonical : CanonicalPath (utf8 point)), Verbatim (utf8 point) →
      (splitWhitespace (diskMount (utf8 root) (utf8 point) canonical).text)[4]?
        = (splitWhitespace (escapeText root) ++ [point, "rw,relatime"])[1]? := by
    intro point canonical hverbatim
    have hpoint := MountEntry.splitWhitespace_point_of_verbatim
      (textual_diskMount root point canonical) hverbatim
    have hrest : splitWhitespace (decode (utf8 "rw,relatime shared:1 - ext4 /dev/sda1 rw"))
        = ["rw,relatime", "shared:1", "-", "ext4", "/dev/sda1", "rw"] := by
      rw [decode_utf8]
      decide
    have hfifth : ∀ (a b c p o : String) (ws os : List String), ws.length ≠ 1 →
        ([a, b, c] ++ (ws ++ ([p] ++ o :: os)))[4]? = (ws ++ [p, o])[1]? := by
      intro a b c p o ws os hlen
      rcases ws with _ | ⟨w, _ | ⟨w', ws⟩⟩
      · rfl
      · exact absurd rfl hlen
      · rfl
    rw [MountEntry.splitWhitespace_text, hpoint]
    simp only [diskMount, decode_utf8] at hrest ⊢
    rw [hrest]
    exact hfifth _ _ _ _ _ _ _ hbroken
  rcases hpieces : splitWhitespace (escapeText root) with _ | ⟨w, _ | ⟨w', ws⟩⟩
  · rw [hpieces] at hwords
    exact ⟨"rw,relatime", hwords⟩
  · rw [hpieces] at hbroken
    exact absurd rfl hbroken
  · rw [hpieces] at hwords
    exact ⟨w', hwords⟩

/-- **Every root that is not one word breaks a table**, even if all mount points are read as they
are. -/
lemma exists_not_exactDetection {root : List UInt8} (hbroken : ¬ Unbroken root) :
    ∃ table : List MountEntry,
      (∀ e ∈ table, e.root = root ∧ Verbatim e.point ∧ IsText e.rest) ∧ ¬ ExactDetection table := by
  have ha : CanonicalPath (utf8 "/a") := canonicalPath_letter (by decide) (by decide) (by decide)
  have hb : CanonicalPath (utf8 "/b") := canonicalPath_letter (by decide) (by decide) (by decide)
  have ha' : Verbatim (utf8 "/a") := ⟨"/a", rfl, by decide⟩
  have hb' : Verbatim (utf8 "/b") := ⟨"/b", rfl, by decide⟩
  by_cases htext : IsText root
  · obtain ⟨s, rfl⟩ := htext
    obtain ⟨w, hw⟩ := fifth_text_of_broken fun hone => hbroken ⟨s, rfl, hone⟩
    -- of two mount points one is not the word that is found
    have hmissed : ∀ (point : String) (canonical : CanonicalPath (utf8 point)),
        Verbatim (utf8 point) → point ≠ w →
          ¬ ExactDetection [diskMount (utf8 s) (utf8 point) canonical] := by
      intro point canonical hverbatim hne hexact
      obtain ⟨e, he, hfifth⟩ := exists_fifth_of_exact
        (List.forall_mem_singleton.mpr (textual_diskMount s point canonical)) hexact
        (List.mem_singleton_self _)
      rw [List.mem_singleton.mp he, hw point canonical hverbatim] at hfifth
      exact hne ((decode_utf8 point).symm.trans (Option.some.inj hfifth).symm)
    by_cases hwa : "/a" = w
    · have hne : "/b" ≠ w := by
        rw [← hwa]
        decide
      exact ⟨_, List.forall_mem_singleton.mpr ⟨rfl, hb', ⟨_, rfl⟩⟩, hmissed _ hb hb' hne⟩
    · exact ⟨_, List.forall_mem_singleton.mpr ⟨rfl, ha', ⟨_, rfl⟩⟩, hmissed _ ha ha' hwa⟩
  · refine ⟨[diskMount root (utf8 "/a") ha], List.forall_mem_singleton.mpr
      ⟨rfl, ha', ⟨_, rfl⟩⟩, fun hexact => ?_⟩
    have hnot : ¬ ReadableTable [diskMount root (utf8 "/a") ha] := fun hreadable =>
      htext (readableTable_iff.mp hreadable _ (List.mem_singleton_self _)).root
    exact (exactDetection_iff_of_not_readableTable hnot).mp hexact _ (List.mem_singleton_self _)
      ⟨"/a", rfl⟩

/-! ## When detection is exact -/

/-- In a table that is a string, and whose roots are one word each, detection is exact just for
mount points without white space and backslashes.  A root that is not breaks some table, and in a
table that is no string nothing is found. -/
theorem isMountpoint_exact (table : List MountEntry) :
    (ReadableTable table → (∀ e ∈ table, Unbroken e.root) →
        (ExactDetection table ↔ ∀ e ∈ table, Verbatim e.point)) ∧
      (¬ ReadableTable table → (ExactDetection table ↔ ∀ e ∈ table, ¬ IsText e.point)) ∧
      ∀ e ∈ table, ¬ Unbroken e.root → ∃ table' : List MountEntry,
        (∀ e' ∈ table', e'.root = e.root ∧ Verbatim e'.point ∧ IsText e'.rest) ∧
          ¬ ExactDetection table' := by
  refine ⟨fun hreadable hroots => ?_, exactDetection_iff_of_not_readableTable,
    fun _ _ h => exists_not_exactDetection h⟩
  have htable := readableTable_iff.mp hreadable
  exact ⟨verbatim_of_exactDetection htable hroots, exactDetection_of_verbatim htable hroots⟩

lemma canonicalPath_space : CanonicalPath (utf8 "/mnt/a b") :=
  .inr ⟨[utf8 "mnt", utf8 "a b"], by decide, by decide, by decide⟩

/-- A disk mounted at `/mnt/a b`: the kernel writes `/mnt/a\040b`, and nothing is found. -/
theorem not_exactDetection_space :
    fromUtf8 (mountInfo [diskMount (utf8 "/") (utf8 "/mnt/a b") canonicalPath_space])
        = some "36 35 8:1 / /mnt/a\\040b rw,relatime shared:1 - ext4 /dev/sda1 rw\n" ∧
      ¬ ExactDetection [diskMount (utf8 "/") (utf8 "/mnt/a b") canonicalPath_space] := by
  have htable : ∀ e ∈ [diskMount (utf8 "/") (utf8 "/mnt/a b") canonicalPath_space], e.Textual :=
    List.forall_mem_singleton.mpr (textual_diskMount "/" "/mnt/a b" canonicalPath_space)
  have hroots : ∀ e ∈ [diskMount (utf8 "/") (utf8 "/mnt/a b") canonicalPath_space],
      Unbroken e.root := List.forall_mem_singleton.mpr ⟨"/", rfl, by decide⟩
  refine ⟨fromUtf8_eq_some.mpr (by decide), fun hexact => ?_⟩
  obtain ⟨s, hs, hverbatim⟩ :=
    verbatim_of_exactDetection htable hroots hexact _ (List.mem_singleton_self _)
  obtain rfl := utf8_injective hs
  have hspace := (hverbatim ' ' (by decide)).1
  revert hspace
  decide

end Niphas
