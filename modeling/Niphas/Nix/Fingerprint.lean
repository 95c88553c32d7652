import Mathlib.Data.List.Perm.Basic
import Niphas.Nix.NarInfoText

/-!
# What a fingerprint binds

Signatures cover the fingerprint of a `NarInfo`, a text with semicolons between the store path, the
NAR hash, the NAR size and the references, and commas between the references.  The parsers let both
characters through, in the names of store paths and of references.

A signature is only as good as the fingerprint is injective.  It cannot be so on the nose, as the
references are a set of which the text lists the elements in order; `SameSigned` takes care of that.
Beyond that there are two ways for two values to have one fingerprint.  A comma in a reference may
be read as one between two references.  A semicolon in a name may be read as the end of the store
path, so that the name of the one value goes on with fields of the other (`Swallows`).  That there
is no third way is the work of this file: a hash begins with the name of its algorithm and is of a
fixed alphabet, so the places at which a field may end can be told apart.

* `fingerprint_eq_iff` — when two values have the same fingerprint.
* `fingerprint_binds` — it binds the signed fields unless a comma in a reference, or a semicolon in
  a name, is read as a separator; so it does where neither character occurs.
* `fingerprint_confused` — two files with different references and one signature.
-/

namespace Niphas

namespace NarInfo

open Str

/-! ## The parts of a fingerprint -/

/-- The signed fields are the same, the references up to their order. -/
structure SameSigned (a b : NarInfo) : Prop where
  storePath : a.storePath = b.storePath
  narHash : a.narHash = b.narHash
  narSize : a.narSize = b.narSize
  references : a.references.Perm b.references

/-- The references in order, with commas between them. -/
def commaList (references : List StorePathRef) : String :=
  String.intercalate "," (Str.sort (references.map StorePathRef.toStorePathString))

/-- The signed fields are the same, the references as far as the text of their list shows. -/
structure SameText (a b : NarInfo) : Prop where
  storePath : a.storePath = b.storePath
  narHash : a.narHash = b.narHash
  narSize : a.narSize = b.narSize
  references : commaList a.references = commaList b.references

/-- The name of `a` goes on, behind the name of `b`, with the other signed fields of `b`, up to
within its references; these go on with the other signed fields of `a`. -/
def Swallows (a b : NarInfo) : Prop :=
  a.storePath.hash = b.storePath.hash ∧ ∃ t : List Char,
    a.storePath.name.toList = b.storePath.name.toList ++
      ';' :: (b.narHash.toString.toList ++ ';' :: ((Nat.repr b.narSize).toList ++ ';' :: t)) ∧
    (commaList b.references).toList = t ++
      ';' :: (a.narHash.toString.toList ++ ';' :: ((Nat.repr a.narSize).toList ++
        ';' :: (commaList a.references).toList))

/-- A separator in a name or in a reference is read as one between the fields, or between the
references. -/
def Confused (a b : NarInfo) : Prop :=
  (SameText a b ∧ ¬ a.references.Perm b.references) ∨ Swallows a b ∨ Swallows b a

/-- The fingerprint behind the store path's name. -/
def signedRest (info : NarInfo) : List Char :=
  info.narHash.toString.toList ++
    ';' :: ((Nat.repr info.narSize).toList ++ ';' :: (commaList info.references).toList)

lemma toList_fingerprint (info : NarInfo) :
    info.fingerprint.toList = "1;/nix/store/".toList ++ (info.storePath.hashStr.toList ++
      '-' :: (info.storePath.name.toList ++ ';' :: info.signedRest)) := by
  simp [fingerprint, StorePath.toString, storeDir, signedRest, commaList]

lemma length_hashStr (p : StorePath) : p.hashStr.toList.length = 32 := by
  rw [StorePath.hashStr, toNixBase32_eq, String.toList_ofList, List.length_reverse,
    List.length_map, List.length_range, p.length_hash]

/-- The fingerprints of two values agree if the hashes of the store paths do, and what follows. -/
lemma fingerprint_eq_iff_rest {a b : NarInfo} :
    a.fingerprint = b.fingerprint ↔ a.storePath.hash = b.storePath.hash ∧
      a.storePath.name.toList ++ ';' :: a.signedRest =
        b.storePath.name.toList ++ ';' :: b.signedRest := by
  have hlen := (length_hashStr a.storePath).trans (length_hashStr b.storePath).symm
  rw [← String.toList_inj, toList_fingerprint, toList_fingerprint, List.append_cancel_left_eq]
  constructor
  · intro h
    obtain ⟨hhash, hrest⟩ := List.append_inj h hlen
    exact ⟨toNixBase32_injective (String.toList_inj.mp hhash), List.tail_eq_of_cons_eq hrest⟩
  · rintro ⟨hhash, hrest⟩
    rw [StorePath.hashStr, StorePath.hashStr, hhash, hrest]

/-! ## Where the parts end -/

lemma semicolon_not_mem_hash (h : NixHash) : ';' ∉ h.toString.toList := by
  have halgo : ';' ∉ h.algo.toString.toList := by
    cases h.algo <;> decide
  have hdigits : ';' ∉ (toNixBase32 h.digest).toList := fun hmem =>
    absurd (mem_nixBase32Chars_of_mem hmem) (by decide)
  simp [NixHash.toString, halgo, hdigits]

lemma not_mem_repr {c : Char} (hc : c.isDigit = false) (n : ℕ) : c ∉ (Nat.repr n).toList := by
  intro hmem
  rw [Nat.toList_repr] at hmem
  have hdigit := Nat.isDigit_of_mem_toDigits (by decide) (by decide) hmem
  exact Bool.false_ne_true (hc.symm.trans hdigit)

lemma colon_mem_hash (h : NixHash) : ':' ∈ h.toString.toList := by
  simp [NixHash.toString]

lemma commaList_nil : commaList [] = "" := by
  rw [commaList, List.map_nil, Str.sort, List.mergeSort_nil]
  rfl

/-- A list of references begins with the store directory, if there are any. -/
lemma commaList_of_ne_nil {references : List StorePathRef} (hne : references ≠ []) :
    ∃ cs, (commaList references).toList = '/' :: cs := by
  rw [commaList]
  cases hsort : Str.sort (references.map StorePathRef.toStorePathString) with
  | nil =>
      have hlen := congrArg List.length hsort
      rw [Str.sort, List.length_mergeSort, List.length_map] at hlen
      exact absurd (List.length_eq_zero_iff.mp hlen) hne
  | cons s rest =>
      have hmem : s ∈ references.map StorePathRef.toStorePathString :=
        List.mem_mergeSort.mp (hsort ▸ List.mem_cons_self)
      obtain ⟨r, -, rfl⟩ := List.mem_map.mp hmem
      have hfirst : ∃ tail, String.intercalate "," (r.toStorePathString :: rest)
          = r.toStorePathString ++ tail := by
        cases rest with
        | nil => exact ⟨"", by simp⟩
        | cons s' rest =>
            exact ⟨_, (String.intercalate_cons_cons).trans (String.append_assoc ..)⟩
      obtain ⟨tail, hfirst⟩ := hfirst
      refine ⟨"nix/store/".toList ++ r.val.toList ++ tail.toList, ?_⟩
      rw [hfirst]
      simp [StorePathRef.toStorePathString, storeDir]

lemma commaList_eq_empty_iff {references : List StorePathRef} :
    commaList references = "" ↔ references = [] := by
  constructor
  · intro h
    by_contra hne
    obtain ⟨cs, hcs⟩ := commaList_of_ne_nil hne
    rw [h] at hcs
    cases hcs
  · rintro rfl
    exact commaList_nil

/-- The rest of a fingerprint begins with the name of a hash algorithm. -/
lemma signedRest_ne_commaList (a : NarInfo) (references : List StorePathRef) :
    a.signedRest ≠ (commaList references).toList := by
  have hhead : ∃ c, a.signedRest.head? = some c ∧ c ≠ '/' := by
    rw [signedRest, NixHash.toString]
    cases a.narHash.algo
    · exact ⟨'s', by simp [HashAlgo.toString], by decide⟩
    · exact ⟨'s', by simp [HashAlgo.toString], by decide⟩
    · exact ⟨'s', by simp [HashAlgo.toString], by decide⟩
    · exact ⟨'m', by simp [HashAlgo.toString], by decide⟩
  obtain ⟨c, hc, hne⟩ := hhead
  intro h
  rw [h] at hc
  by_cases hnil : references = []
  · rw [hnil, commaList_nil] at hc
    cases hc
  · obtain ⟨cs, hcs⟩ := commaList_of_ne_nil hnil
    rw [hcs] at hc
    exact hne (Option.some.inj hc).symm

/-- The rest of a fingerprint does not begin with a number and a semicolon. -/
lemma signedRest_ne_repr (a : NarInfo) (n : ℕ) (cs : List Char) :
    a.signedRest ≠ (Nat.repr n).toList ++ ';' :: cs := by
  intro h
  have hcolon : ':' ∈ (Nat.repr n).toList := by
    rcases (append_cons_eq_append_cons (semicolon_not_mem_hash _)).mp h with ⟨hn, -⟩ | ⟨fs, hn, -⟩
    · rw [hn]
      exact colon_mem_hash _
    · rw [hn]
      exact List.mem_append_left _ (colon_mem_hash _)
  exact not_mem_repr rfl n hcolon

lemma signedRest_inj {a b : NarInfo} : a.signedRest = b.signedRest ↔
    a.narHash = b.narHash ∧ a.narSize = b.narSize ∧
      commaList a.references = commaList b.references := by
  constructor
  · intro h
    have hsize := not_mem_repr (c := ';') rfl
    rcases (append_cons_eq_append_cons (semicolon_not_mem_hash _)).mp h with
      ⟨hhash, hrest⟩ | ⟨fs, hhash, -⟩
    · rcases (append_cons_eq_append_cons (hsize _)).mp hrest with ⟨hn, hrefs⟩ | ⟨fs, hn, -⟩
      · exact ⟨NixHash.toString_injective (String.toList_inj.mp hhash.symm),
          repr_injective (String.toList_inj.mp hn), String.toList_inj.mp hrefs⟩
      · exact absurd (hn ▸ List.mem_append_right _ List.mem_cons_self) (hsize _)
    · exact absurd (hhash ▸ List.mem_append_right _ List.mem_cons_self) (semicolon_not_mem_hash _)
  · rintro ⟨hhash, hsize, hrefs⟩
    rw [signedRest, signedRest, hhash, hsize, hrefs]

/-- What is cut off the rest of a fingerprint at a semicolon is not the rest of another one, unless
it is cut within the references. -/
lemma signedRest_eq_append_iff {a b : NarInfo} {d : List Char} :
    b.signedRest = d ++ ';' :: a.signedRest ↔ ∃ t : List Char,
      d = b.narHash.toString.toList ++ ';' :: ((Nat.repr b.narSize).toList ++ ';' :: t) ∧
      (commaList b.references).toList = t ++ ';' :: a.signedRest := by
  constructor
  · intro h
    rcases (append_cons_eq_append_cons (semicolon_not_mem_hash _)).mp h with
      ⟨-, hrest⟩ | ⟨ds, rfl, hrest⟩
    · exact absurd hrest (signedRest_ne_repr a _ _)
    rcases (append_cons_eq_append_cons (not_mem_repr rfl _)).mp hrest with
      ⟨-, hrefs⟩ | ⟨t, rfl, hrefs⟩
    · exact absurd hrefs (signedRest_ne_commaList a _)
    · exact ⟨t, rfl, hrefs⟩
  · rintro ⟨t, rfl, hrefs⟩
    rw [signedRest, hrefs]
    simp

lemma swallows_iff {a b : NarInfo} : Swallows a b ↔ a.storePath.hash = b.storePath.hash ∧
    ∃ d : List Char, a.storePath.name.toList = b.storePath.name.toList ++ ';' :: d ∧
      b.signedRest = d ++ ';' :: a.signedRest := by
  simp only [Swallows, signedRest_eq_append_iff]
  constructor
  · rintro ⟨hhash, t, hname, hrefs⟩
    exact ⟨hhash, _, hname, t, rfl, hrefs⟩
  · rintro ⟨hhash, _, hname, t, rfl, hrefs⟩
    exact ⟨hhash, t, hname, hrefs⟩

lemma sameText_iff {a b : NarInfo} : SameText a b ↔ a.storePath.hash = b.storePath.hash ∧
    a.storePath.name = b.storePath.name ∧ a.signedRest = b.signedRest := by
  rw [signedRest_inj]
  constructor
  · rintro ⟨hpath, hhash, hsize, hrefs⟩
    rw [hpath]
    exact ⟨rfl, rfl, hhash, hsize, hrefs⟩
  · rintro ⟨hpath, hname, hhash, hsize, hrefs⟩
    refine ⟨?_, hhash, hsize, hrefs⟩
    cases ha : a.storePath
    cases hb : b.storePath
    simp_all

/-- **When two values have the same fingerprint.** -/
lemma fingerprint_eq_iff {a b : NarInfo} :
    a.fingerprint = b.fingerprint ↔ SameText a b ∨ Swallows a b ∨ Swallows b a := by
  rw [fingerprint_eq_iff_rest, sameText_iff, swallows_iff, swallows_iff]
  constructor
  · rintro ⟨hhash, h⟩
    -- the shorter name ends first: there, the longer one has a semicolon
    rcases List.append_eq_append_iff.mp h with ⟨d, hname, hrest⟩ | ⟨d, hname, hrest⟩
    · cases d with
      | nil =>
          rw [List.append_nil] at hname
          exact Or.inl ⟨hhash, (String.toList_inj.mp hname).symm, List.tail_eq_of_cons_eq hrest⟩
      | cons c d =>
          cases List.head_eq_of_cons_eq hrest
          exact Or.inr (Or.inr ⟨hhash.symm, d, hname, List.tail_eq_of_cons_eq hrest⟩)
    · cases d with
      | nil =>
          rw [List.append_nil] at hname
          exact Or.inl ⟨hhash, String.toList_inj.mp hname, (List.tail_eq_of_cons_eq hrest).symm⟩
      | cons c d =>
          cases List.head_eq_of_cons_eq hrest
          exact Or.inr (Or.inl ⟨hhash, d, hname, List.tail_eq_of_cons_eq hrest⟩)
  · rintro (⟨hhash, hname, hrest⟩ | ⟨hhash, d, hname, hrest⟩ | ⟨hhash, d, hname, hrest⟩)
    · exact ⟨hhash, by rw [hname, hrest]⟩
    · exact ⟨hhash, by rw [hname, hrest, List.append_assoc]; rfl⟩
    · exact ⟨hhash.symm, by rw [hname, hrest, List.append_assoc]; rfl⟩

/-! ## The signed fields -/

lemma toStorePathString_injective : Function.Injective StorePathRef.toStorePathString := by
  intro r r' h
  have hchars := congrArg String.toList h
  simp only [StorePathRef.toStorePathString, String.toList_append, List.append_cancel_left_eq,
    String.toList_inj] at hchars
  cases r
  cases r'
  cases hchars
  rfl

/-- The list is sorted, so the order of the references does not show in it. -/
lemma commaList_of_perm {refs refs' : List StorePathRef} (h : refs.Perm refs') :
    commaList refs = commaList refs' := by
  rw [commaList, commaList, Str.sort_eq_sort_iff.mpr (h.map _)]

lemma sameSigned_iff {a b : NarInfo} :
    SameSigned a b ↔ SameText a b ∧ a.references.Perm b.references := by
  constructor
  · rintro ⟨hpath, hhash, hsize, hrefs⟩
    exact ⟨⟨hpath, hhash, hsize, commaList_of_perm hrefs⟩, hrefs⟩
  · rintro ⟨⟨hpath, hhash, hsize, -⟩, hrefs⟩
    exact ⟨hpath, hhash, hsize, hrefs⟩

/-- The name that goes on is another one. -/
lemma Swallows.not_sameText {a b : NarInfo} (h : Swallows a b) : ¬ SameText a b := by
  rintro ⟨hpath, -⟩
  obtain ⟨-, t, hname, -⟩ := h
  rw [hpath] at hname
  have hlen := congrArg List.length hname
  simp at hlen

/-- Without commas the list shows the references. -/
lemma perm_of_commaList_eq {refs refs' : List StorePathRef}
    (hrefs : ∀ r ∈ refs, ',' ∉ r.val.toList) (hrefs' : ∀ r ∈ refs', ',' ∉ r.val.toList)
    (h : commaList refs = commaList refs') : refs.Perm refs' := by
  have hsplit : ∀ refs : List StorePathRef, (∀ r ∈ refs, ',' ∉ r.val.toList) → refs ≠ [] →
      splitChars (· = ',') (commaList refs).toList =
        (Str.sort (refs.map StorePathRef.toStorePathString)).map String.toList := by
    intro refs hrefs hne
    refine splitChars_intercalate (decide_eq_true rfl) rfl ?_ ?_
    · intro s hs c hc
      obtain ⟨r, hr, rfl⟩ := List.mem_map.mp (List.mem_mergeSort.mp hs)
      refine decide_eq_false ?_
      rintro rfl
      rw [StorePathRef.toStorePathString, String.toList_append, List.mem_append] at hc
      exact hc.elim (by decide) (hrefs r hr)
    · intro hnil
      have hlen := congrArg List.length hnil
      rw [Str.sort, List.length_mergeSort, List.length_map] at hlen
      exact hne (List.length_eq_zero_iff.mp hlen)
  by_cases hnil : refs = []
  · have hnil' : refs' = [] := by
      rw [← commaList_eq_empty_iff, ← h, hnil, commaList_nil]
    rw [hnil, hnil']
  · have hnil' : refs' ≠ [] := by
      rwa [ne_eq, ← commaList_eq_empty_iff, ← h, commaList_eq_empty_iff]
    have hpieces := (hsplit refs hrefs hnil).symm.trans
      ((congrArg _ (congrArg String.toList h)).trans (hsplit refs' hrefs' hnil'))
    have hchars : Function.Injective String.toList := fun _ _ => String.toList_inj.mp
    exact (List.map_perm_map_iff toStorePathString_injective).mp
      (Str.sort_eq_sort_iff.mp (List.map_injective_iff.mpr hchars hpieces))

/-- No semicolon is in the name, and no comma in a reference. -/
def Unseparated (info : NarInfo) : Prop :=
  ';' ∉ info.storePath.name.toList ∧ ∀ r ∈ info.references, ',' ∉ r.val.toList

/-- Names without semicolons and references without commas are not confused. -/
lemma not_confused {a b : NarInfo} (ha : Unseparated a) (hb : Unseparated b) : ¬ Confused a b := by
  rintro (⟨hsame, hperm⟩ | ⟨-, t, hname, -⟩ | ⟨-, t, hname, -⟩)
  · exact hperm (perm_of_commaList_eq ha.2 hb.2 hsame.references)
  · exact ha.1 (hname ▸ List.mem_append_right _ List.mem_cons_self)
  · exact hb.1 (hname ▸ List.mem_append_right _ List.mem_cons_self)

/-- **The fingerprint binds the signed fields** just when no separator is confused; so it does where
no name has a semicolon and no reference a comma. -/
theorem fingerprint_binds (a b : NarInfo) :
    ((a.fingerprint = b.fingerprint ↔ SameSigned a b) ↔ ¬ Confused a b) ∧
      (Unseparated a → Unseparated b → ¬ Confused a b) := by
  refine ⟨?_, not_confused⟩
  rw [fingerprint_eq_iff, sameSigned_iff, Confused]
  constructor
  · rintro h (⟨hsame, hperm⟩ | hswallows | hswallows)
    · exact hperm (h.mp (Or.inl hsame)).2
    · exact hswallows.not_sameText (h.mp (Or.inr (Or.inl hswallows))).1
    · obtain ⟨⟨hpath, hhash, hsize, hrefs⟩, -⟩ := h.mp (Or.inr (Or.inr hswallows))
      exact hswallows.not_sameText ⟨hpath.symm, hhash.symm, hsize.symm, hrefs.symm⟩
  · intro h
    rw [not_or] at h
    obtain ⟨hcomma, hsemicolon⟩ := h
    constructor
    · intro hfp
      have hsame := hfp.resolve_right hsemicolon
      exact ⟨hsame, not_not.mp fun hperm => hcomma ⟨hsame, hperm⟩⟩
    · exact fun hsame => Or.inl hsame.1

/-- A reference whose name holds a comma and a store path of its own. -/
def commaPath : StorePath := .zeroHashed "x,/nix/store/00000000000000000000000000000000-y"

/-- A reference to a path with a name. -/
def refOf (p : StorePath) (h : p.name ≠ "") : StorePathRef :=
  ⟨p.basename, p, StorePath.parseBasename_basename p h⟩

/-- One reference with a comma in it. -/
def commaRefs : List StorePathRef := [refOf commaPath (by decide)]

/-- The two references it reads as. -/
def twoRefs : List StorePathRef :=
  [refOf (.zeroHashed "x") (by decide), refOf (.zeroHashed "y") (by decide)]

/-- Both are read from files, and a signature of one is a signature of the other. -/
theorem fingerprint_confused :
    parse zeroLib (zeroInfo commaRefs).render = .ok (zeroInfo commaRefs) ∧
      parse zeroLib (zeroInfo twoRefs).render = .ok (zeroInfo twoRefs) ∧
      (zeroInfo commaRefs).fingerprint = (zeroInfo twoRefs).fingerprint ∧
      ¬ SameSigned (zeroInfo commaRefs) (zeroInfo twoRefs) := by
  refine ⟨?_, ?_, ?_, ?_⟩
  · exact parse_render_of_references (renderable_zeroInfo (by decide)) (List.cons_ne_nil _ _)
  · exact parse_render_of_references (renderable_zeroInfo (by decide)) (List.cons_ne_nil _ _)
  · have hsort : ∀ l : List String, l.Pairwise (fun a b => Str.le a b = true) → Str.sort l = l :=
      fun l h => List.mergeSort_of_pairwise h
    refine fingerprint_eq_iff.mpr (Or.inl ⟨rfl, rfl, rfl, ?_⟩)
    change commaList commaRefs = commaList twoRefs
    rw [commaList, commaList, hsort _ (by decide), hsort _ (by decide)]
    decide
  · rintro ⟨-, -, -, hperm⟩
    exact absurd hperm.length_eq (by decide)

end NarInfo

end Niphas
