import Niphas.Csi.Cache
import Niphas.Lib.DirTree
import Niphas.Nix.NarArchive

/-!
# The tree of a NAR

What a NAR stands for, as a file system of its own, and how it grows entry by entry.

`nodeTree` is the specification of `extract_node`, and it is not taken from its code.  It is a
function from paths to what stands there: a path is looked up component by component in the node.  A
regular file has its contents and its mode, a symlink its target, a directory nothing of its own,
and there is nothing else.  The code goes the other way and makes the entries one after the other;
`graft_nodeTree_directory` is the step that connects the two.

The second part is about names.  The cache directory holds entries and temporary directories side by
side.  They are told apart by the mark in front, which no store path begins with, and temporary
directories of different paths have different names.

* `nodeTree` — the tree: contents, modes and targets, and nothing else.
* `graft_nodeTree_directory` — putting one more entry into the tree of a directory gives the tree of
  the directory with that entry.
* `tmpName_injective`, `StorePath.not_tmp` — the names in the cache directory do not collide.
-/

namespace Niphas

open FileSystem

/-! ## The tree -/

mutual

/-- The tree of a node, looked up by path. -/
def nodeTree : NarNode → FS
  | .regular executable contents, [] => some (.file contents (fileMode executable))
  | .regular _ _, _ :: _ => none
  | .symlink target, [] => some (.symlink target)
  | .symlink _, _ :: _ => none
  | .directory _, [] => some .dir
  | .directory entries, name :: p => entriesTree entries name p

/-- What stands below `name` in a directory. -/
def entriesTree : List NarEntry → String → FS
  | [], _, _ => none
  | ⟨name', node⟩ :: rest, name, p =>
      if name = name' then nodeTree node p else entriesTree rest name p

end

/-- Nothing below an absent name. -/
lemma entriesTree_of_not_mem {name : String} (p : Path) :
    ∀ {entries : List NarEntry}, name ∉ entries.map NarEntry.name →
      entriesTree entries name p = none
  | [], _ => by rw [entriesTree]
  | ⟨name', node⟩ :: rest, h => by
      obtain ⟨hne, hrest⟩ := not_or.mp fun hor => h (List.mem_cons.mpr hor)
      rw [entriesTree, if_neg hne, entriesTree_of_not_mem p hrest]

lemma entriesTree_append {name : String} (p : Path) (node : NarNode) :
    ∀ {entries : List NarEntry}, name ∉ entries.map NarEntry.name →
      entriesTree (entries ++ [⟨name, node⟩]) name p = nodeTree node p
  | [], _ => by rw [List.nil_append, entriesTree, if_pos rfl]
  | ⟨name', node'⟩ :: rest, h => by
      obtain ⟨hne, hrest⟩ := not_or.mp fun hor => h (List.mem_cons.mpr hor)
      rw [List.cons_append, entriesTree, if_neg hne, entriesTree_append p node hrest]

lemma entriesTree_append_of_ne {name name' : String} (hne : name ≠ name') (p : Path)
    (node : NarNode) (entries : List NarEntry) :
    entriesTree (entries ++ [⟨name', node⟩]) name p = entriesTree entries name p := by
  induction entries with
  | nil => simp only [List.nil_append, entriesTree, if_neg hne]
  | cons entry rest ih =>
      obtain ⟨name'', node''⟩ := entry
      rw [List.cons_append, entriesTree, entriesTree, ih]

/-- The tree of an empty directory. -/
lemma nodeTree_empty : nodeTree (.directory []) = emptyDir := by
  funext p
  cases p with
  | nil => rw [nodeTree]; rfl
  | cons name p =>
      rw [nodeTree, entriesTree, emptyDir, set_of_ne _ (List.cons_ne_nil _ _)]
      rfl

lemma nodeTree_leaf {node : NarNode} (h : node.isDirectory = false) :
    nodeTree node = set emptyTree [] (nodeTree node []) := by
  funext p
  cases p with
  | nil => rw [set_self]
  | cons name p =>
      rw [set_of_ne _ (List.cons_ne_nil _ _)]
      cases node with
      | regular executable contents => rw [nodeTree]; rfl
      | symlink target => rw [nodeTree]; rfl
      | directory entries => cases h

/-- **One more entry.** -/
lemma graft_nodeTree_directory {entries : List NarEntry} {name : String} {node : NarNode}
    (h : name ∉ entries.map NarEntry.name) :
    graft (nodeTree (.directory entries)) [name] (nodeTree node) =
      nodeTree (.directory (entries ++ [⟨name, node⟩])) := by
  funext p
  cases p with
  | nil =>
      rw [graft_outside _ (by simp), nodeTree, nodeTree]
  | cons name' p =>
      by_cases hname : name' = name
      · subst hname
        have hcons : name' :: p = [name'] ++ p := rfl
        rw [hcons, graft_append, List.singleton_append, nodeTree, entriesTree_append p node h]
      · have hnot : ¬ [name] <+: name' :: p := by
          rw [List.cons_prefix_cons]
          exact fun hpre => hname hpre.1.symm
        rw [graft_outside _ hnot, nodeTree, nodeTree, entriesTree_append_of_ne hname]

/-- What is put into a place of its own in a tree. -/
lemma graft_leaf {t : FS} {q : Path} (hfree : ∀ p, p ≠ [] → t (q ++ p) = none) (e : Entry) :
    graft t q (set emptyTree [] (some e)) = set t q (some e) := by
  funext p
  by_cases hp : q <+: p
  · obtain ⟨p, rfl⟩ := hp
    rw [graft_append]
    by_cases hnil : p = []
    · subst hnil
      rw [set_self, List.append_nil, set_self]
    · have hne : q ++ p ≠ q := fun h => hnil (List.append_right_eq_self.mp h)
      rw [set_of_ne _ hnil, set_of_ne _ hne, hfree p hnil]
      rfl
  · have hne : p ≠ q := by
      rintro rfl
      exact hp (List.prefix_refl p)
    rw [graft_outside _ hp, set_of_ne _ hne]

/-- A tree within a tree. -/
lemma graft_graft (t u v : FS) (q r : Path) :
    graft (graft t q u) (q ++ r) v = graft t q (graft u r v) := by
  funext p
  by_cases hp : q <+: p
  · obtain ⟨p, rfl⟩ := hp
    rw [graft_append]
    by_cases hr : r <+: p
    · obtain ⟨p, rfl⟩ := hr
      rw [← List.append_assoc, graft_append, graft_append]
    · rw [graft_outside _ hr, graft_outside, graft_append]
      rwa [List.prefix_append_right_inj]
  · have hqr : ¬ q ++ r <+: p := fun h => hp ((List.prefix_append q r).trans h)
    rw [graft_outside _ hqr, graft_outside _ hp, graft_outside _ hp]

/-- The tree that is there already. -/
lemma graft_nil (t u : FS) : graft t [] u = u := funext fun p => graft_append t [] u p

/-! ## Names -/

instance : Trans NarReader.nameLt NarReader.nameLt NarReader.nameLt := ⟨List.lt_trans⟩

/-- Names in strictly ascending order are different. -/
lemma nodup_of_isChain {names : List String} (h : names.IsChain NarReader.nameLt) :
    names.Nodup := by
  refine h.pairwise.imp fun {a b} hab heq => ?_
  subst heq
  exact List.lt_irrefl _ hab

/-- The next name is a new one. -/
lemma not_mem_of_isChain {done rest : List NarEntry} {name : String} {node : NarNode}
    (h : ((done ++ ⟨name, node⟩ :: rest).map NarEntry.name).IsChain NarReader.nameLt) :
    name ∉ done.map NarEntry.name := by
  have hnodup := nodup_of_isChain h
  rw [List.map_append, List.nodup_append] at hnodup
  exact fun hmem => hnodup.2.2 name hmem name List.mem_cons_self rfl

lemma not_mem_repr {c : Char} (hc : c.isDigit = false) (n : ℕ) : c ∉ (Nat.repr n).toList := by
  intro h
  rw [Nat.toList_repr] at h
  have hdigit := Nat.isDigit_of_mem_toDigits (by omega) (by omega) h
  rw [hc] at hdigit
  cases hdigit

lemma toList_tmpName (basename : String) (pid : ℕ) :
    (tmpName basename pid).toList = ".tmp-".toList ++ basename.toList ++ ['-'] ++
      (Nat.repr pid).toList := by
  simp only [tmpName, tmpPrefix, String.toList_append]
  rfl

/-- The name of a temporary directory is a name. -/
lemma isName_tmpName {basename : String} (h : IsName basename) (pid : ℕ) :
    IsName (tmpName basename pid) := by
  have hchars := toList_tmpName basename pid
  have hnot : ∀ c : Char, c ∉ ".tmp-".toList → c ∉ basename.toList → c ≠ '-' → c.isDigit = false →
      c ∉ (tmpName basename pid).toList := by
    intro c htmp hbase hdash hdigit hmem
    simp only [hchars, List.mem_append, List.mem_singleton] at hmem
    rcases hmem with ((hmem | hmem) | hmem) | hmem
    · exact htmp hmem
    · exact hbase hmem
    · exact hdash hmem
    · exact not_mem_repr hdigit pid hmem
  have hlen : 5 < (tmpName basename pid).toList.length := by
    simp only [hchars, List.length_append, List.length_singleton]
    have : ".tmp-".toList.length = 5 := by decide
    omega
  refine ⟨?_, ?_, ?_, hnot '/' (by decide) h.2.2.2.1 (by decide) (by decide),
    hnot '\x00' (by decide) h.2.2.2.2 (by decide) (by decide)⟩
  all_goals
    intro heq
    rw [heq] at hlen
    exact absurd hlen (by decide)

/-- Different paths are extracted to different directories. -/
lemma tmpName_injective (pid : ℕ) : Function.Injective fun basename => tmpName basename pid := by
  intro b b' h
  have hchars := congrArg String.toList h
  simp only [toList_tmpName, List.append_assoc, List.append_cancel_left_eq,
    List.append_cancel_right_eq] at hchars
  exact String.toList_injective hchars

/-- The mark of a temporary directory. -/
def IsTmp (name : String) : Prop := (Str.stripPrefix tmpPrefix name).isSome

instance (name : String) : Decidable (IsTmp name) := inferInstanceAs (Decidable (_ = _))

lemma isTmp_tmpName (basename : String) (pid : ℕ) : IsTmp (tmpName basename pid) := by
  rw [IsTmp, tmpName, String.append_assoc, String.append_assoc, Str.stripPrefix_append]
  rfl

/-- What is read as a store path begins with a digit of its hash. -/
lemma exists_head_of_parseBasename {basename : String} {p : StorePath}
    (h : StorePath.parseBasename basename = .ok p) :
    ∃ c cs, basename.toList = c :: cs ∧ c ∈ nixBase32Chars := by
  rw [← (StorePath.of_parseBasename h).2, StorePath.basename, String.append_assoc,
    String.toList_append]
  cases hhash : p.hashStr.toList with
  | nil =>
      have hlen := p.length_utf8_hashStr
      rw [String.toList_eq_nil_iff.mp hhash] at hlen
      exact absurd hlen (by decide)
  | cons c cs =>
      have hmem : c ∈ p.hashStr.toList := hhash ▸ List.mem_cons_self
      exact ⟨c, _, rfl, mem_nixBase32Chars_of_mem hmem⟩

lemma IsTmp.head_eq {name : String} (h : IsTmp name) : name.toList.head? = some '.' := by
  have hpre : tmpPrefix.toList <+: name.toList := by
    by_contra hpre
    rw [IsTmp, Str.stripPrefix, if_neg hpre] at h
    cases h
  obtain ⟨rest, hrest⟩ := hpre
  rw [← hrest]
  rfl

/-- A store path is not named like a temporary directory. -/
lemma not_isTmp_of_parseBasename {basename : String} {p : StorePath}
    (h : StorePath.parseBasename basename = .ok p) : ¬ IsTmp basename := by
  intro htmp
  obtain ⟨c, cs, hchars, hc⟩ := exists_head_of_parseBasename h
  have hdot := htmp.head_eq
  rw [hchars, List.head?_cons, Option.some.injEq] at hdot
  rw [hdot] at hc
  exact absurd hc (by decide)

/-- The first component of a store path. -/
lemma components_of_parseBasename {basename : String} {p : StorePath}
    (h : StorePath.parseBasename basename = .ok p) :
    isAbsolute basename = false ∧
      ∃ n rest, components basename = n :: rest ∧ n ≠ ".." ∧ ¬ IsTmp n := by
  obtain ⟨c, cs, hchars, hc⟩ := exists_head_of_parseBasename h
  have hslash : c ≠ '/' := by
    rintro rfl
    exact absurd hc (by decide)
  have hdot : c ≠ '.' := by
    rintro rfl
    exact absurd hc (by decide)
  refine ⟨?_, ?_⟩
  · rw [isAbsolute, hchars]
    exact decide_eq_false fun heq => hslash (Option.some.inj heq)
  · obtain ⟨piece, rest, hsplit, hpiece⟩ := Str.splitChars_eq_cons '/' (c :: cs)
    cases piece with
    | nil =>
        cases rest with
        | nil => cases hpiece
        | cons _ _ => exact absurd (List.cons.inj hpiece).1 hslash
    | cons c' piece =>
        obtain ⟨rfl, -⟩ := List.cons.inj hpiece
        have hhead : (String.ofList (c :: piece)).toList.head? = some c := by
          rw [String.toList_ofList]
          rfl
        -- no other name begins like this
        have hne (s : String) (hs : s.toList.head? ≠ some c) : String.ofList (c :: piece) ≠ s := by
          rintro rfl
          exact hs hhead
        have hdots (s : String) (hs : s.toList.head? = some '.') : String.ofList (c :: piece) ≠ s :=
          hne s fun heq => hdot (Option.some.inj (heq.symm.trans hs))
        refine ⟨String.ofList (c :: piece),
          (rest.map String.ofList).filter fun n => n ≠ "" ∧ n ≠ ".", ?_, hdots ".." rfl,
            fun htmp => ?_⟩
        · rw [components, Str.split, hchars, hsplit, List.map_cons, List.filter_cons_of_pos]
          exact decide_eq_true ⟨hne "" fun h => (by cases h), hdots "." rfl⟩
        · exact hdot (Option.some.inj (hhead.symm.trans htmp.head_eq))

end Niphas
