import Niphas.Lib.FileSystem
import Mathlib.Logic.Relation

/-!
# Below a directory

What the calls do at paths below a directory that only the program at hand writes to.  Whatever is
put into the directory, its own path still leads to it, and a path below it that goes through real
directories leads to itself.

Where a path leads depends on all the links on its way, so after any change to the files one has to
ask again.  The answer would be tedious in general, and is simple in two situations.  Either the
files have changed below a directory whose own path does not pass through it: then `Owned` carries
the resolution of everything that begins with this path.  Or the change has put something at a place
that was free, and has taken nothing away: then every path that led anywhere leads there still
(`FreePlace`, `Filled`), whatever else is in the file system.

For each call there is a lemma that says what it leaves in the first of these situations, for
success and for failure.

* `Owned` — a file system that differs from the first one only below the directory.
* `Owned.lookup_eq` — where a path below the directory leads.
* `Owned.write_sem`, `Owned.createDirAll_sem`, .. — what a call leaves there: `SameBut`, nothing
  else than what is at or below the path changes.
* `FsOp.Sem.grows`, `FsOp.Sem.keepsDirs` — the calls that create and change entries remove none, and
  leave directories where they are.
* `createDirAll_same`, `createDirAll_place` — what `create_dir_all` leaves, wherever its path leads
  and also when it fails.
-/

namespace FileSystem

/-! ## Parts of a file system -/

/-- Only what is at `p` and below may differ. -/
def SameBut (p : Path) (fs fs' : FS) : Prop := ∀ q, ¬ p <+: q → fs' q = fs q

lemma SameBut.refl (p : Path) (fs : FS) : SameBut p fs fs := fun _ _ => rfl

lemma set_eq_self {fs : FS} {p : Path} {e : Option Entry} (h : fs p = e) : set fs p e = fs := by
  funext q
  rw [set]
  split
  next hq => rw [hq, h]
  · rfl

lemma set_set (fs : FS) (p : Path) (e e' : Option Entry) : set (set fs p e) p e' = set fs p e' := by
  funext q
  simp only [set]
  split <;> rfl

lemma sameBut_set (fs : FS) {p q : Path} (h : p <+: q) (e : Option Entry) :
    SameBut p fs (set fs q e) := by
  intro r hr
  refine set_of_ne fs ?_ e
  rintro rfl
  exact hr h

lemma sameBut_graft (fs : FS) (p : Path) (t : FS) : SameBut p fs (graft fs p t) :=
  fun _ h => graft_outside fs h t

/-- What changes less. -/
lemma SameBut.mono {p q : Path} {fs fs' : FS} (h : SameBut (p ++ q) fs fs') : SameBut p fs fs' :=
  fun r hr => h r fun hpre => hr ((List.prefix_append p q).trans hpre)

lemma SameBut.trans {p : Path} {fs fs' fs'' : FS} (h : SameBut p fs fs') (h' : SameBut p fs' fs'') :
    SameBut p fs fs'' := fun q hq => (h' q hq).trans (h q hq)

/-- What is put in place of the part that changes. -/
lemma SameBut.eq_graft {p : Path} {fs fs' : FS} (h : SameBut p fs fs') :
    fs' = graft fs p (subtree fs' p) := by
  funext q
  by_cases hq : p <+: q
  · obtain ⟨q, rfl⟩ := hq
    rw [graft_append, subtree]
  · rw [graft_outside _ hq, h q hq]

/-- A part beside the one that changes. -/
lemma SameBut.subtree_eq {p q : Path} {fs fs' : FS} (h : SameBut p fs fs')
    (hpq : ∀ r, ¬ p <+: q ++ r) : subtree fs' q = subtree fs q :=
  funext fun r => h (q ++ r) (hpq r)

lemma subtree_subtree (fs : FS) (p q : Path) : subtree (subtree fs p) q = subtree fs (p ++ q) :=
  funext fun r => congrArg fs (List.append_assoc p q r).symm

lemma graft_subtree (fs : FS) (p : Path) : graft fs p (subtree fs p) = fs := by
  funext q
  by_cases hq : p <+: q
  · obtain ⟨q, rfl⟩ := hq
    rw [graft_append, subtree]
  · exact graft_outside fs hq _

lemma subtree_set (fs : FS) (p q : Path) (e : Option Entry) :
    subtree (set fs (p ++ q) e) p = set (subtree fs p) q e := by
  funext r
  simp only [subtree, set, List.append_cancel_left_eq]

lemma subtree_set_self (fs : FS) (p : Path) (e : Option Entry) :
    subtree (set fs p e) p = set (subtree fs p) [] e := by
  have h := subtree_set fs p [] e
  rwa [List.append_nil] at h

lemma subtree_graft_below (fs : FS) (p q : Path) (t : FS) :
    subtree (graft fs (p ++ q) t) p = graft (subtree fs p) q t := by
  funext r
  by_cases hr : q <+: r
  · obtain ⟨r, rfl⟩ := hr
    rw [subtree, ← List.append_assoc, graft_append, graft_append]
  · have hout : ¬ p ++ q <+: p ++ r := fun h => hr ((List.prefix_append_right_inj p).mp h)
    rw [subtree, graft_outside _ hout, graft_outside _ hr, subtree]

/-- Nothing at all. -/
def emptyTree : FS := fun _ => none

/-- An empty directory. -/
def emptyDir : FS := set emptyTree [] (some .dir)

/-- There is nothing at `p`, or an empty directory. -/
def Vacant (fs : FS) (p : Path) : Prop := subtree fs p = emptyTree ∨ subtree fs p = emptyDir

lemma Vacant.below {fs : FS} {p : Path} (h : Vacant fs p) {q : Path} (hq : q ≠ []) :
    fs (p ++ q) = none := by
  rcases h with h | h
  · exact congrFun h q
  · exact (congrFun h q).trans (set_of_ne emptyTree hq _)

lemma Vacant.self {fs : FS} {p : Path} (h : Vacant fs p) :
    fs p = none ∨ fs p = some .dir := by
  have happ : subtree fs p [] = fs p := by rw [subtree, List.append_nil]
  rcases h with h | h
  · exact .inl (happ ▸ congrFun h [])
  · exact .inr (happ ▸ congrFun h [])

/-! ## The directory -/

/-- `dir` leads to the directory `d`, whatever there is below `d`. -/
structure HomeDir (fs : FS) (dir : String) (d : Path) : Prop where
  leads : ∀ fs' : FS, (∀ p, ¬ Below d p → fs' p = fs p) → lookup fs' true dir = some d
  isDir : fs d = some .dir

/-- `dir` leads to the directory `d`, and there is nothing below it. -/
structure EmptyDir (fs : FS) (dir : String) (d : Path) : Prop where
  leads : lookup fs true dir = some d
  isDir : fs d = some .dir
  empty : ∀ p, Below d p → fs p = none

/-- `fs` differs from `fs₀` only below the directory `d`, where `dir` leads. -/
structure Owned (fs₀ : FS) (dir : String) (d : Path) (fs : FS) : Prop where
  first : HomeDir fs₀ dir d
  same : ∀ p, ¬ Below d p → fs p = fs₀ p

/-- The string `path` names what is at `rel` below `dir`. -/
def Names (dir path : String) (rel : Path) : Prop :=
  components path = components dir ++ rel ∧ '\x00' ∉ path.toList

lemma not_below_self (d : Path) : ¬ Below d d := by
  rintro ⟨c, q, h⟩
  exact List.cons_ne_nil c q (List.self_eq_append_right.mp h)

lemma HomeDir.names {fs : FS} {dir : String} {d : Path} (h : HomeDir fs dir d) :
    Names dir dir [] := by
  refine ⟨(List.append_nil _).symm, fun hnul => ?_⟩
  have hleads := h.leads fs fun _ _ => rfl
  rw [lookup, if_pos hnul] at hleads
  cases hleads

/-- An empty directory is led to whatever is put into it. -/
lemma EmptyDir.home {fs : FS} {dir : String} {d : Path} (h : EmptyDir fs dir d) :
    HomeDir fs dir d := by
  refine ⟨fun fs' hsame => ?_, h.isDir⟩
  have hleads := h.leads
  rw [lookup] at hleads ⊢
  split at hleads
  · cases hleads
  next hnul =>
    rw [if_neg hnul]
    exact resolve_congr h.empty hsame _ _ _ hleads

lemma mem_joinPath {p n : String} {c : Char} (h : c ∈ (joinPath p n).toList) :
    c ∈ p.toList ∨ c = '/' ∨ c ∈ n.toList := by
  rw [joinPath] at h
  split at h
  · exact .inr (.inr h)
  split at h
  · rw [String.toList_append, List.mem_append] at h
    exact h.imp_right .inr
  · have hslash : ("/" : String).toList = ['/'] := rfl
    rw [String.toList_append, String.toList_append, hslash, List.mem_append, List.mem_append,
      List.mem_singleton, or_assoc] at h
    exact h

/-- One name further. -/
lemma Names.join {dir path n : String} {rel : Path} (h : Names dir path rel) (hn : IsName n) :
    Names dir (joinPath path n) (rel ++ [n]) := by
  refine ⟨?_, fun hnul => ?_⟩
  · rw [hn.components_joinPath, h.1, List.append_assoc]
  · rcases mem_joinPath hnul with hp | hslash | hname
    · exact h.2 hp
    · cases hslash
    · exact hn.2.2.2.2 hname

/-- The way to `rel` goes through real directories. -/
def Through (t : FS) (rel : Path) : Prop :=
  (∀ c ∈ rel, c ≠ "..") ∧ ∀ r s, rel = r ++ s → s ≠ [] → t r = some .dir

namespace Owned

variable {fs₀ fs : FS} {dir : String} {d : Path}

lemma isDir (h : Owned fs₀ dir d fs) : fs d = some .dir :=
  (h.same d (not_below_self d)).trans h.first.isDir

/-- The directory keeps its path. -/
lemma lookup_dir (h : Owned fs₀ dir d fs) : lookup fs true dir = some d := h.first.leads fs h.same

lemma resolve_eq (h : Owned fs₀ dir d fs) :
    resolve fs true maxLinks [] (components dir) = some d := by
  have hleads := h.lookup_dir
  rwa [lookup, if_neg h.first.names.2] at hleads

/-- Below the directory, a path through real directories leads to itself. -/
lemma resolve_below (h : Owned fs₀ dir d fs) {rel : Path} (hne : rel ≠ []) {follow : Bool}
    (hrel : Through (subtree fs d) rel)
    (hlast : follow = true → ∀ target, fs (d ++ rel) ≠ some (.symlink target)) :
    resolve fs follow maxLinks [] (components dir ++ rel) = some (d ++ rel) := by
  obtain ⟨n, hn⟩ := resolve_append h.isDir maxLinks _ _ h.resolve_eq
  rw [hn rel follow hne]
  refine resolve_self hrel.1 (fun r c s hq hs => ?_) hlast
  have hdir := hrel.2 (r ++ [c]) s (by rw [hq, List.append_assoc]; rfl) hs
  rwa [subtree, ← List.append_assoc] at hdir

lemma lookup_eq (h : Owned fs₀ dir d fs) {path : String} {rel : Path} (hpath : Names dir path rel)
    (hne : rel ≠ []) {follow : Bool} (hrel : Through (subtree fs d) rel)
    (hlast : follow = true → ∀ target, fs (d ++ rel) ≠ some (.symlink target)) :
    lookup fs follow path = some (d ++ rel) := by
  rw [lookup, if_neg hpath.2, hpath.1, h.resolve_below hne hrel hlast]

/-- What changes below the directory leaves it owned. -/
lemma sameBut (h : Owned fs₀ dir d fs) {rel : Path} (hne : rel ≠ []) {fs' : FS}
    (hfs' : SameBut (d ++ rel) fs fs') : Owned fs₀ dir d fs' := by
  refine ⟨h.first, fun p hp => (hfs' p fun hpre => hp ?_).trans (h.same p hp)⟩
  obtain ⟨q, rfl⟩ := hpre
  obtain ⟨c, rest, rfl⟩ := List.exists_cons_of_ne_nil hne
  exact ⟨c, rest ++ q, by rw [List.append_assoc]; rfl⟩

end Owned

/-! ## Ways below the directory -/

lemma through_nil (t : FS) : Through t [] :=
  ⟨fun _ h => (List.not_mem_nil h).elim,
    fun _ _ h hs => absurd (List.append_eq_nil_iff.mp h.symm).2 hs⟩

/-- A way begins with a name in a directory. -/
lemma Through.cons {t : FS} {n : String} {rel : Path} (hdir : t [] = some .dir) (hn : n ≠ "..")
    (h : Through (subtree t [n]) rel) : Through t (n :: rel) := by
  refine ⟨List.forall_mem_cons.mpr ⟨hn, h.1⟩, fun r s hrs hs => ?_⟩
  rcases List.cons_eq_append_iff.mp hrs with ⟨rfl, -⟩ | ⟨r', rfl, hrs'⟩
  · exact hdir
  · exact h.2 r' s hrs' hs

/-- A way goes on in a directory. -/
lemma Through.snoc {t : FS} {rel : Path} {n : String} (h : Through t rel)
    (hdir : t rel = some .dir) (hn : n ≠ "..") : Through t (rel ++ [n]) := by
  refine ⟨List.forall_mem_append.mpr ⟨h.1, List.forall_mem_singleton.mpr hn⟩, fun r s hrs hs => ?_⟩
  rcases List.append_eq_append_iff.mp hrs with ⟨a, rfl, hs'⟩ | ⟨a, rfl, rfl⟩
  · cases a with
    | nil => rwa [List.append_nil]
    | cons c a =>
        have hs := (List.append_eq_nil_iff.mp (List.cons.inj hs').2.symm).2
        contradiction
  · by_cases ha : a = []
    · subst ha
      rwa [List.append_nil] at hdir
    · exact h.2 r a rfl ha

/-- A way is not lost by what is put at its end. -/
lemma Through.graft {t u : FS} {rel : Path} (h : Through t rel) :
    Through (graft t rel u) rel := by
  refine ⟨h.1, fun r s hrs hs => ?_⟩
  rw [graft_outside _ ?_]
  · exact h.2 r s hrs hs
  · rintro ⟨s', hs'⟩
    rw [← hs', List.append_assoc] at hrs
    exact hs (List.append_eq_nil_iff.mp (List.self_eq_append_right.mp hrs)).2

/-- Nor by what changes there. -/
lemma Through.sameBut {d rel : Path} {fs fs' : FS} (h : Through (subtree fs d) rel)
    (hs : SameBut (d ++ rel) fs fs') : Through (subtree fs' d) rel := by
  refine ⟨h.1, fun r s hrs hne => ?_⟩
  have hout : ¬ d ++ rel <+: d ++ r := by
    rw [List.prefix_append_right_inj, hrs]
    rintro ⟨t, ht⟩
    rw [List.append_assoc] at ht
    exact hne (List.append_eq_nil_iff.mp (List.append_right_eq_self.mp ht)).1
  exact (hs _ hout).trans (h.2 r s hrs hne)

/-- What was put below is gone with the tree it was put into. -/
lemma graft_graft_below (t u v : FS) (p q : Path) :
    graft (graft t (p ++ q) u) p v = graft t p v := by
  funext r
  by_cases hr : p <+: r
  · obtain ⟨r, rfl⟩ := hr
    rw [graft_append, graft_append]
  · have hbelow : ¬ p ++ q <+: r := fun h => hr ((List.prefix_append p q).trans h)
    rw [graft_outside _ hr, graft_outside _ hbelow, graft_outside _ hr]

lemma graft_graft_self (t u v : FS) (p : Path) : graft (graft t p u) p v = graft t p v := by
  have h := graft_graft_below t u v p []
  rwa [List.append_nil] at h

/-! ## Directories that are there already -/

/-- What leads to a directory leads to something also where its last link is not followed. -/
lemma resolve_entry_ne_none {fs : FS} {d : Path} (hd : fs d = some .dir) :
    ∀ (links : ℕ) (p cur v : Path), resolve fs true links cur p = some d →
      resolve fs false links cur p = some v → fs v ≠ none := by
  intro links
  induction links using Nat.strong_induction_on with
  | _ links ihl =>
  intro p
  induction p with
  | nil =>
      intro cur v h h'
      rw [resolve_nil, Option.some.injEq] at h h'
      rw [← h', h, hd]
      exact nofun
  | cons c rest ih =>
      intro cur v h h'
      rw [resolve_cons] at h h'
      by_cases hc : c = ".."
      · rw [if_pos hc] at h h'
        exact ih _ v h h'
      rw [if_neg hc] at h h'
      match hfs : fs (cur ++ [c]) with
      | some .dir =>
          simp only [hfs] at h h'
          exact ih _ v h h'
      | some (.symlink target) =>
          simp only [hfs, Bool.true_eq_false, and_false, and_true, if_false] at h h'
          split at h'
          · cases h'
            rw [hfs]
            exact nofun
          cases links with
          | zero => cases h
          | succ links => exact ihl links (Nat.lt_succ_self links) _ _ v h h'
      | some (.file contents mode) =>
          simp only [hfs] at h'
          split at h'
          · cases h'
            rw [hfs]
            exact nofun
          · cases h'
      | none =>
          simp only [hfs] at h
          split at h
          · rw [Option.some.injEq] at h
            rw [h, hd] at hfs
            cases hfs
          · cases h

/-- Where the path leads to a directory, there is nothing to create. -/
lemma createDirs_of_isDir {fs : FS} {d p : Path} (hd : fs d = some .dir)
    (h : resolve fs true maxLinks [] p = some d) : createDirs fs p.reverse = ([], true) := by
  cases hrev : p.reverse with
  | nil => rfl
  | cons c parent =>
      have hback : (c :: parent).reverse = p := by rw [← hrev, List.reverse_reverse]
      have hdir : isDir fs p = true := by
        rw [isDir, h]
        exact decide_eq_true hd
      simp only [createDirs, hback, mkdir, hdir, if_true]
      cases hv : resolve fs false maxLinks [] p with
      | none => rfl
      | some v =>
          have hne := resolve_entry_ne_none hd _ _ _ v h hv
          simp only [if_neg hne]

/-! ## Growth

A program that only creates entries can be followed without knowing which: nothing that was there
goes away, and no path that led somewhere leads anywhere else.
-/

/-- The calls that create entries and change them. -/
def FsOp.Writes : FsOp → Prop
  | .write _ _ => True
  | .setPermissions _ _ => True
  | .symlink _ _ => True
  | .createDirAll _ => True
  | _ => False

/-- Nothing goes away. -/
def Grows (fs fs' : FS) : Prop := ∀ p, fs p ≠ none → fs' p ≠ none

/-- Something is put at one place, where nothing stands or a file. -/
def Puts (fs fs' : FS) : Prop :=
  ∃ (v : Path) (e : Entry), (∃ mode, Writable fs v mode) ∧ fs' = set fs v (some e)

/-- A directory is made where nothing stands. -/
def Makes (fs fs' : FS) : Prop := ∃ v, fs v = none ∧ fs' = set fs v (some .dir)

lemma Makes.puts {fs fs' : FS} (h : Makes fs fs') : Puts fs fs' := by
  obtain ⟨v, hnone, rfl⟩ := h
  exact ⟨v, .dir, ⟨0, .inl hnone⟩, rfl⟩

lemma mkdir_makes {fs fs' : FS} {p : Path} (h : mkdir fs p = .ok fs') : Makes fs fs' := by
  rw [mkdir] at h
  split at h
  · split at h
    next hnone =>
      cases h
      exact ⟨_, hnone, rfl⟩
    · cases h
  · cases h

lemma createDirs_makes (fs : FS) :
    ∀ l : List String, ∀ fs' ∈ (createDirs fs l).1, Relation.ReflTransGen Makes fs fs' := by
  intro l
  induction l with
  | nil => exact fun fs' h => (List.not_mem_nil h).elim
  | cons c parent ih =>
      intro fs' h
      have hlast :
          Relation.ReflTransGen Makes fs ((createDirs fs parent).1.getLast?.getD fs) := by
        cases hl : (createDirs fs parent).1.getLast? with
        | none => exact .refl
        | some last => exact ih last (List.mem_of_getLast? hl)
      rw [createDirs] at h
      split at h
      next hmk =>
        rw [List.mem_singleton.mp h]
        exact .single (mkdir_makes hmk)
      · cases h
      · split at h
        · cases h
        dsimp only at h
        split at h
        · split at h
          next hmk =>
            rcases List.mem_append.mp h with h | h
            · exact ih fs' h
            · rw [List.mem_singleton.mp h]
              exact hlast.tail (mkdir_makes hmk)
          · exact ih fs' h
        · exact ih fs' h

/-- What a failed `create_dir_all` leaves is a state on its way. -/
lemma mem_of_mem_failed {l : List FS} {b : Bool} {fs' : FS}
    (h : fs' ∈ if b then l.dropLast else l) : fs' ∈ l := by
  split at h
  · exact List.dropLast_subset l h
  · exact h

/-- `create_dir_all` makes one directory after the other, also when it fails. -/
lemma createDirAll_makes {fs fs' : FS} {path : String} {r : Except String Unit}
    (hs : (FsOp.createDirAll path).Sem fs r fs') : Relation.ReflTransGen Makes fs fs' := by
  rcases r with e | ⟨⟩
  · rcases hs with rfl | hmem
    · exact .refl
    · exact createDirs_makes _ _ _ (mem_of_mem_failed hmem)
  · obtain ⟨-, -, rfl⟩ := hs
    cases hl : (createDirs fs (components path).reverse).1.getLast? with
    | none => exact .refl
    | some last => exact createDirs_makes _ _ _ (List.mem_of_getLast? hl)

/-- It leaves what there is as it is. -/
lemma createDirAll_same {fs fs' : FS} {path : String} {r : Except String Unit}
    (hs : (FsOp.createDirAll path).Sem fs r fs') : ∀ p, fs p ≠ none → fs' p = fs p := by
  have hmakes := createDirAll_makes hs
  clear hs
  induction hmakes with
  | refl => exact fun _ _ => rfl
  | tail _ hmakes ih =>
      obtain ⟨v, hnone, rfl⟩ := hmakes
      intro p hp
      have hne : p ≠ v := by
        rintro rfl
        rw [ih p hp] at hnone
        exact hp hnone
      rw [set_of_ne _ hne, ih p hp]

/-- The calls that create and change entries put one in place after the other. -/
lemma FsOp.Sem.puts {o : FsOp} (ho : o.Writes) {fs fs' : FS} {r : o.Answer}
    (hs : o.Sem fs r fs') : Relation.ReflTransGen Puts fs fs' := by
  cases o with
  | write path contents =>
      rcases r with e | ⟨⟩
      · rcases hs with rfl | ⟨v, mode, other, -, hv, rfl⟩
        · exact .refl
        · exact .single ⟨v, _, ⟨mode, hv⟩, rfl⟩
      · obtain ⟨v, mode, -, hv, rfl⟩ := hs
        exact .single ⟨v, _, ⟨mode, hv⟩, rfl⟩
  | setPermissions path mode =>
      rcases r with e | ⟨⟩
      · cases hs
        exact .refl
      · obtain ⟨v, -, ⟨contents, old, hv, rfl⟩ | ⟨-, rfl⟩⟩ := hs
        · exact .single ⟨v, _, ⟨old, .inr ⟨contents, hv⟩⟩, rfl⟩
        · exact .refl
  | symlink target path =>
      rcases r with e | ⟨⟩
      · cases hs
        exact .refl
      · obtain ⟨-, v, -, hv, rfl⟩ := hs
        exact .single ⟨v, _, ⟨0, .inl hv⟩, rfl⟩
  | createDirAll path =>
      exact Relation.ReflTransGen.mono (fun _ _ => Makes.puts) _ _ (createDirAll_makes hs)
  | «exists» | rename | removeDirAll | readDir => cases ho

/-- **Growth.**  The calls that create and change entries remove none. -/
lemma FsOp.Sem.grows {o : FsOp} (ho : o.Writes) {fs fs' : FS} {r : o.Answer}
    (hs : o.Sem fs r fs') : Grows fs fs' := by
  have hputs := hs.puts ho
  clear hs
  induction hputs with
  | refl => exact fun _ h => h
  | tail _ hputs ih =>
      obtain ⟨v, e, -, rfl⟩ := hputs
      intro p hp
      rw [set]
      split
      · exact nofun
      · exact ih p hp

/-- They leave every directory and every symbolic link where it is. -/
lemma FsOp.Sem.keeps {o : FsOp} (ho : o.Writes) {fs fs' : FS} {r : o.Answer}
    (hs : o.Sem fs r fs') {e : Entry} (he : ∀ contents mode, e ≠ .file contents mode) :
    ∀ p, fs p = some e → fs' p = some e := by
  have hputs := hs.puts ho
  clear hs
  induction hputs with
  | refl => exact fun _ h => h
  | tail _ hputs ih =>
      obtain ⟨v, e', ⟨mode, hv⟩, rfl⟩ := hputs
      intro p hp
      have hne : p ≠ v := by
        rintro rfl
        rcases hv with hnone | ⟨contents, hfile⟩
        · rw [ih p hp] at hnone
          cases hnone
        · rw [ih p hp, Option.some.injEq] at hfile
          exact he _ _ hfile
      rw [set_of_ne _ hne]
      exact ih p hp

lemma FsOp.Sem.keepsDirs {o : FsOp} (ho : o.Writes) {fs fs' : FS} {r : o.Answer}
    (hs : o.Sem fs r fs') : ∀ p, fs p = some .dir → fs' p = some .dir :=
  hs.keeps ho fun _ _ => nofun

/-- A name in the last place, which is not followed, leads to itself. -/
lemma resolve_last (fs : FS) (links : ℕ) (cur : Path) {c : String} (hc : c ≠ "..") :
    resolve fs false links cur [c] = some (cur ++ [c]) := by
  rw [resolve_cons, if_neg hc]
  split <;> simp only [resolve_nil, and_self, if_true]

/-- Where directories and links stay, a path whose last link is not followed leads where it led. -/
lemma resolve_keeps {fs fs' : FS}
    (h : ∀ e : Entry, (∀ contents mode, e ≠ .file contents mode) →
      ∀ p, fs p = some e → fs' p = some e) :
    ∀ (links : ℕ) (p cur v : Path), resolve fs false links cur p = some v →
      resolve fs' false links cur p = some v := by
  intro links
  induction links using Nat.strong_induction_on with
  | _ links ihl =>
  intro p
  induction p with
  | nil =>
      intro cur v hv
      rwa [resolve_nil] at hv ⊢
  | cons c rest ih =>
      intro cur v hv
      by_cases hc : c = ".."
      · rw [resolve_cons, if_pos hc] at hv ⊢
        exact ih _ v hv
      by_cases hrest : rest = []
      · subst hrest
        rw [← hv, resolve_last _ _ _ hc, resolve_last _ _ _ hc]
      rw [resolve_cons, if_neg hc] at hv ⊢
      match hfs : fs (cur ++ [c]) with
      | some .dir =>
          simp only [hfs] at hv
          simp only [h .dir (fun _ _ => nofun) _ hfs]
          exact ih _ v hv
      | some (.symlink target) =>
          simp only [hfs, hrest, false_and, if_false] at hv
          simp only [h (.symlink target) (fun _ _ => nofun) _ hfs, hrest, false_and, if_false]
          cases links with
          | zero => cases hv
          | succ links => exact ihl links (Nat.lt_succ_self links) _ _ v hv
      | some (.file contents mode) =>
          simp only [hfs, if_neg hrest] at hv
          cases hv
      | none =>
          simp only [hfs, if_neg hrest] at hv
          cases hv

/-- The calls that create and change entries leave every path where it leads. -/
lemma FsOp.Sem.keeps_lookup {o : FsOp} (ho : o.Writes) {fs fs' : FS} {r : o.Answer}
    (hs : o.Sem fs r fs') {path : String} {v : Path} (h : lookup fs false path = some v) :
    lookup fs' false path = some v := by
  rw [lookup] at h ⊢
  split at h
  · cases h
  next hnul =>
    rw [if_neg hnul]
    exact resolve_keeps (fun _ he => hs.keeps ho he) _ _ _ _ h

/-- Where a path leads to a place, `create_dir_all` makes a directory there or nothing, and nothing
when it fails. -/
lemma createDirAll_place {fs fs' : FS} {path : String} {v : Path}
    (h : lookup fs false path = some v) {r : Except String Unit}
    (hs : (FsOp.createDirAll path).Sem fs r fs') :
    fs' = fs ∨ r = .ok () ∧ fs' = set fs v (some .dir) := by
  rw [lookup] at h
  split at h
  · cases h
  have hdirs : (createDirs fs (components path).reverse).1 = [] ∨
      createDirs fs (components path).reverse = ([set fs v (some .dir)], true) := by
    cases hrev : (components path).reverse with
    | nil => exact .inl rfl
    | cons c parent =>
        have hback : (c :: parent).reverse = components path := by
          rw [← hrev, List.reverse_reverse]
        by_cases hnone : fs v = none
        · refine .inr ?_
          simp only [createDirs, hback, mkdir, h, hnone, if_true]
        · refine .inl ?_
          simp only [createDirs, hback, mkdir, h, if_neg hnone]
  rcases hdirs with hdirs | hdirs <;> rcases r with e | ⟨⟩
  · rcases hs with rfl | hmem
    · exact .inl rfl
    · rw [hdirs] at hmem
      split at hmem <;> cases hmem
  · obtain ⟨-, -, rfl⟩ := hs
    rw [hdirs]
    exact .inl rfl
  · rcases hs with rfl | hmem
    · exact .inl rfl
    · rw [hdirs] at hmem
      cases hmem
  · obtain ⟨-, -, rfl⟩ := hs
    rw [hdirs]
    exact .inr ⟨rfl, rfl⟩

/-! ## What the calls leave -/

namespace Owned

variable {fs₀ fs fs' : FS} {dir path : String} {d rel : Path}

/-- A path leads nowhere else. -/
lemma eq_of_lookup (h : Owned fs₀ dir d fs) (hpath : Names dir path rel) (hne : rel ≠ [])
    {follow : Bool} (hrel : Through (subtree fs d) rel)
    (hlast : follow = true → ∀ target, fs (d ++ rel) ≠ some (.symlink target)) {v : Path}
    (hv : lookup fs follow path = some v) : v = d ++ rel :=
  Option.some.inj (hv.symm.trans (h.lookup_eq hpath hne hrel hlast))

/-- Whatever stands at its end, where that is not followed. -/
lemma eq_of_lookup_entry (h : Owned fs₀ dir d fs) (hpath : Names dir path rel) (hne : rel ≠ [])
    (hrel : Through (subtree fs d) rel) {v : Path} (hv : lookup fs false path = some v) :
    v = d ++ rel :=
  h.eq_of_lookup hpath hne hrel (fun h => absurd h Bool.false_ne_true) hv

lemma exists_sem (h : Owned fs₀ dir d fs) (hpath : Names dir path rel) (hne : rel ≠ [])
    (hrel : Through (subtree fs d) rel) (hlast : ∀ target, fs (d ++ rel) ≠ some (.symlink target))
    {r : Bool} (hs : (FsOp.exists path).Sem fs r fs') :
    fs' = fs ∧ (r = true → fs (d ++ rel) ≠ none) := by
  refine ⟨hs.1, fun hr => ?_⟩
  obtain ⟨v, hv, hsome⟩ := hs.2 hr
  rwa [h.eq_of_lookup hpath hne hrel (fun _ => hlast) hv] at hsome

lemma write_sem (h : Owned fs₀ dir d fs) (hpath : Names dir path rel) (hne : rel ≠ [])
    (hrel : Through (subtree fs d) rel) (hlast : ∀ target, fs (d ++ rel) ≠ some (.symlink target))
    {contents : List UInt8} {r : Except String Unit}
    (hs : (FsOp.write path contents).Sem fs r fs') :
    SameBut (d ++ rel) fs fs' ∧
      (r = .ok () → ∃ mode, fs' = set fs (d ++ rel) (some (.file contents mode))) := by
  rcases r with e | ⟨⟩
  · refine ⟨?_, nofun⟩
    rcases hs with rfl | ⟨v, mode, other, hv, -, rfl⟩
    · exact SameBut.refl _ _
    · rw [h.eq_of_lookup hpath hne hrel (fun _ => hlast) hv]
      exact sameBut_set _ (List.prefix_refl _) _
  · obtain ⟨v, mode, hv, -, rfl⟩ := hs
    rw [h.eq_of_lookup hpath hne hrel (fun _ => hlast) hv]
    exact ⟨sameBut_set _ (List.prefix_refl _) _, fun _ => ⟨mode, rfl⟩⟩

lemma setPermissions_sem (h : Owned fs₀ dir d fs) (hpath : Names dir path rel) (hne : rel ≠ [])
    (hrel : Through (subtree fs d) rel) {contents : List UInt8} {old mode : ℕ}
    (hfile : fs (d ++ rel) = some (.file contents old)) {r : Except String Unit}
    (hs : (FsOp.setPermissions path mode).Sem fs r fs') :
    SameBut (d ++ rel) fs fs' ∧
      (r = .ok () → fs' = set fs (d ++ rel) (some (.file contents mode))) := by
  have hlast : ∀ target, fs (d ++ rel) ≠ some (.symlink target) := by
    intro target
    rw [hfile]
    exact nofun
  rcases r with e | ⟨⟩
  · cases hs
    exact ⟨SameBut.refl _ _, nofun⟩
  · obtain ⟨v, hv, hset⟩ := hs
    rw [h.eq_of_lookup hpath hne hrel (fun _ => hlast) hv, hfile] at hset
    rcases hset with ⟨contents', old', hc, rfl⟩ | ⟨hdir, -⟩
    · cases hc
      exact ⟨sameBut_set _ (List.prefix_refl _) _, fun _ => rfl⟩
    · cases hdir

lemma symlink_sem (h : Owned fs₀ dir d fs) (hpath : Names dir path rel) (hne : rel ≠ [])
    (hrel : Through (subtree fs d) rel) {target : String} {r : Except String Unit}
    (hs : (FsOp.symlink target path).Sem fs r fs') :
    SameBut (d ++ rel) fs fs' ∧
      (r = .ok () → fs' = set fs (d ++ rel) (some (.symlink target))) := by
  rcases r with e | ⟨⟩
  · cases hs
    exact ⟨SameBut.refl _ _, nofun⟩
  · obtain ⟨-, v, hv, -, rfl⟩ := hs
    rw [h.eq_of_lookup_entry hpath hne hrel hv]
    exact ⟨sameBut_set _ (List.prefix_refl _) _, fun _ => rfl⟩

/-- The states `create_dir_all` passes through where its parent is there already. -/
lemma createDirs_eq (h : Owned fs₀ dir d fs) (hpath : Names dir path rel) (hne : rel ≠ [])
    (hrel : Through (subtree fs d) rel) (hfree : fs (d ++ rel) = none ∨ fs (d ++ rel) = some .dir) :
    createDirs fs (components path).reverse =
      (if fs (d ++ rel) = none then [set fs (d ++ rel) (some .dir)] else [], true) := by
  have hlast : ∀ target, fs (d ++ rel) ≠ some (.symlink target) := by
    rcases hfree with hfree | hfree <;>
      · intro target
        rw [hfree]
        exact nofun
  have hres : ∀ follow, resolve fs follow maxLinks [] (components path) = some (d ++ rel) := by
    intro follow
    rw [hpath.1]
    exact h.resolve_below hne hrel fun _ => hlast
  have hcons : (components path).reverse ≠ [] := by
    rw [hpath.1, List.reverse_append]
    exact fun hnil => hne (List.reverse_eq_nil_iff.mp (List.append_eq_nil_iff.mp hnil).1)
  obtain ⟨c, parent, hrev⟩ := List.exists_cons_of_ne_nil hcons
  have hback : (c :: parent).reverse = components path := by rw [← hrev, List.reverse_reverse]
  rw [hrev]
  simp only [createDirs, hback, mkdir, hres]
  rcases hfree with hfree | hfree
  · simp only [hfree, if_true]
  · simp only [hfree, reduceCtorEq, if_false, FileSystem.isDir, hres, decide_true]

/-- There it leaves nothing behind when it fails. -/
lemma createDirAll_error (h : Owned fs₀ dir d fs) (hpath : Names dir path rel) (hne : rel ≠ [])
    (hrel : Through (subtree fs d) rel) (hfree : fs (d ++ rel) = none ∨ fs (d ++ rel) = some .dir)
    {e : String} (hs : (FsOp.createDirAll path).Sem fs (.error e) fs') : fs' = fs := by
  have hdirs := h.createDirs_eq hpath hne hrel hfree
  rcases hs with rfl | hmem
  · rfl
  · simp only [hdirs, if_true] at hmem
    split at hmem <;> cases hmem

lemma createDirAll_sem (h : Owned fs₀ dir d fs) (hpath : Names dir path rel) (hne : rel ≠ [])
    (hrel : Through (subtree fs d) rel) (hfree : fs (d ++ rel) = none ∨ fs (d ++ rel) = some .dir)
    {r : Except String Unit} (hs : (FsOp.createDirAll path).Sem fs r fs') :
    SameBut (d ++ rel) fs fs' ∧ (r = .ok () → fs' = set fs (d ++ rel) (some .dir)) := by
  rcases r with e | ⟨⟩
  · rw [h.createDirAll_error hpath hne hrel hfree hs]
    exact ⟨SameBut.refl _ _, nofun⟩
  · have hdirs := h.createDirs_eq hpath hne hrel hfree
    obtain ⟨-, -, rfl⟩ := hs
    have heq : (createDirs fs (components path).reverse).1.getLast?.getD fs =
        set fs (d ++ rel) (some .dir) := by
      rw [hdirs]
      split
      · rfl
      next hsome => exact (set_eq_self (hfree.resolve_left hsome)).symm
    rw [heq]
    exact ⟨sameBut_set _ (List.prefix_refl _) _, fun _ => rfl⟩

/-- The directory itself is there already. -/
lemma createDirAll_dir (h : Owned fs₀ dir d fs) {r : Except String Unit}
    (hs : (FsOp.createDirAll dir).Sem fs r fs') : fs' = fs := by
  have hdirs := createDirs_of_isDir h.isDir h.resolve_eq
  rcases r with e | ⟨⟩
  · rcases hs with rfl | hmem
    · rfl
    · rw [hdirs] at hmem
      cases hmem
  · obtain ⟨-, -, rfl⟩ := hs
    rw [hdirs]
    rfl

lemma removeDirAll_sem (h : Owned fs₀ dir d fs) (hpath : Names dir path rel) (hne : rel ≠ [])
    (hrel : Through (subtree fs d) rel) {r : Except String Unit}
    (hs : (FsOp.removeDirAll path).Sem fs r fs') : SameBut (d ++ rel) fs fs' := by
  rcases r with e | ⟨⟩
  · rcases hs with rfl | ⟨v, hv, hq⟩
    · exact SameBut.refl _ _
    · rw [h.eq_of_lookup_entry hpath hne hrel hv] at hq
      exact fun q hq' => (hq q).resolve_right fun hpre => hq' hpre.1
  · obtain ⟨v, hv, rfl⟩ := hs
    rw [h.eq_of_lookup_entry hpath hne hrel hv]
    exact sameBut_graft _ _ _

lemma rename_sem (h : Owned fs₀ dir d fs) {dst : String} {rel' : Path}
    (hpath : Names dir path rel) (hne : rel ≠ []) (hrel : Through (subtree fs d) rel)
    (hpath' : Names dir dst rel') (hne' : rel' ≠ []) (hrel' : Through (subtree fs d) rel')
    {r : Except String Unit} (hs : (FsOp.rename path dst).Sem fs r fs') :
    fs' = fs ∨
      r = .ok () ∧ fs (d ++ rel) ≠ none ∧ fs' = moveTree fs (d ++ rel) (d ++ rel') := by
  rcases r with e | ⟨⟩
  · exact .inl hs
  · obtain ⟨u, v, hu, hsome, hv, -, rfl⟩ := hs
    rw [h.eq_of_lookup_entry hpath hne hrel hu] at hsome ⊢
    rw [h.eq_of_lookup_entry hpath' hne' hrel' hv]
    exact .inr ⟨rfl, hsome, rfl⟩

/-! ### What the calls may do -/

lemma exists_ok (h : Owned fs₀ dir d fs) (hpath : Names dir path rel) (hne : rel ≠ [])
    (hrel : Through (subtree fs d) rel) (hdir : fs (d ++ rel) = some .dir) :
    (FsOp.exists path).Sem fs true fs := by
  refine ⟨rfl, fun _ => ⟨d ++ rel, h.lookup_eq hpath hne hrel fun _ target => ?_, ?_⟩⟩
  · rw [hdir]
    exact nofun
  · rw [hdir]
    exact nofun

lemma write_ok (h : Owned fs₀ dir d fs) (hpath : Names dir path rel) (hne : rel ≠ [])
    (hrel : Through (subtree fs d) rel) (hnone : fs (d ++ rel) = none) (contents : List UInt8)
    (mode : ℕ) : (FsOp.write path contents).Sem fs (.ok ())
      (set fs (d ++ rel) (some (.file contents mode))) := by
  refine ⟨d ++ rel, mode, h.lookup_eq hpath hne hrel fun _ target => ?_, .inl hnone, rfl⟩
  rw [hnone]
  exact nofun

lemma setPermissions_ok (h : Owned fs₀ dir d fs) (hpath : Names dir path rel) (hne : rel ≠ [])
    (hrel : Through (subtree fs d) rel) {contents : List UInt8} {old : ℕ}
    (hfile : fs (d ++ rel) = some (.file contents old)) (mode : ℕ) :
    (FsOp.setPermissions path mode).Sem fs (.ok ())
      (set fs (d ++ rel) (some (.file contents mode))) := by
  refine ⟨d ++ rel, h.lookup_eq hpath hne hrel fun _ target => ?_, .inl ⟨contents, old, hfile, rfl⟩⟩
  rw [hfile]
  exact nofun

lemma symlink_ok (h : Owned fs₀ dir d fs) (hpath : Names dir path rel) (hne : rel ≠ [])
    (hrel : Through (subtree fs d) rel) (hnone : fs (d ++ rel) = none) {target : String}
    (htarget : IsTarget target) :
    (FsOp.symlink target path).Sem fs (.ok ()) (set fs (d ++ rel) (some (.symlink target))) :=
  ⟨htarget, d ++ rel, h.lookup_eq hpath hne hrel fun hf => absurd hf Bool.false_ne_true, hnone, rfl⟩

lemma createDirAll_ok (h : Owned fs₀ dir d fs) (hpath : Names dir path rel) (hne : rel ≠ [])
    (hrel : Through (subtree fs d) rel)
    (hfree : fs (d ++ rel) = none ∨ fs (d ++ rel) = some .dir) :
    (FsOp.createDirAll path).Sem fs (.ok ()) (set fs (d ++ rel) (some .dir)) := by
  have hdirs := h.createDirs_eq hpath hne hrel hfree
  refine ⟨hpath.2, ?_, ?_⟩
  · rw [hdirs]
  · rw [hdirs]
    split
    · rfl
    next hsome => exact set_eq_self (hfree.resolve_left hsome)

/-- The directory itself is there already. -/
lemma createDirAll_dir_ok (h : Owned fs₀ dir d fs) :
    (FsOp.createDirAll dir).Sem fs (.ok ()) fs := by
  have hdirs := createDirs_of_isDir h.isDir h.resolve_eq
  refine ⟨h.first.names.2, ?_, ?_⟩
  · rw [hdirs]
  · rw [hdirs]
    rfl

lemma rename_ok (h : Owned fs₀ dir d fs) {dst : String} {rel' : Path}
    (hpath : Names dir path rel) (hne : rel ≠ []) (hrel : Through (subtree fs d) rel)
    (hpath' : Names dir dst rel') (hne' : rel' ≠ []) (hrel' : Through (subtree fs d) rel')
    (hsome : fs (d ++ rel) ≠ none) (hnone : fs (d ++ rel') = none) (hout : ¬ rel <+: rel') :
    (FsOp.rename path dst).Sem fs (.ok ()) (moveTree fs (d ++ rel) (d ++ rel')) :=
  ⟨d ++ rel, d ++ rel', h.lookup_eq hpath hne hrel fun hf => absurd hf Bool.false_ne_true, hsome,
    h.lookup_eq hpath' hne' hrel' fun hf => absurd hf Bool.false_ne_true,
    ⟨fun hpre => hout ((List.prefix_append_right_inj d).mp hpre), .inl hnone⟩, rfl⟩

end Owned

/-! ## Free places

The place of something that is to be made.  It is enough that its own path leads there, whatever
else does.
-/

/-- `path` leads to a place where nothing stands. -/
structure FreePlace (fs : FS) (path : String) (v : Path) : Prop where
  leads : lookup fs false path = some v
  free : subtree fs v = emptyTree

/-- A place that a directory has been made at, with whatever has been put into it since. -/
structure Filled (fs : FS) (v : Path) (fs' : FS) : Prop where
  isDir : fs' v = some .dir
  same : SameBut v fs fs'

/-- A path that leads to a free place, or elsewhere, leads there still when the place is taken.  A
link in the last place is one that is not followed.  No path leads to below a free place. -/
lemma resolve_filled {fs fs' : FS} {v u : Path} (hfree : subtree fs v = emptyTree)
    (h : Filled fs v fs') {follow : Bool} (hfollow : u = v ∨ follow = false) :
    ∀ (links : ℕ) (p cur : Path), ¬ v <+: cur → resolve fs false links cur p = some u →
      resolve fs' follow links cur p = some u ∧ (v <+: u → u = v) := by
  -- what stands in the first files is not at the free place
  have hnone : ∀ q, v <+: q → fs q = none := by
    rintro _ ⟨q, rfl⟩
    exact congrFun hfree q
  have hsame : ∀ q e, fs q = some e → fs' q = some e ∧ ¬ v <+: q := by
    intro q e hq
    have hout : ¬ v <+: q := fun hpre => by
      rw [hnone q hpre] at hq
      cases hq
    exact ⟨(h.same q hout).trans hq, hout⟩
  intro links
  induction links using Nat.strong_induction_on with
  | _ links ihl =>
  intro p
  induction p with
  | nil =>
      intro cur hcur hres
      rw [resolve_nil, Option.some.injEq] at hres
      subst hres
      exact ⟨resolve_nil _ _ _ _, fun hpre => absurd hpre hcur⟩
  | cons c rest ih =>
      intro cur hcur hres
      rw [resolve_cons] at hres ⊢
      by_cases hc : c = ".."
      · rw [if_pos hc] at hres ⊢
        exact ih _ (fun hpre => hcur (hpre.trans (List.dropLast_prefix cur))) hres
      rw [if_neg hc] at hres ⊢
      match hfs : fs (cur ++ [c]) with
      | some .dir =>
          simp only [hfs] at hres
          simp only [(hsame _ _ hfs).1]
          exact ih _ (hsame _ _ hfs).2 hres
      | some (.symlink target) =>
          simp only [hfs, and_true] at hres
          simp only [(hsame _ _ hfs).1]
          split at hres
          next hrest =>
            cases hres
            have hout := (hsame _ _ hfs).2
            have hf : follow = false := hfollow.resolve_left fun heq =>
              hout (heq ▸ List.prefix_refl _)
            rw [if_pos ⟨hrest, hf⟩]
            exact ⟨rfl, fun hpre => absurd hpre hout⟩
          next hrest =>
            rw [if_neg fun hand => hrest hand.1]
            cases links with
            | zero => cases hres
            | succ links =>
                refine ihl links (Nat.lt_succ_self links) _ _ ?_ hres
                split
                · intro hpre
                  rw [List.prefix_nil.mp hpre] at hcur
                  exact hcur List.nil_prefix
                · exact hcur
      | some (.file contents mode) =>
          simp only [hfs] at hres
          simp only [(hsame _ _ hfs).1]
          split at hres
          next hrest =>
            cases hres
            rw [if_pos hrest]
            exact ⟨rfl, fun hpre => absurd hpre (hsame _ _ hfs).2⟩
          next => cases hres
      | none =>
          simp only [hfs] at hres
          split at hres
          next hrest =>
            cases hres
            subst hrest
            have hself (hv : v <+: cur ++ [c]) : v = cur ++ [c] := by
              rcases List.prefix_concat_iff.mp hv with heq | hpre
              · exact heq
              · exact absurd hpre hcur
            refine ⟨?_, fun hv => (hself hv).symm⟩
            by_cases hv : v <+: cur ++ [c]
            · -- the path ends at the place itself
              have heq := hself hv
              subst heq
              simp only [h.isDir, resolve_nil]
            · simp only [h.same _ hv, hfs, if_true]
          next => cases hres

/-- A directory is made there. -/
lemma filled_set (fs : FS) (v : Path) : Filled fs v (set fs v (some .dir)) :=
  ⟨set_self _ _ _, sameBut_set _ (List.prefix_refl _) _⟩

namespace FreePlace

variable {fs fs' : FS} {path : String} {v : Path}

lemma ne_nil (h : FreePlace fs path v) (hroot : fs [] ≠ none) : v ≠ [] := by
  rintro rfl
  exact hroot (congrFun h.free [])

lemma not_nul (h : FreePlace fs path v) : '\x00' ∉ path.toList := by
  intro hnul
  have hleads := h.leads
  rw [lookup, if_pos hnul] at hleads
  cases hleads

lemma resolve_eq (h : FreePlace fs path v) :
    resolve fs false maxLinks [] (components path) = some v := by
  have hleads := h.leads
  rwa [lookup, if_neg h.not_nul] at hleads

/-- The place itself is led to as before. -/
lemma lookup_filled (h : FreePlace fs path v) (hne : v ≠ []) (hfilled : Filled fs v fs')
    (follow : Bool) : lookup fs' follow path = some v := by
  rw [lookup, if_neg h.not_nul]
  exact (resolve_filled h.free hfilled (.inl rfl) _ _ _
    (fun hpre => hne (List.prefix_nil.mp hpre)) h.resolve_eq).1

/-- So is any other free place, which is not below this one. -/
lemma lookup_other {path' : String} {u : Path} (h : FreePlace fs path v) (hne : v ≠ [])
    (hfilled : Filled fs v fs') (h' : FreePlace fs path' u) :
    lookup fs' false path' = some u ∧ (v <+: u → u = v) := by
  rw [lookup, if_neg h'.not_nul]
  exact resolve_filled h.free hfilled (.inr rfl) _ _ _ (fun hpre => hne (List.prefix_nil.mp hpre))
    h'.resolve_eq

/-- The directory that is made there is led to whatever is put into it. -/
lemma home (h : FreePlace fs path v) (hne : v ≠ []) (hfilled : Filled fs v fs') :
    HomeDir fs' path v := by
  refine ⟨fun fs'' hsame => h.lookup_filled hne ⟨?_, fun q hq => ?_⟩ true, hfilled.isDir⟩
  · rw [hsame v (not_below_self v), hfilled.isDir]
  · have hbelow : ¬ Below v q := by
      rintro ⟨c, rest, rfl⟩
      exact hq (List.prefix_append v _)
    rw [hsame q hbelow, hfilled.same q hq]

/-- What `create_dir_all` does there. -/
lemma createDirs_eq (h : FreePlace fs path v) (hne : v ≠ []) :
    createDirs fs (components path).reverse = ([set fs v (some .dir)], true) := by
  have hres := h.resolve_eq
  have hnone : fs v = none := by
    have hfree := congrFun h.free []
    rwa [subtree, List.append_nil] at hfree
  cases hrev : (components path).reverse with
  | nil =>
      rw [List.reverse_eq_nil_iff.mp hrev, resolve_nil] at hres
      cases hres
      exact absurd rfl hne
  | cons c parent =>
      have hback : (c :: parent).reverse = components path := by rw [← hrev, List.reverse_reverse]
      simp only [createDirs, hback, mkdir, hres, hnone, if_true]

lemma createDirAll_sem (h : FreePlace fs path v) (hne : v ≠ []) {r : Except String Unit}
    (hs : (FsOp.createDirAll path).Sem fs r fs') :
    (r = .ok () → fs' = set fs v (some .dir)) ∧ (∀ e, r = .error e → fs' = fs) := by
  have hdirs := h.createDirs_eq hne
  rcases r with e | ⟨⟩
  · refine ⟨fun hr => (by cases hr), fun _ _ => ?_⟩
    rcases hs with rfl | hmem
    · rfl
    · simp only [hdirs, if_true] at hmem
      cases hmem
  · refine ⟨fun _ => ?_, fun e he => (by cases he)⟩
    obtain ⟨-, -, rfl⟩ := hs
    rw [hdirs]
    rfl

lemma createDirAll_ok (h : FreePlace fs path v) (hne : v ≠ []) :
    (FsOp.createDirAll path).Sem fs (.ok ()) (set fs v (some .dir)) := by
  have hdirs := h.createDirs_eq hne
  refine ⟨h.not_nul, ?_, ?_⟩
  · rw [hdirs]
  · rw [hdirs]
    rfl

/-- An entry that a directory does not have. -/
lemma of_home {dir n : String} {d : Path} (h : HomeDir fs dir d) (hn : IsName n)
    (hfree : subtree fs (d ++ [n]) = emptyTree) : FreePlace fs (joinPath dir n) (d ++ [n]) := by
  have ho : Owned fs dir d fs := ⟨h, fun _ _ => rfl⟩
  have hway : Through (subtree fs d) [n] := by
    refine Through.cons ?_ hn.2.2.1 (through_nil _)
    rw [subtree, List.append_nil, h.isDir]
  exact ⟨ho.lookup_eq (h.names.join hn) (List.cons_ne_nil _ _) hway
    fun hf => absurd hf Bool.false_ne_true, hfree⟩

/-- When it is removed with all that is in it, the files are as they were. -/
lemma removeTree_filled (h : FreePlace fs path v) (hsame : SameBut v fs fs') :
    removeTree fs' v = fs := by
  funext q
  by_cases hq : v <+: q
  · obtain ⟨q, rfl⟩ := hq
    rw [removeTree, graft_append]
    exact (congrFun h.free q).symm
  · rw [removeTree, graft_outside _ hq, hsame q hq]

end FreePlace

end FileSystem
