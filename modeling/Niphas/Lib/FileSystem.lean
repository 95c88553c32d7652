import Niphas.Lib.Str

/-!
# A file system with symbolic links

A file system is a partial map from absolute paths to entries.  A path given to a system call is a
string; where it leads is found by walking its components from the root, following symbolic links on
the way.  What the calls do is stated as a relation, because every one of them may fail for reasons
outside the model, and some of them leave part of their work behind when they do.

Nothing forces a map to be a tree: that there is a directory above each entry is not part of the
type, and is not needed, since a walk stops where there is none.  Directories carry no permissions,
files their mode and nothing else; there are no hard links, and no two file systems.  A walk follows
as many links as Linux does, and `..` goes up to the parent of the directory it has come to, not to
the one that is written.

* `resolve` — where a path leads.  `resolve_append`: a path that leads to a directory, continued by
  another path, leads where the other path leads from there.  `resolve_self`: where all directories
  on the way are real, a path leads to itself.
* `graft`, `subtree` — whole trees put in place and taken out.
* `FsOp.Sem` — what a call may answer and leave.  `FsOp.Ideal` — the same where no call fails that
  could succeed.
-/

namespace FileSystem

/-- A path as the list of its components from the root. -/
abbrev Path := List String

/-- What stands at a path. -/
inductive Entry where
  | dir
  | file (contents : List UInt8) (mode : ℕ)
  | symlink (target : String)
  deriving DecidableEq

/-- A file system. -/
abbrev FS := Path → Option Entry

/-! ## Paths as strings -/

/-- The components of a path string; empty ones and `.` say nothing. -/
def components (s : String) : Path := (Str.split '/' s).filter fun c => c ≠ "" ∧ c ≠ "."

/-- `Path::is_absolute`. -/
def isAbsolute (s : String) : Bool := s.toList.head? = some '/'

/-- `Path::join`: an absolute path replaces what it is joined to. -/
def joinPath (p n : String) : String :=
  if isAbsolute n then n
  else if p = "" ∨ p.toList.getLast? = some '/' then p ++ n
  else p ++ "/" ++ n

lemma components_slash (p n : String) :
    components (p ++ "/" ++ n) = components p ++ components n := by
  have hsplit : Str.split '/' (p ++ "/" ++ n) = Str.split '/' p ++ Str.split '/' n := by
    have hchars : (p ++ "/" ++ n).toList = p.toList ++ '/' :: n.toList := by
      rw [String.toList_append, String.toList_append, List.append_assoc]
      rfl
    rw [Str.split, hchars, Str.splitChars_append (by decide), List.map_append]
    rfl
  rw [components, hsplit, List.filter_append]
  rfl

lemma components_append_empty {p : String} (h : p = "" ∨ p.toList.getLast? = some '/')
    (n : String) : components (p ++ n) = components p ++ components n := by
  rcases h with rfl | h
  · rfl
  · obtain ⟨q, hq⟩ := List.getLast?_eq_some_iff.mp h
    have hslash : "/" = String.ofList ['/'] := rfl
    have hp : p = String.ofList q ++ "/" := by
      rw [hslash, ← String.ofList_append, ← hq, String.ofList_toList]
    have hnil : components "" = [] := rfl
    rw [hp, components_slash]
    have hself := components_slash (String.ofList q) ""
    rw [String.append_empty, hnil, List.append_nil] at hself
    rw [hself]

/-- Joining paths joins their components. -/
lemma components_joinPath (p : String) {n : String} (h : isAbsolute n = false) :
    components (joinPath p n) = components p ++ components n := by
  rw [joinPath, if_neg (by rw [h]; exact Bool.false_ne_true)]
  split
  · next hp => exact components_append_empty hp n
  · exact components_slash p n

/-- A path with more in it than slashes and dots has a component. -/
lemma components_ne_nil {s : String} {c : Char} (hc : c ∈ s.toList) (hslash : c ≠ '/')
    (hdot : c ≠ '.') : components s ≠ [] := by
  obtain ⟨first, rest, hsplit, hs⟩ := Str.splitChars_eq_cons '/' s.toList
  have hpiece : ∃ piece ∈ first :: rest, c ∈ piece := by
    rw [hs, List.mem_append, List.mem_flatMap] at hc
    rcases hc with hc | ⟨piece, hpiece, hc⟩
    · exact ⟨first, List.mem_cons_self, hc⟩
    · rcases List.mem_cons.mp hc with heq | hc
      · exact absurd heq hslash
      · exact ⟨piece, List.mem_cons_of_mem first hpiece, hc⟩
  obtain ⟨piece, hpiece, hc⟩ := hpiece
  have hne : String.ofList piece ≠ "" ∧ String.ofList piece ≠ "." := by
    constructor
    · intro heq
      rw [String.ofList_eq_empty_iff.mp heq] at hc
      cases hc
    · intro heq
      have hchars := congrArg String.toList heq
      rw [String.toList_ofList] at hchars
      rw [hchars] at hc
      exact hdot (List.mem_singleton.mp hc)
  refine List.ne_nil_of_mem (a := String.ofList piece) ?_
  rw [components, Str.split, hsplit]
  exact List.mem_filter.mpr ⟨List.mem_map_of_mem hpiece, decide_eq_true hne⟩

/-- A name that is a component by itself. -/
def IsName (s : String) : Prop := s ≠ "" ∧ s ≠ "." ∧ s ≠ ".." ∧ '/' ∉ s.toList ∧ '\x00' ∉ s.toList

instance (s : String) : Decidable (IsName s) := inferInstanceAs (Decidable (_ ∧ _))

lemma IsName.components_eq {s : String} (h : IsName s) : components s = [s] := by
  obtain ⟨hne, hdot, -, hslash, -⟩ := h
  have hsplit : Str.split '/' s = [s] := by
    rw [Str.split, Str.splitChars_of_forall, List.map_singleton, String.ofList_toList]
    intro c hc
    refine decide_eq_false ?_
    rintro rfl
    exact hslash hc
  rw [components, hsplit, List.filter_cons_of_pos (by simp [hne, hdot])]
  rfl

lemma IsName.not_isAbsolute {s : String} (h : IsName s) : isAbsolute s = false := by
  refine decide_eq_false fun hhead => h.2.2.2.1 ?_
  exact List.mem_of_mem_head? hhead

lemma IsName.components_joinPath {n : String} (h : IsName n) (p : String) :
    components (joinPath p n) = components p ++ [n] := by
  rw [FileSystem.components_joinPath p h.not_isAbsolute, h.components_eq]

/-! ## Where a path leads

The recursion is on the number of links that may still be followed and on the components that are
left, so every path string has an answer, and a loop of links has none to lead to.
-/

/-- One walk along a path, up to the first symbolic link that is to be followed.  The last
component need not exist. -/
def walk (fs : FS) (follow : Bool) (onLink : Path → Path → Option Path) :
    Path → Path → Option Path
  | cur, [] => some cur
  | cur, c :: rest =>
      if c = ".." then walk fs follow onLink cur.dropLast rest
      else
        match fs (cur ++ [c]) with
        | some .dir => walk fs follow onLink (cur ++ [c]) rest
        | some (.symlink target) =>
            if rest = [] ∧ follow = false then some (cur ++ [c])
            else onLink (if isAbsolute target then [] else cur) (components target ++ rest)
        | some (.file _ _) | none => if rest = [] then some (cur ++ [c]) else none

/-- Where the path `p` leads from `cur`, following at most `links` symbolic links; a link in the
last place is followed if `follow` says so. -/
def resolve (fs : FS) (follow : Bool) : ℕ → Path → Path → Option Path
  | 0 => walk fs follow fun _ _ => none
  | links + 1 => walk fs follow (resolve fs follow links)

/-- The number of symbolic links Linux follows in one path. -/
def maxLinks : ℕ := 40

/-- Where a path string leads.  A string with a NUL in it is no path. -/
def lookup (fs : FS) (follow : Bool) (path : String) : Option Path :=
  if '\x00' ∈ path.toList then none else resolve fs follow maxLinks [] (components path)

/-- `resolve` with whatever it does at a link: the unfolding of one component. -/
lemma resolve_cons (fs : FS) (follow : Bool) (links : ℕ) (cur : Path) (c : String) (rest : Path) :
    resolve fs follow links cur (c :: rest) =
      if c = ".." then resolve fs follow links cur.dropLast rest
      else
        match fs (cur ++ [c]) with
        | some .dir => resolve fs follow links (cur ++ [c]) rest
        | some (.symlink target) =>
            if rest = [] ∧ follow = false then some (cur ++ [c])
            else
              match links with
              | 0 => none
              | n + 1 => resolve fs follow n (if isAbsolute target then [] else cur)
                  (components target ++ rest)
        | some (.file _ _) | none => if rest = [] then some (cur ++ [c]) else none := by
  cases links <;> rfl

@[simp] lemma resolve_nil (fs : FS) (follow : Bool) (links : ℕ) (cur : Path) :
    resolve fs follow links cur [] = some cur := by
  cases links <;> rfl

/-- **Continuation.**  Behind a path that leads to the directory `d`, a further path leads where
it leads from `d`. -/
lemma resolve_append {fs : FS} {d : Path} (hd : fs d = some .dir) :
    ∀ (links : ℕ) (p cur : Path), resolve fs true links cur p = some d →
      ∃ n, ∀ (q : Path) (follow : Bool), q ≠ [] →
        resolve fs follow links cur (p ++ q) = resolve fs follow n d q := by
  intro links
  induction links using Nat.strong_induction_on with
  | _ links ihl =>
  intro p
  induction p with
  | nil =>
      intro cur h
      rw [resolve_nil, Option.some.injEq] at h
      subst h
      exact ⟨links, fun q follow _ => rfl⟩
  | cons c rest ih =>
      intro cur h
      rw [resolve_cons] at h
      by_cases hc : c = ".."
      · rw [if_pos hc] at h
        obtain ⟨n, hn⟩ := ih _ h
        exact ⟨n, fun q follow hq => by
          rw [List.cons_append, resolve_cons, if_pos hc, hn q follow hq]⟩
      rw [if_neg hc] at h
      -- a directory and a link lead on; anything else cannot be the directory `d`
      match hfs : fs (cur ++ [c]) with
      | some .dir =>
          simp only [hfs] at h
          obtain ⟨n, hn⟩ := ih _ h
          refine ⟨n, fun q follow hq => ?_⟩
          simp only [List.cons_append, resolve_cons, if_neg hc, hfs, hn q follow hq]
      | some (.symlink target) =>
          simp only [hfs, Bool.true_eq_false, and_false, if_false] at h
          cases links with
          | zero => cases h
          | succ links =>
              obtain ⟨n, hn⟩ := ihl links (Nat.lt_succ_self links) _ _ h
              refine ⟨n, fun q follow hq => ?_⟩
              have hne : ¬ (rest ++ q = [] ∧ follow = false) := fun h' =>
                hq (List.append_eq_nil_iff.mp h'.1).2
              simp only [List.cons_append, resolve_cons, if_neg hc, hfs, if_neg hne,
                ← hn q follow hq, List.append_assoc]
      | some (.file contents mode) =>
          simp only [hfs] at h
          split at h
          · rw [Option.some.injEq] at h
            rw [h, hd] at hfs
            cases hfs
          · cases h
      | none =>
          simp only [hfs] at h
          split at h
          · rw [Option.some.injEq] at h
            rw [h, hd] at hfs
            cases hfs
          · cases h

/-- **Real directories.**  From `d` on, a path through real directories leads to itself. -/
lemma resolve_self {fs : FS} {follow : Bool} {links : ℕ} :
    ∀ {q d : Path}, (∀ c ∈ q, c ≠ "..") →
      (∀ r c s, q = r ++ c :: s → s ≠ [] → fs (d ++ r ++ [c]) = some .dir) →
      (follow = true → ∀ target, fs (d ++ q) ≠ some (.symlink target)) →
      resolve fs follow links d q = some (d ++ q) := by
  intro q
  induction q with
  | nil =>
      intro d _ _ _
      rw [resolve_nil, List.append_nil]
  | cons c rest ih =>
      intro d hplain hdirs hlast
      have hc : c ≠ ".." := hplain c List.mem_cons_self
      have hcons : d ++ c :: rest = d ++ [c] ++ rest := by
        rw [List.append_assoc, List.singleton_append]
      rw [resolve_cons, if_neg hc]
      by_cases hrest : rest = []
      · subst hrest
        match hfs : fs (d ++ [c]) with
        | some .dir => simp only [resolve_nil]
        | some (.file contents mode) => simp only [if_true]
        | none => simp only [if_true]
        | some (.symlink target) =>
            cases follow with
            | false => simp only [and_self, if_true]
            | true => exact absurd hfs (hlast rfl target)
      · have hdir : fs (d ++ [c]) = some .dir := by
          have h := hdirs [] c rest rfl hrest
          rwa [List.append_nil] at h
        simp only [hdir]
        rw [hcons] at hlast ⊢
        refine ih (fun c' hc' => hplain c' (List.mem_cons_of_mem c hc')) ?_ hlast
        intro r c' s hq hs
        have hassoc : d ++ [c] ++ r ++ [c'] = d ++ (c :: r) ++ [c'] := by simp
        rw [hassoc]
        exact hdirs (c :: r) c' s (by rw [hq]; rfl) hs

/-- The paths strictly below `d`. -/
def Below (d p : Path) : Prop := ∃ c q, p = d ++ c :: q

/-- **Stability.**  A path that leads to an empty directory leads there whatever is put into the
directory. -/
lemma resolve_congr {fs fs' : FS} {d : Path} (hempty : ∀ p, Below d p → fs p = none)
    (hsame : ∀ p, ¬ Below d p → fs' p = fs p) :
    ∀ (links : ℕ) (p cur : Path), resolve fs true links cur p = some d →
      resolve fs' true links cur p = some d := by
  have hself : ¬ Below d d := by
    rintro ⟨c, q, h⟩
    exact List.cons_ne_nil c q (List.self_eq_append_right.mp h)
  intro links
  induction links using Nat.strong_induction_on with
  | _ links ihl =>
  intro p
  induction p with
  | nil =>
      intro cur h
      rwa [resolve_nil] at h ⊢
  | cons c rest ih =>
      intro cur h
      rw [resolve_cons] at h ⊢
      by_cases hc : c = ".."
      · rw [if_pos hc] at h ⊢
        exact ih _ h
      rw [if_neg hc] at h ⊢
      by_cases hbelow : Below d (cur ++ [c])
      · -- inside the empty directory there is nothing to pass through
        simp only [hempty _ hbelow] at h
        split at h
        · rw [Option.some.injEq] at h
          exact absurd (h ▸ hbelow) hself
        · cases h
      · rw [hsame _ hbelow]
        match hfs : fs (cur ++ [c]) with
        | some .dir =>
            simp only [hfs] at h
            exact ih _ h
        | some (.symlink target) =>
            simp only [hfs, Bool.true_eq_false, and_false, if_false] at h ⊢
            cases links with
            | zero => cases h
            | succ links => exact ihl links (Nat.lt_succ_self links) _ _ h
        | some (.file contents mode) => simpa only [hfs] using h
        | none => simpa only [hfs] using h

/-! ## Changes -/

/-- `fs` with the entry at `p` replaced. -/
def set (fs : FS) (p : Path) (e : Option Entry) : FS := fun q => if q = p then e else fs q

/-- What stands at `p` and below, as a file system of its own. -/
def subtree (fs : FS) (p : Path) : FS := fun q => fs (p ++ q)

/-- `fs` with everything at `p` and below replaced by `t`. -/
def graft (fs : FS) (p : Path) (t : FS) : FS := fun q =>
  if p <+: q then t (q.drop p.length) else fs q

/-- `fs` with everything at `p` and below removed. -/
def removeTree (fs : FS) (p : Path) : FS := graft fs p fun _ => none

/-- `fs` with everything at `p` and below moved to `q`. -/
def moveTree (fs : FS) (p q : Path) : FS := graft (removeTree fs p) q (subtree fs p)

@[simp] lemma set_self (fs : FS) (p : Path) (e : Option Entry) : set fs p e p = e := if_pos rfl

lemma set_of_ne (fs : FS) {p q : Path} (h : q ≠ p) (e : Option Entry) : set fs p e q = fs q :=
  if_neg h

lemma graft_append (fs : FS) (p : Path) (t : FS) (q : Path) : graft fs p t (p ++ q) = t q := by
  rw [graft, if_pos (List.prefix_append p q), List.drop_left]

lemma graft_outside (fs : FS) {p q : Path} (h : ¬ p <+: q) (t : FS) :
    graft fs p t q = fs q := if_neg h

lemma subtree_graft (fs : FS) (p : Path) (t : FS) : subtree (graft fs p t) p = t :=
  funext fun q => graft_append fs p t q

/-! ## Directories -/

/-- `Path::is_dir`. -/
def isDir (fs : FS) (p : Path) : Bool :=
  match resolve fs true maxLinks [] p with
  | some v => fs v = some .dir
  | none => false

/-- What comes of creating one directory. -/
inductive MkdirResult where
  | ok (fs : FS)
  | alreadyExists
  | notFound

/-- `create_dir`. -/
def mkdir (fs : FS) (p : Path) : MkdirResult :=
  match resolve fs false maxLinks [] p with
  | some v => if fs v = none then .ok (set fs v (some .dir)) else .alreadyExists
  | none => .notFound

/-- `create_dir_all` on the components of a path, last one first: the states it passes through,
and whether it succeeds.  It creates the parent only when the directory cannot be created without
it. -/
def createDirs (fs : FS) : List String → List FS × Bool
  | [] => ([], true)
  | c :: parent =>
      let p := (c :: parent).reverse
      match mkdir fs p with
      | .ok fs' => ([fs'], true)
      | .alreadyExists => ([], isDir fs p)
      | .notFound =>
          if isDir fs p then ([], true)
          else
            let r := createDirs fs parent
            let last := r.1.getLast?.getD fs
            if r.2 then
              match mkdir last p with
              | .ok fs' => (r.1 ++ [fs'], true)
              | _ => (r.1, isDir last p)
            else r

/-! ## The calls -/

/-- The calls of `std::fs` a program may make. -/
inductive FsOp where
  | «exists» (path : String)
  | createDirAll (path : String)
  | write (path : String) (contents : List UInt8)
  | setPermissions (path : String) (mode : ℕ)
  | symlink (target path : String)
  | rename (src dst : String)
  | removeDirAll (path : String)
  | readDir (path : String)
  deriving DecidableEq

/-- What a call answers.  An error is the text it displays. -/
@[reducible] def FsOp.Answer : FsOp → Type
  | «exists» _ => Bool
  | readDir _ => Except String (List String)
  | _ => Except String Unit

/-- The paths at which an operation creates, renames, removes or changes something. -/
def FsOp.changes : FsOp → List String
  | .exists _ => []
  | .createDirAll path => [path]
  | .write path _ => [path]
  | .setPermissions path _ => [path]
  | .symlink _ path => [path]
  | .rename src dst => [src, dst]
  | .removeDirAll path => [path]
  | .readDir _ => []

/-- A file may be written at `v`: there is one, or nothing. -/
def Writable (fs : FS) (v : Path) (mode : ℕ) : Prop :=
  fs v = none ∨ ∃ contents, fs v = some (.file contents mode)

/-- `dst` may take the place of what is at `v` under the name of `src`. -/
def Replaceable (fs : FS) (src dst : Path) : Prop :=
  ¬ src <+: dst ∧
    (fs dst = none ∨
      fs src = some .dir ∧ fs dst = some .dir ∧ (∀ p, Below dst p → fs p = none) ∨
      fs src ≠ some .dir ∧ fs dst ≠ some .dir)

/-- A symbolic link may lead anywhere, but not nowhere. -/
def IsTarget (target : String) : Prop := target ≠ "" ∧ '\x00' ∉ target.toList

instance (target : String) : Decidable (IsTarget target) := inferInstanceAs (Decidable (_ ∧ _))

/-- What a call may answer and leave.  Every call may fail; a failed `write` may have written
something else, a failed `create_dir_all` may have created some of the directories on the way, and a
failed `remove_dir_all` may have removed some of the entries.  `exists` answers `false` when it
fails. -/
def FsOp.Sem : (o : FsOp) → FS → o.Answer → FS → Prop
  | «exists» path, fs, r, fs' =>
      fs' = fs ∧ (r = true → ∃ v, lookup fs true path = some v ∧ fs v ≠ none)
  | createDirAll path, fs, r, fs' =>
      let res := createDirs fs (components path).reverse
      match r with
      | .ok () => '\x00' ∉ path.toList ∧ res.2 = true ∧ fs' = res.1.getLast?.getD fs
      | .error _ => fs' = fs ∨ fs' ∈ if res.2 then res.1.dropLast else res.1
  | write path contents, fs, r, fs' =>
      match r with
      | .ok () => ∃ v mode, lookup fs true path = some v ∧ Writable fs v mode ∧
          fs' = set fs v (some (.file contents mode))
      | .error _ => fs' = fs ∨ ∃ v mode other, lookup fs true path = some v ∧
          Writable fs v mode ∧ fs' = set fs v (some (.file other mode))
  | setPermissions path mode, fs, r, fs' =>
      match r with
      | .ok () => ∃ v, lookup fs true path = some v ∧
          ((∃ contents old, fs v = some (.file contents old) ∧
              fs' = set fs v (some (.file contents mode))) ∨
            fs v = some .dir ∧ fs' = fs)
      | .error _ => fs' = fs
  | symlink target path, fs, r, fs' =>
      match r with
      | .ok () => IsTarget target ∧ ∃ v, lookup fs false path = some v ∧ fs v = none ∧
          fs' = set fs v (some (.symlink target))
      | .error _ => fs' = fs
  | rename src dst, fs, r, fs' =>
      match r with
      | .ok () => ∃ u v, lookup fs false src = some u ∧ fs u ≠ none ∧
          lookup fs false dst = some v ∧ Replaceable fs u v ∧ fs' = moveTree fs u v
      | .error _ => fs' = fs
  | removeDirAll path, fs, r, fs' =>
      match r with
      | .ok () => ∃ v, lookup fs false path = some v ∧ fs' = removeTree fs v
      | .error _ => fs' = fs ∨ ∃ v, lookup fs false path = some v ∧
          ∀ q, fs' q = fs q ∨ v <+: q ∧ fs' q = none
  | readDir path, fs, r, fs' =>
      fs' = fs ∧ ∀ names, r = .ok names → ∃ v, lookup fs true path = some v ∧
        ∀ n ∈ names, IsName n ∧ fs (v ++ [n]) ≠ none

/-! ## Calls that do not fail without a reason -/

/-- The call has done what it is for. -/
def FsOp.Done : (o : FsOp) → o.Answer → Prop
  | «exists» _, r => r = true
  | readDir _, r => ∃ names, r = .ok names
  | createDirAll _, r => r = .ok ()
  | write _ _, r => r = .ok ()
  | setPermissions _ _, r => r = .ok ()
  | symlink _ _, r => r = .ok ()
  | rename _ _, r => r = .ok ()
  | removeDirAll _, r => r = .ok ()

/-- A call succeeds wherever it can. -/
def FsOp.Ideal (o : FsOp) (fs : FS) (r : o.Answer) (fs' : FS) : Prop :=
  o.Sem fs r fs' ∧ ((∃ r' fs'', o.Done r' ∧ o.Sem fs r' fs'') → o.Done r)

/-- Any call may fail, but what is to be removed is. -/
def FsOp.Removing (o : FsOp) (fs : FS) (r : o.Answer) (fs' : FS) : Prop :=
  o.Sem fs r fs' ∧ ∀ path, o = .removeDirAll path → o.Done r

/-- A call may fail without a trace. -/
lemma FsOp.exists_sem (o : FsOp) (fs : FS) : ∃ r, o.Sem fs r fs := by
  cases o with
  | «exists» path => exact ⟨false, rfl, fun hr => by cases hr⟩
  | readDir path => exact ⟨.error "", rfl, fun names hr => by cases hr⟩
  | setPermissions path mode => exact ⟨.error "", rfl⟩
  | symlink target path => exact ⟨.error "", rfl⟩
  | rename src dst => exact ⟨.error "", rfl⟩
  | createDirAll path => exact ⟨.error "", .inl rfl⟩
  | write path contents => exact ⟨.error "", .inl rfl⟩
  | removeDirAll path => exact ⟨.error "", .inl rfl⟩

lemma FsOp.exists_ideal (o : FsOp) (fs : FS) : ∃ r fs', o.Ideal fs r fs' := by
  by_cases h : ∃ r fs', o.Done r ∧ o.Sem fs r fs'
  · obtain ⟨r, fs', hdone, hsem⟩ := h
    exact ⟨r, fs', hsem, fun _ => hdone⟩
  · obtain ⟨r, hsem⟩ := o.exists_sem fs
    exact ⟨r, fs, hsem, fun hdone => absurd hdone h⟩

/-- What can succeed, does. -/
lemma FsOp.Ideal.done {o : FsOp} {fs fs' fs'' : FS} {r r' : o.Answer} (h : o.Ideal fs r fs')
    (hsem : o.Sem fs r' fs'') (hdone : o.Done r') : o.Done r := h.2 ⟨r', fs'', hdone, hsem⟩

end FileSystem
