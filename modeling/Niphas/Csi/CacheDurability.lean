import Niphas.Csi.CacheScript
import Niphas.Lib.Account

/-!
# What is cached stays cached

Once `ensure_cached` has succeeded for a path, the path has an entry in the cache directory, and
keeps it as it is: no call removes or changes it, no crash does, and neither does the cleanup of the
next start.  What a call has found or moved is in its own answers; that it is still there is due to
what all the others do.

So this is an account (`Account`): the notes of a task are those of `CacheScript`, and what they say
of the world is that every path the task has seen has an entry.  The step lemma is about the files.
`FilesStep` sorts the steps of all tasks into three kinds, and each of them keeps every entry.
There is one exception, which the statement has as well: a rename replaces an empty directory.

The runs are those of `CacheIntegrity`: temporary directories are created fresh, and the paths asked
for name single entries.  A path with a `/` in its name would be moved into the entry of another
one, and change it.

* `EntriesKept` — no entry goes away or changes, except that an empty directory may be replaced.
* `FilesStep` — what one step does to the files.
* `CacheKnows` — what a task knows of the files from the answers to its calls.
* `cached_stays` — the entries of a call that succeeded, in every state from then on.
-/

namespace Niphas

open FileSystem System RelyGuarantee Monitor

/-! ## Entries that stay

What stays of an entry is the whole tree.  An empty directory is the exception, as a rename takes
its place.
-/

/-- More than an empty directory. -/
def Solid (t : FS) : Prop := t [] ≠ none ∧ (t [] = some .dir → ∃ q, q ≠ [] ∧ t q ≠ none)

/-- No entry goes away, and none changes that is more than an empty directory.  Temporary
directories do not count. -/
structure EntriesKept (d : Path) (fs fs' : FS) : Prop where
  present : ∀ name, ¬ IsTmp name → fs (d ++ [name]) ≠ none → fs' (d ++ [name]) ≠ none
  same : ∀ name, ¬ IsTmp name → Solid (subtree fs (d ++ [name])) →
    subtree fs' (d ++ [name]) = subtree fs (d ++ [name])

section

variable {d : Path} {fs fs' fs'' : FS} {name tmp b : String}

lemma EntriesKept.refl (d : Path) (fs : FS) : EntriesKept d fs fs :=
  ⟨fun _ _ h => h, fun _ _ _ => rfl⟩

lemma EntriesKept.trans (h : EntriesKept d fs fs') (h' : EntriesKept d fs' fs'') :
    EntriesKept d fs fs'' := by
  refine ⟨fun name hname hsome => h'.present name hname (h.present name hname hsome),
    fun name hname hsolid => ?_⟩
  have hsame := h.same name hname hsolid
  rw [← hsame] at hsolid
  exact (h'.same name hname hsolid).trans hsame

lemma subtree_root (fs : FS) (v : Path) : subtree fs v [] = fs v := by rw [subtree, List.append_nil]

lemma fs_eq_of_subtree {v : Path} (h : subtree fs' v = subtree fs v) : fs' v = fs v := by
  have hroot := congrFun h []
  rwa [subtree_root, subtree_root] at hroot

/-- What happens in a temporary directory. -/
lemma EntriesKept.of_sameBut (htmp : IsTmp tmp) (h : SameBut (d ++ [tmp]) fs fs') :
    EntriesKept d fs fs' := by
  have hsub : ∀ name, ¬ IsTmp name → subtree fs' (d ++ [name]) = subtree fs (d ++ [name]) :=
    fun name hname => h.subtree_eq (not_prefix_entry fun heq => hname (heq ▸ htmp))
  refine ⟨fun name hname hsome => ?_, fun name hname _ => hsub name hname⟩
  rwa [fs_eq_of_subtree (hsub name hname)]

lemma moved_ne_none (hdir : fs (d ++ [tmp]) = some .dir) :
    moveTree fs (d ++ [tmp]) (d ++ [b]) (d ++ [b]) ≠ none := by
  rw [← subtree_root (moveTree _ _ _), subtree_moveTree, subtree_root, hdir]
  exact Option.some_ne_none _

/-- A temporary directory is moved to where nothing is, or an empty directory. -/
lemma EntriesKept.of_moveTree (htmp : IsTmp tmp) (hdir : fs (d ++ [tmp]) = some .dir)
    (hfree : Replaceable fs (d ++ [tmp]) (d ++ [b])) :
    EntriesKept d fs (moveTree fs (d ++ [tmp]) (d ++ [b])) := by
  have hremove : SameBut (d ++ [tmp]) fs (removeTree fs (d ++ [tmp])) := sameBut_graft _ _ _
  have hput : SameBut (d ++ [b]) (removeTree fs (d ++ [tmp]))
      (moveTree fs (d ++ [tmp]) (d ++ [b])) := sameBut_graft _ _ _
  -- the other entries lie beside both
  have hother : ∀ name, name ≠ b → ¬ IsTmp name →
      subtree (moveTree fs (d ++ [tmp]) (d ++ [b])) (d ++ [name]) = subtree fs (d ++ [name]) :=
    fun name hnb hname => (hput.subtree_eq (not_prefix_entry (Ne.symm hnb))).trans
      (hremove.subtree_eq (not_prefix_entry fun heq => hname (heq ▸ htmp)))
  constructor
  · intro name hname hsome
    by_cases hnb : name = b
    · subst hnb
      exact moved_ne_none hdir
    · rwa [fs_eq_of_subtree (hother name hnb hname)]
  · intro name hname hsolid
    by_cases hnb : name = b
    · subst hnb
      obtain ⟨hsome, hinner⟩ := hsolid
      rw [subtree_root] at hsome hinner
      rcases hfree.2 with hnone | ⟨-, hempty, hbelow⟩ | ⟨hnot, -⟩
      · exact absurd hnone hsome
      · obtain ⟨q, hq, hfound⟩ := hinner hempty
        obtain ⟨c, rest, rfl⟩ := List.exists_cons_of_ne_nil hq
        exact absurd (hbelow _ ⟨c, rest, rfl⟩) hfound
      · exact absurd hdir hnot
    · exact hother name hnb hname

end

/-! ## What a task knows -/

/-- What a task that fetches knows of the node. -/
structure Fetching (d : Path) (w : CacheWorld) (p : ℕ) (paths : List String) (s : CacheNotes) :
    Prop where
  serving : w.phase = .serving
  names : ∀ path ∈ paths, IsName (stripStoreDir path)
  held : ∀ b, s.held = some b → IsName b ∧ w.locks b = some p
  pid : ∀ n, s.pid = some n → w.pid = n
  made : s.made = true → ∀ b, s.held = some b → w.fs (tmpPath d b w.pid) = some .dir

/-- What a task knows by its notes: what it has seen is there. -/
structure CacheKnows (cacheDir : String) (d : Path) (w : CacheWorld) (p : ℕ) (call : CacheCall)
    (s : CacheNotes) : Prop where
  seen : ∀ b, IsName b → ¬ IsTmp b → joinPath cacheDir b ∈ s.seen → w.fs (d ++ [b]) ≠ none
  listed : ∀ names, s.listed = some names → ∀ name ∈ names, IsName name
  fetching : ∀ paths, call = .ensureCached paths → Fetching d w p paths s

section

variable {lib : Libraries} {cacheDir : String} {d : Path} {fs₀ fs fs' : FS} {p : ℕ}
  {w w' : CacheWorld} {call : CacheCall} {paths : List String} {s : CacheNotes} {tmp b : String}
  {Good : String → NarInfo → Prop}

/-- What the others do leaves it so. -/
lemma CacheKnows.rely (h : CacheKnows cacheDir d w p call s) (hr : CacheRely d p w w')
    (hkept : EntriesKept d w.fs w'.fs) : CacheKnows cacheDir d w' p call s := by
  refine ⟨fun b hb hnt hmem => hkept.present b hnt (h.seen b hb hnt hmem), h.listed,
    fun paths hcall => ?_⟩
  obtain ⟨hserving, hnames, hheld, hpid, hmade⟩ := h.fetching paths hcall
  obtain ⟨hserving', hpid'⟩ := hr.serving hserving
  refine ⟨hserving', hnames, fun b hb => ?_, fun n hn => hpid'.trans (hpid n hn), fun hm b hb => ?_⟩
  · exact ⟨(hheld b hb).1, (hr.own hserving b (hheld b hb).2).1⟩
  · rw [hpid', fs_eq_of_subtree (hr.own hserving b (hheld b hb).2).2]
    exact hmade hm b hb

/-- The way to an entry. -/
lemma through_name (ho : Owned fs₀ cacheDir d fs) (hb : IsName b) :
    Through (subtree fs d) [b] :=
  Through.cons ((subtree_root fs d).trans ho.isDir) hb.2.2.1 (through_nil _)

/-- What is found is there. -/
lemma found_entry (ho : Owned fs₀ cacheDir d fs) (hb : IsName b) {found : Bool}
    (hs : (FsOp.exists (joinPath cacheDir b)).Sem fs found fs') (hfound : found = true) :
    fs (d ++ [b]) ≠ none := by
  intro hnone
  have hsem := ho.exists_sem (ho.first.names.join hb) (List.cons_ne_nil _ _) (through_name ho hb)
    (fun target htarget => by cases hnone.symm.trans htarget) hs
  exact hsem.2 hfound hnone

lemma removed_sameBut (ho : Owned fs₀ cacheDir d fs) (hname : IsName tmp)
    {r : Except String Unit} (hs : (FsOp.removeDirAll (joinPath cacheDir tmp)).Sem fs r fs') :
    SameBut (d ++ [tmp]) fs fs' :=
  ho.removeDirAll_sem (ho.first.names.join hname) (List.cons_ne_nil _ _) (through_name ho hname) hs

/-- What is removed. -/
lemma removed_eq (ho : Owned fs₀ cacheDir d fs) (hname : IsName tmp)
    (hs : (FsOp.removeDirAll (joinPath cacheDir tmp)).Sem fs (.ok ()) fs') :
    fs' = removeTree fs (d ++ [tmp]) := by
  obtain ⟨v, hv, rfl⟩ := hs
  rw [ho.eq_of_lookup_entry (ho.first.names.join hname) (List.cons_ne_nil _ _)
    (through_name ho hname) hv]
  rfl

/-- What is moved to its place. -/
lemma renamed_eq (ho : Owned fs₀ cacheDir d fs) (hname : IsName tmp) (hb : IsName b)
    (hs : (FsOp.rename (joinPath cacheDir tmp) (joinPath cacheDir b)).Sem fs (.ok ()) fs') :
    Replaceable fs (d ++ [tmp]) (d ++ [b]) ∧ fs' = moveTree fs (d ++ [tmp]) (d ++ [b]) := by
  obtain ⟨u, v, hu, -, hv, hfree, rfl⟩ := hs
  have hsrc : u = d ++ [tmp] := ho.eq_of_lookup_entry (ho.first.names.join hname)
    (List.cons_ne_nil _ _) (through_name ho hname) hu
  have hdst : v = d ++ [b] := ho.eq_of_lookup_entry (ho.first.names.join hb)
    (List.cons_ne_nil _ _) (through_name ho hb) hv
  subst hsrc hdst
  exact ⟨hfree, rfl⟩

/-- The temporary directory of a task, by its notes. -/
lemma Fetching.ownTmp (h : Fetching d w p paths s) {path : String}
    (hown : s.OwnTmp cacheDir path b) :
    IsName b ∧ w.locks b = some p ∧ path = joinPath cacheDir (tmpName b w.pid) := by
  obtain ⟨hheld, n, hn, rfl⟩ := hown
  rw [h.pid n hn]
  exact ⟨(h.held b hheld).1, (h.held b hheld).2, rfl⟩

/-- What one step of a task does to the files: nothing, or something in one temporary directory, or
a move of a temporary directory to its place.  What `ensure_cached` works in is its own. -/
inductive FilesStep (d : Path) (p : ℕ) (call : CacheCall) (w : CacheWorld) : FS → Prop
  | same : FilesStep d p call w w.fs
  | inside {tmp : String} {fs' : FS} (htmp : IsTmp tmp) (hsame : SameBut (d ++ [tmp]) w.fs fs')
      (hown : call ≠ .startUp → ∃ b, w.locks b = some p ∧ tmp = tmpName b w.pid) :
      FilesStep d p call w fs'
  | moved {b : String} (hb : ¬ IsTmp b) (hlock : w.locks b = some p)
      (hdir : w.fs (tmpPath d b w.pid) = some .dir)
      (hfree : Replaceable w.fs (tmpPath d b w.pid) (d ++ [b])) :
      FilesStep d p call w (moveTree w.fs (tmpPath d b w.pid) (d ++ [b]))

lemma FilesStep.kept (h : FilesStep d p call w fs') : EntriesKept d w.fs fs' := by
  cases h with
  | same => exact .refl d _
  | inside htmp hsame _ => exact .of_sameBut htmp hsame
  | moved _ _ hdir hfree => exact .of_moveTree (isTmp_tmpName _ _) hdir hfree

/-- **What a step does to the files**, in a call that does what it may. -/
lemma files_op {o : FsOp} {r : o.Answer} (hinv : CacheInv lib cacheDir d fs₀ Good w)
    (hk : CacheKnows cacheDir d w p call s) (hok : CacheOk cacheDir call s (.fs o))
    (hs : o.Sem w.fs r fs')
    (hchange : w.phase = .serving → LocalChange d p w { w with fs := fs' }) :
    FilesStep d p call w fs' := by
  have ho := hinv.owned
  by_cases hwrites : o.Writes
  · cases call with
    | startUp =>
        cases o with
        | createDirAll path =>
            obtain ⟨-, rfl⟩ := hok
            rw [ho.createDirAll_dir hs]
            exact .same
        | write | setPermissions | symlink => cases hok.2
        | «exists» | rename | removeDirAll | readDir => cases hwrites
    | ensureCached paths =>
        rcases hchange (hk.fetching paths rfl).serving with hsame | ⟨b, hlock, hlocal⟩
        · cases hsame
          exact .same
        · exact .inside (isTmp_tmpName b w.pid)
            (hlocal.resolve_right fun hgone => hs.grows hwrites _ hgone.1 hgone.2)
            fun _ => ⟨b, hlock, rfl⟩
  · cases o with
    | «exists» | readDir =>
        rw [hs.1]
        exact .same
    | removeDirAll path =>
        cases call with
        | startUp =>
            obtain ⟨-, names, hlisted, name, hname, htmp, rfl⟩ := hok
            exact .inside htmp (removed_sameBut ho (hk.listed names hlisted name hname) hs)
              fun hne => absurd rfl hne
        | ensureCached paths =>
            obtain ⟨b, hown⟩ := hok
            obtain ⟨hb, hlock, rfl⟩ := (hk.fetching paths rfl).ownTmp hown
            exact .inside (isTmp_tmpName b _) (removed_sameBut ho (isName_tmpName hb _) hs)
              fun _ => ⟨b, hlock, rfl⟩
    | rename src dst =>
        cases call with
        | startUp => cases hok.2
        | ensureCached paths =>
            obtain ⟨hmade, b, hown, hnt, rfl⟩ := hok
            have hf := hk.fetching paths rfl
            obtain ⟨hb, hlock, rfl⟩ := hf.ownTmp hown
            rcases r with e | ⟨⟩
            · cases hs
              exact .same
            · obtain ⟨hfree, rfl⟩ := renamed_eq ho (isName_tmpName hb _) hb hs
              exact .moved hnt hlock (hf.made hmade b hown.1) hfree
    | write | setPermissions | symlink | createDirAll => exact absurd trivial hwrites

/-- **Every step of a task keeps the entries.** -/
lemma kept_op {o : CacheOp} {r : cacheInterface.Answer o}
    (hinv : CacheInv lib cacheDir d fs₀ Good w) (hk : CacheKnows cacheDir d w p call s)
    (hok : CacheOk cacheDir call s o) (hs : CacheOp.Sem p o w r w')
    (hchange : w.phase = .serving → LocalChange d p w w') : EntriesKept d w.fs w'.fs := by
  cases o with
  | fs o =>
      obtain ⟨fs', hs, rfl⟩ := hs
      exact (files_op hinv hk hok hs hchange).kept
  | lock b =>
      obtain ⟨-, rfl⟩ := hs
      exact .refl d _
  | unlock b =>
      cases hs
      exact .refl d _
  | fetchNarinfoByHash hash =>
      cases hs
      exact .refl d _
  | fetchNar info =>
      cases hs
      exact .refl d _
  | processId =>
      obtain ⟨-, rfl⟩ := hs
      exact .refl d _
  | listen =>
      rcases r with e | ⟨⟩
      · cases hs
        exact .refl d _
      · cases hs
        exact .refl d _

/-- What a task knows after a call on the files. -/
lemma Fetching.afterFs {o : FsOp} {r : o.Answer} (hf : Fetching d w p paths s)
    (ho : Owned fs₀ cacheDir d w.fs) (hok : EnsureOk cacheDir paths s (.fs o))
    (hs : o.Sem w.fs r fs') (hallowed : CacheAllowed cacheDir d Good p (.fs o) r w) :
    Fetching d { w with fs := fs' } p paths (s.noteFs o r) := by
  -- only the temporary directory is in question
  have hnotes : (s.noteFs o r).held = s.held ∧ (s.noteFs o r).pid = s.pid := by
    cases o with
    | «exists» path => cases r <;> exact ⟨rfl, rfl⟩
    | _ => exact ⟨rfl, rfl⟩
  refine ⟨hf.serving, hf.names, fun b hb => hf.held b (hnotes.1 ▸ hb),
    fun n hn => hf.pid n (hnotes.2 ▸ hn), fun hmade b hb => ?_⟩
  rw [hnotes.1] at hb
  change fs' (tmpPath d b w.pid) = some .dir
  have hkeeps : o.Writes → s.made = true → fs' (tmpPath d b w.pid) = some .dir :=
    fun hwrites hbefore => hs.keepsDirs hwrites _ (hf.made hbefore b hb)
  cases o with
  | «exists» path =>
      rw [hs.1]
      cases r with
      | true => exact hf.made hmade b hb
      | false => exact hf.made hmade b hb
  | readDir path => cases hok
  | write | setPermissions | symlink => exact hkeeps trivial hmade
  | removeDirAll path => cases hmade
  | rename src dst =>
      rcases r with e | ⟨⟩
      · cases hs
        exact hf.made ((Bool.and_true _).symm.trans hmade) b hb
      · exact absurd ((Bool.and_false _).symm.trans hmade) Bool.false_ne_true
  | createDirAll path =>
      by_cases hbefore : s.made = true
      · exact hkeeps trivial hbefore
      · obtain ⟨⟨b', hown⟩, -⟩ := hok.resolve_left fun hdeep => hbefore hdeep.1
        obtain rfl : b' = b := Option.some.inj (hown.1.symm.trans hb)
        obtain ⟨hname, hlock, rfl⟩ := hf.ownTmp hown
        have hvacant : Vacant w.fs (tmpPath d b' w.pid) := hallowed b' hlock rfl
        have htmp := isName_tmpName hname w.pid
        have hsem := ho.createDirAll_sem (ho.first.names.join htmp) (List.cons_ne_nil _ _)
          (through_name ho htmp) hvacant.self hs
        have hr : r = .ok () := by
          rcases r with e | ⟨⟩
          · rw [CacheNotes.noteFs, Bool.not_eq_true _ |>.mp hbefore] at hmade
            cases hmade
          · rfl
        rw [hsem.2 hr]
        exact set_self _ _ _

/-- **What a task knows after one of its calls.** -/
lemma CacheKnows.op {o : CacheOp} {r : cacheInterface.Answer o}
    (hinv : CacheInv lib cacheDir d fs₀ Good w) (hk : CacheKnows cacheDir d w p call s)
    (hok : CacheOk cacheDir call s o) (hs : CacheOp.Sem p o w r w')
    (hallowed : CacheAllowed cacheDir d Good p o r w) (hkept : EntriesKept d w.fs w'.fs) :
    CacheKnows cacheDir d w' p call (s.note o r) := by
  have ho := hinv.owned
  refine ⟨fun b hb hnt hmem => ?_, ?_, ?_⟩
  · by_cases hold : joinPath cacheDir b ∈ s.seen
    · exact hkept.present b hnt (hk.seen b hb hnt hold)
    -- it was found or moved just now
    cases o with
    | fs o =>
        obtain ⟨fs', hs, rfl⟩ := hs
        cases o with
        | «exists» path =>
            cases r with
            | false => exact absurd hmem hold
            | true =>
                rcases List.mem_cons.mp hmem with rfl | hmem
                · exact hkept.present b hnt (found_entry ho hb hs rfl)
                · exact absurd hmem hold
        | rename src dst =>
            cases call with
            | startUp => cases hok.2
            | ensureCached paths =>
                rcases r with e | ⟨⟩
                · exact absurd hmem hold
                obtain ⟨hmade, b', hown, -, rfl⟩ := hok
                have hf := hk.fetching paths rfl
                obtain ⟨hb', -, rfl⟩ := hf.ownTmp hown
                rcases List.mem_cons.mp hmem with heq | hmem
                · rw [← heq] at hs
                  obtain ⟨-, rfl⟩ := renamed_eq ho (isName_tmpName hb' _) hb hs
                  exact moved_ne_none (hf.made hmade b' hown.1)
                · exact absurd hmem hold
        | _ => exact absurd hmem hold
    | _ => exact absurd hmem hold
  · cases o with
    | fs o =>
        cases o with
        | «exists» path => cases r <;> exact hk.listed
        | readDir path =>
            obtain ⟨fs', hs, rfl⟩ := hs
            rcases r with e | names
            · exact fun _ h => (by cases h)
            · rintro _ hlisted name hname
              cases hlisted
              obtain ⟨v, -, hnames⟩ := hs.2 names rfl
              exact (hnames name hname).1
        | _ => exact hk.listed
    | _ => exact hk.listed
  · rintro paths rfl
    have hf := hk.fetching paths rfl
    cases o with
    | fs o =>
        obtain ⟨fs', hs, rfl⟩ := hs
        exact hf.afterFs ho hok hs hallowed
    | lock b =>
        obtain ⟨-, rfl⟩ := hs
        obtain ⟨path, hpath, rfl⟩ := hok
        refine ⟨hf.serving, hf.names, ?_, hf.pid, fun hmade => by cases hmade⟩
        intro b hb
        cases hb
        exact ⟨hf.names path hpath, Function.update_self _ _ _⟩
    | unlock b =>
        cases hs
        exact ⟨hf.serving, hf.names, fun _ h => (by cases h), hf.pid, fun h => (by cases h)⟩
    | fetchNarinfoByHash hash =>
        cases hs
        exact ⟨hf.serving, hf.names, hf.held, hf.pid, hf.made⟩
    | fetchNar info =>
        cases hs
        exact hf
    | processId =>
        obtain ⟨rfl, rfl⟩ := hs
        exact ⟨hf.serving, hf.names, hf.held, fun n hn => Option.some.inj hn, hf.made⟩
    | listen => cases hok

end

/-! ## Runs -/

section

variable {lib : Libraries} {cacheDir : String} {d : Path} {fs₀ : FS}

/-- What is shown of the calls, in runs in which temporary directories are created fresh. -/
def cacheTerms (lib : Libraries) (cacheDir : String) (d : Path) (fs₀ : FS) :
    Terms (nodeCache lib cacheDir) cacheMonitor where
  ok := CacheOk cacheDir
  post := CachePost cacheDir
  config c := (cacheRules lib cacheDir d fs₀ fun _ _ => True).Holds (fun _ _ _ _ => True) c
  step := Fresh d

variable {c c' : (nodeCache lib cacheDir).Config} {p : ℕ} {call : CacheCall} {w : CacheWorld}

/-- What the others know stays so. -/
lemma spares_of_guar (hguar : CacheGuar d p c.world w) (hkept : EntriesKept d c.world.fs w.fs) :
    @Spares (nodeCache lib cacheDir) cacheMonitor (CacheKnows cacheDir d) c p w :=
  fun q _ _ hqp _ hknows => hknows.rely (hguar.others q hqp) hkept

/-- A call that begins changes no files. -/
lemma CacheCall.Begins.fs_eq (h : call.Begins c.world p w) : w.fs = c.world.fs := by
  cases call with
  | startUp =>
      obtain ⟨-, pid, rfl⟩ := h
      rfl
  | ensureCached paths =>
      obtain ⟨-, -, rfl⟩ := h
      rfl

/-- What a task does keeps the entries, and is what the others rely on. -/
lemma step_op {o : CacheOp} {k : cacheInterface.Answer o → Prog cacheInterface (Result Unit)}
    {r : cacheInterface.Answer o} {s : CacheNotes} (hc : (cacheTerms lib cacheDir d fs₀).config c)
    (hev : Fresh d c (.op p o r)) (hp : c.procs p = some { call, rest := .call o k })
    (hknows : CacheKnows cacheDir d c.world p call s) (hok : CacheOk cacheDir call s o)
    (hsem : CacheOp.Sem p o c.world r w) :
    CacheGuar d p c.world w ∧ EntriesKept d c.world.fs w.fs := by
  obtain ⟨hinv, hprocs⟩ := hc
  have hguar := (hprocs p _ hp c.world (CacheRely.refl d p _) hinv r w hsem
    (allowed_of_fresh hev vouched_true)).2.1
  exact ⟨hguar, kept_op hinv hknows hok hsem hguar.change⟩

/-- **The account**: what a task has seen is there. -/
def cacheAccount (lib : Libraries) (cacheDir : String) (d : Path) (fs₀ : FS) :
    @Account (nodeCache lib cacheDir) cacheMonitor (cacheTerms lib cacheDir d fs₀) where
  inv _ := True
  knows := CacheKnows cacheDir d
  start {c p call w} hc hev _ _ hbegin := by
    have hguar := ((covers fun _ _ h => ⟨h, vouched_true⟩).start hev hc.1 hbegin).2.1
    refine ⟨trivial, ⟨fun _ _ _ h => (List.not_mem_nil h).elim,
      fun _ h => (by cases h), fun paths hcall => ?_⟩,
      spares_of_guar hguar (hbegin.fs_eq ▸ .refl d _)⟩
    subst hcall
    obtain ⟨hserving, hpaths, rfl⟩ := hbegin
    exact ⟨hserving, hpaths, fun _ h => (by cases h), fun _ h => (by cases h),
      fun h => (by cases h)⟩
  op hc hev hp _ hknows hok hsem := by
    obtain ⟨hguar, hkept⟩ := step_op hc hev hp hknows hok hsem
    exact ⟨trivial, hknows.op hc.1 hok hsem (allowed_of_fresh hev vouched_true) hkept,
      spares_of_guar hguar hkept⟩
  env _ henv := henv.elim
  crash _ _ := trivial

/-- The account holds throughout. -/
lemma cacheAccount_step {ev : (nodeCache lib cacheDir).Event}
    (hc : (cacheAccount lib cacheDir d fs₀).Holds c) (hev : Fresh d c ev)
    (hs : Step (nodeCache lib cacheDir) c ev c') : (cacheAccount lib cacheDir d fs₀).Holds c' :=
  hc.step (RelyGuarantee.Holds.step (covers fun _ _ h => ⟨h, vouched_true⟩))
    (shows_program lib) hev hs

/-- **Step lemma.** -/
lemma kept_step {ev : (nodeCache lib cacheDir).Event}
    (hc : (cacheAccount lib cacheDir d fs₀).Holds c) (hev : Fresh d c ev)
    (hs : Step (nodeCache lib cacheDir) c ev c') : EntriesKept d c.world.fs c'.world.fs := by
  cases hs with
  | start _ hbegin => exact hbegin.fs_eq ▸ .refl d _
  | op hp hsem =>
      obtain ⟨s, hok, hknows⟩ := hc.ok hp
      exact (step_op hc.config hev hp hknows hok hsem).2
  | ret _ => exact .refl d _
  | env henv => exact henv.elim
  | crash hcrash =>
      cases hcrash
      exact .refl d _

variable {evs evs' : List (nodeCache lib cacheDir).Event}

lemma cacheAccount_run (hdir : HomeDir fs₀ cacheDir d)
    (hrun : Run (nodeCache lib cacheDir) (Fresh d) (Config.idle (CacheWorld.first fs₀)) evs c) :
    (cacheAccount lib cacheDir d fs₀).Holds c :=
  hrun.invariant cacheAccount_step
    ⟨⟨.first hdir, fun _ _ h => by cases h⟩, trivial, fun _ _ h => by cases h⟩

/-- **What is cached stays cached.**  In every run in which temporary directories are created fresh,
with any crashes and starts, no entry of the cache directory goes away or changes, but for an empty
directory that may be replaced; and the paths of a call that succeeded have entries ever after.  The
calls are for paths that name single entries (`CacheCall.Begins`): a path with a `/` in its name may
be extracted into the entry of another one. -/
theorem cached_stays (hdir : HomeDir fs₀ cacheDir d)
    (hrun : Run (nodeCache lib cacheDir) (Fresh d) (Config.idle (CacheWorld.first fs₀)) evs c)
    (hrun' : Run (nodeCache lib cacheDir) (Fresh d) c evs' c') :
    EntriesKept d c.world.fs c'.world.fs ∧
      ∀ p paths path, c.procs p = some { call := .ensureCached paths, rest := .pure (.ok ()) } →
        path ∈ paths → ¬ IsTmp (stripStoreDir path) →
          c'.world.fs (d ++ [stripStoreDir path]) ≠ none := by
  have hc := cacheAccount_run hdir hrun
  have hkept : (cacheAccount lib cacheDir d fs₀).Holds c' ∧
      EntriesKept d c.world.fs c'.world.fs := by
    refine @Run.invariant (nodeCache lib cacheDir) (Fresh d) (fun c' =>
      (cacheAccount lib cacheDir d fs₀).Holds c' ∧ EntriesKept d c.world.fs c'.world.fs)
      (fun hc' hev hs => ?_) _ _ _ hrun' ⟨hc, .refl d _⟩
    exact ⟨cacheAccount_step hc'.1 hev hs, hc'.2.trans (kept_step hc'.1 hev hs)⟩
  refine ⟨hkept.2, fun p paths path hp hpath hname => hkept.2.present _ hname ?_⟩
  obtain ⟨s, hpost, hknows⟩ := hc.post hp
  exact hknows.seen _ ((hknows.fetching paths rfl).names path hpath) hname (hpost rfl path hpath)

end

/-- A path that was fetched, and a crash behind it. -/
theorem cached_stays_hello :
    ∃ evs evs' c c', HomeDir plainFiles "/c" ["c"] ∧
      Run (nodeCache plainLibraries "/c") (Fresh ["c"]) (Config.idle (CacheWorld.first plainFiles))
        evs c ∧ Run (nodeCache plainLibraries "/c") (Fresh ["c"]) c evs' c' ∧
      c'.world.phase = .down ∧ EntriesKept ["c"] c.world.fs c'.world.fs ∧
        c'.world.fs (["c"] ++ [hello]) ≠ none := by
  obtain ⟨evs, hrun⟩ := @Reaches.underWay (nodeCache plainLibraries "/c") (Fresh ["c"]) _ 0 _
    (.ensureCached [hello]) _ _ _ _
    ((@reaches_servingNode (fun _ _ => True)).imp fun _ _ h => h.1)
    (fun _ _ _ hev => (by cases hev)) ⟨rfl, isName_hello_paths, rfl⟩
    (@ensureHello_ok [] (fun _ _ => True) trivial).goes fun w rest o r hq => (fresh_of_allowed hq).1
  obtain ⟨c', hcrash, hdown⟩ : ∃ c', Run (nodeCache plainLibraries "/c") (Fresh ["c"])
      ((Config.idle (servingNode.attempted 0 hello (narinfoOf helloNode []) helloFiles)).set 0
        (some { call := .ensureCached [hello], rest := .pure (.ok ()) })) [.crash] c' ∧
      c'.world.phase = .down := by
    refine ⟨Config.idle { servingNode.attempted 0 hello (narinfoOf helloNode []) helloFiles with
      locks := fun _ => none, phase := .down }, ?_, rfl⟩
    exact .snoc .nil (fun _ _ _ hev => (by cases hev)) (.crash rfl)
  have hstays := cached_stays emptyDir_plainFiles.home hrun hcrash
  have hstrip : ¬ IsTmp (stripStoreDir hello) := by
    rw [stripStoreDir_hello]
    exact not_isTmp_hello
  have hthere := hstays.2 0 [hello] hello (Config.set_self _ _ _) List.mem_cons_self hstrip
  rw [stripStoreDir_hello] at hthere
  exact ⟨evs, _, _, c', emptyDir_plainFiles.home, hrun, hcrash, hdown, hstays.1, hthere⟩

end Niphas
