import Niphas.Csi.CacheDurability

/-!
# Nothing is left behind

The cleanup of a start removes what a crash has left, and every attempt removes or moves what it has
made, however it ends, as long as no call on the files fails that creates, changes, removes or lists
something.  So in such runs, with crashes at any point, a temporary directory stands only while the
mutex of its path is held, and none is there when an attempt creates its own.

In `CacheIntegrity` it is a condition on a run that temporary directories are created fresh.  Here
it is a result: `tidy_cache` says that it holds of every run in which the disk does what it is asked
to.  What may still go wrong in such a run is everything else.  The binary caches may answer
anything, NARs may be malformed or match no hash, and the driver may crash between any two calls.

`read_dir` has to list all that is there.  The source gives up the cleanup without an error when the
directory cannot be listed, and skips entries that cannot be read, so a partial listing would leave
something behind (`CacheOp.Tidies`).  The paths asked for name single entries, as in all modules on
this system: behind one with a `/` in its name, the parent of the temporary directory would stay.

* `Tidy` — the steps of such a run.
* `TidyInv`, `TidyKnows` — where temporary directories are, and what a task knows of its own.
* `tidy_cache` — temporary directories are created fresh, entries are intact, and nothing is left.
-/

namespace Niphas

open FileSystem System RelyGuarantee Monitor

/-! ## Runs in which no call fails -/

/-- The call has not failed, if it creates, changes or removes something; and what it lists is all
there is. -/
def CacheOp.Tidies (d : Path) : (o : CacheOp) → cacheInterface.Answer o → CacheWorld → Prop
  | .fs (.createDirAll _), r, _ | .fs (.write _ _), r, _ | .fs (.setPermissions _ _), r, _
  | .fs (.symlink _ _), r, _ | .fs (.removeDirAll _), r, _ => r = .ok ()
  | .fs (.readDir _), r, w => ∃ names, r = .ok names ∧
      ∀ name, IsName name → subtree w.fs (d ++ [name]) ≠ emptyTree → name ∈ names
  | _, _, _ => True

section

variable {lib : Libraries} {cacheDir : String} {d : Path} {fs₀ : FS} {p : ℕ} {w w' : CacheWorld}
  {call : CacheCall} {s : CacheNotes}

/-- A step in which no such call fails. -/
def Tidy (d : Path) (c : (nodeCache lib cacheDir).Config) (ev : (nodeCache lib cacheDir).Event) :
    Prop := ∀ p o r, ev = .op p o r → CacheOp.Tidies d o r c.world

/-- No failure is noted. -/
lemma CacheOp.Tidies.not_failed {o : CacheOp} {r : cacheInterface.Answer o}
    (h : CacheOp.Tidies d o r w) (hs : s.failed = false) : (s.note o r).failed = false := by
  cases o with
  | fs o =>
      cases o with
      | «exists» path => cases r <;> exact hs
      | rename src dst => exact hs
      | readDir path =>
          obtain ⟨names, rfl, -⟩ := h
          exact (congrArg (· || _) hs).trans (Bool.false_or _)
      | createDirAll | write | setPermissions | symlink | removeDirAll =>
          cases h
          exact (congrArg (· || _) hs).trans (Bool.false_or _)
  | lock | unlock | fetchNarinfoByHash | fetchNar | processId | listen => exact hs

/-! ## Where temporary directories are

There are two kinds of tasks to tell apart.  A call of `ensure_cached` has at most one temporary
directory, under its mutex.  A start is alone, and has all that a crash has left.
-/

/-- Where anything stands at a temporary directory, the mutex of its path is held. -/
def TempsHeld (d : Path) (w : CacheWorld) : Prop :=
  ∀ name, IsName name → IsTmp name → subtree w.fs (d ++ [name]) ≠ emptyTree →
    ∃ b p, w.locks b = some p ∧ name = tmpName b w.pid

/-- The invariant. -/
structure TidyInv (d : Path) (w : CacheWorld) : Prop where
  names : ∀ b p, w.locks b = some p → IsName b
  temps : w.phase = .serving → TempsHeld d w

/-- What is left to be removed, by the notes of a start. -/
structure Cleaning (cacheDir : String) (d : Path) (w : CacheWorld) (p : ℕ) (s : CacheNotes) :
    Prop where
  starting : w.phase = .starting p
  listed : ∀ names, s.listed = some names → ∀ name, IsName name → IsTmp name →
    subtree w.fs (d ++ [name]) ≠ emptyTree →
      name ∈ names ∧ joinPath cacheDir name ∉ s.removed

/-- What is in the task's own temporary directory. -/
structure Owning (d : Path) (w : CacheWorld) (b : String) (s : CacheNotes) : Prop where
  none : s.made = false → subtree w.fs (tmpPath d b w.pid) = emptyTree
  fresh : s.made = true → s.touched = false → subtree w.fs (tmpPath d b w.pid) = emptyDir

/-- What a task knows by its notes when no call has failed. -/
structure TidyKnows (cacheDir : String) (d : Path) (w : CacheWorld) (p : ℕ) (call : CacheCall)
    (s : CacheNotes) : Prop where
  knows : CacheKnows cacheDir d w p call s
  not_failed : s.failed = false
  cleaning : call = .startUp → s.listens = false → Cleaning cacheDir d w p s
  owning : ∀ paths, call = .ensureCached paths → ∀ b, s.held = some b → Owning d w b s

/-- What the others do leaves it so, where no start is under way. -/
lemma TidyKnows.rely (h : TidyKnows cacheDir d w p call s) (hr : CacheRely d p w w')
    (hkept : EntriesKept d w.fs w'.fs) (hstart : call = .startUp → s.listens = true) :
    TidyKnows cacheDir d w' p call s := by
  refine ⟨h.knows.rely hr hkept, h.not_failed, fun hcall hlistens => ?_, fun paths hcall b hb => ?_⟩
  · cases (hstart hcall).symm.trans hlistens
  · have hf := h.knows.fetching paths hcall
    have hown := h.owning paths hcall b hb
    have htmp := (hr.own hf.serving b (hf.held b hb).2).2
    refine ⟨fun hm => ?_, fun hm ht => ?_⟩
    · rw [(hr.serving hf.serving).2, htmp]
      exact hown.none hm
    · rw [(hr.serving hf.serving).2, htmp]
      exact hown.fresh hm ht

/-- **Temporary directories are created fresh.** -/
lemma TidyKnows.allowed {o : CacheOp} {r : cacheInterface.Answer o}
    (h : TidyKnows cacheDir d w p call s) (hi : TidyInv d w)
    (hfree : w.phase ≠ .serving → ∀ b, w.locks b = none) (hok : CacheOk cacheDir call s o) :
    CacheAllowed cacheDir d (fun _ _ => True) p o r w := by
  cases o with
  | fetchNarinfoByHash hash => exact fun _ _ _ _ => trivial
  | lock | unlock | fetchNar | processId | listen => exact trivial
  | fs o =>
      cases o with
      | createDirAll path =>
          rintro b hlock rfl
          cases call with
          | startUp =>
              have hstarting := (h.cleaning rfl hok.1).starting
              have hserving : w.phase ≠ .serving := by
                rw [hstarting]
                exact nofun
              cases (hfree hserving b).symm.trans hlock
          | ensureCached paths =>
              have hb := isName_tmpName (hi.names b p hlock) w.pid
              have hcomponents := hb.components_joinPath cacheDir
              rcases hok with ⟨-, hdeep⟩ | ⟨⟨b', hown⟩, htouched⟩
              · -- a path further down has more components
                rw [Deep, hcomponents, List.length_append, List.length_singleton] at hdeep
                exact absurd hdeep (Nat.lt_irrefl _)
              · obtain ⟨hb', -, heq⟩ := (h.knows.fetching paths rfl).ownTmp hown
                have hname := (isName_tmpName hb' w.pid).components_joinPath cacheDir
                rw [← heq, hcomponents, List.append_cancel_left_eq, List.singleton_inj] at hname
                obtain rfl : b = b' := tmpName_injective w.pid hname
                have howning := h.owning paths rfl b hown.1
                cases hmade : s.made with
                | false => exact .inl (howning.none hmade)
                | true => exact .inr (howning.fresh hmade (htouched hmade))
      | _ => exact trivial

/-! ## Steps -/

variable {fs' : FS} {paths : List String} {tmp b name : String}

/-- Beside a place that changes. -/
lemma subtree_beside (h : SameBut (d ++ [tmp]) w.fs fs') (hne : name ≠ tmp) :
    subtree fs' (d ++ [name]) = subtree w.fs (d ++ [name]) :=
  h.subtree_eq (not_prefix_entry (Ne.symm hne))

lemma subtree_removeTree (fs : FS) (v : Path) : subtree (removeTree fs v) v = emptyTree :=
  subtree_graft _ _ _

/-- What is moved is no more where it was, and nothing else changes but its new place. -/
lemma subtree_moved (hb : ¬ IsTmp b) (htmp : IsTmp tmp) (hname : IsTmp name) :
    subtree (moveTree w.fs (d ++ [tmp]) (d ++ [b])) (d ++ [name]) =
      if name = tmp then emptyTree else subtree w.fs (d ++ [name]) := by
  have hput : SameBut (d ++ [b]) (removeTree w.fs (d ++ [tmp]))
      (moveTree w.fs (d ++ [tmp]) (d ++ [b])) := sameBut_graft _ _ _
  rw [hput.subtree_eq (not_prefix_entry fun heq => hb (heq ▸ hname))]
  split
  next heq =>
    subst heq
    exact subtree_removeTree _ _
  next hne => exact subtree_beside (sameBut_graft _ _ _) hne

/-- **What a call of `ensure_cached` does to temporary directories**: it changes its own. -/
lemma FilesStep.temps (h : FilesStep d p (.ensureCached paths) w fs') (htemps : TempsHeld d w) :
    TempsHeld d { w with fs := fs' } := by
  intro name hname htmp hsome
  cases h with
  | same => exact htemps name hname htmp hsome
  | @inside tmp _ _ hsame hown =>
      obtain ⟨b, hlock, rfl⟩ := hown nofun
      by_cases hne : name = tmpName b w.pid
      · exact ⟨b, p, hlock, hne⟩
      · change subtree fs' (d ++ [name]) ≠ _ at hsome
        rw [subtree_beside hsame hne] at hsome
        exact htemps name hname htmp hsome
  | @moved b hb hlock _ _ =>
      have hmoved := @subtree_moved d w (tmpName b w.pid) b name hb (isTmp_tmpName b w.pid) htmp
      change subtree (moveTree w.fs (d ++ [tmpName b w.pid]) (d ++ [b])) (d ++ [name]) ≠ _ at hsome
      rw [hmoved] at hsome
      split at hsome
      · exact absurd rfl hsome
      · exact htemps name hname htmp hsome

/-- **Every step of a task keeps the invariant.** -/
lemma TidyInv.op {o : CacheOp} {r : cacheInterface.Answer o}
    (hinv : CacheInv lib cacheDir d fs₀ (fun _ _ => True) w) (hi : TidyInv d w)
    (hk : TidyKnows cacheDir d w p call s) (hok : CacheOk cacheDir call s o)
    (hs : CacheOp.Sem p o w r w') (hguar : CacheGuar d p w w') : TidyInv d w' := by
  cases o with
  | fs o =>
      obtain ⟨fs', hs, rfl⟩ := hs
      refine ⟨hi.names, fun hserving => ?_⟩
      cases call with
      | startUp =>
          have hstarting : w.phase = .starting p := by
            cases o with
            | createDirAll | readDir | removeDirAll | «exists» | write | setPermissions | symlink
            | rename => exact (hk.cleaning rfl hok.1).starting
          cases hstarting.symm.trans hserving
      | ensureCached paths =>
          exact (files_op hinv hk.knows hok hs hguar.change).temps (hi.temps hserving)
  | lock b =>
      obtain ⟨hfree, rfl⟩ := hs
      cases call with
      | startUp => cases hok.2
      | ensureCached paths =>
          obtain ⟨path, hpath, rfl⟩ := hok
          refine ⟨fun b q hlock => ?_, fun hserving name hname htmp hsome => ?_⟩
          · by_cases hb : b = stripStoreDir path
            · exact hb ▸ (hk.knows.fetching paths rfl).names path hpath
            · exact hi.names b q ((Function.update_of_ne hb _ _).symm.trans hlock)
          · obtain ⟨b, q, hlock, heq⟩ := hi.temps hserving name hname htmp hsome
            have hb : b ≠ stripStoreDir path := by
              rintro rfl
              cases hfree.symm.trans hlock
            exact ⟨b, q, (Function.update_of_ne hb _ _).trans hlock, heq⟩
  | unlock b =>
      cases hs
      cases call with
      | startUp => cases hok.2
      | ensureCached paths =>
          refine ⟨fun b' q hlock => ?_, fun hserving name hname htmp hsome => ?_⟩
          · by_cases hb : b' = b
            · have hnone : Function.update w.locks b none b = none := Function.update_self _ _ _
              rw [hb] at hlock
              cases hnone.symm.trans hlock
            · exact hi.names b' q ((Function.update_of_ne hb _ _).symm.trans hlock)
          · obtain ⟨b', q, hlock, rfl⟩ := hi.temps hserving name hname htmp hsome
            have hb : b' ≠ b := by
              rintro rfl
              -- the task has nothing left when it gives the mutex back
              have hmade := hok.2.resolve_left (by rw [hk.not_failed]; exact Bool.false_ne_true)
              exact hsome ((hk.owning paths rfl b' hok.1).none hmade)
            exact ⟨b', q, (Function.update_of_ne hb _ _).trans hlock, rfl⟩
  | fetchNarinfoByHash hash =>
      cases hs
      exact ⟨hi.names, hi.temps⟩
  | fetchNar info =>
      cases hs
      exact hi
  | processId =>
      obtain ⟨-, rfl⟩ := hs
      exact hi
  | listen =>
      cases call with
      | ensureCached paths => cases hok
      | startUp =>
          rcases r with e | ⟨⟩
          · cases hs
            exact hi
          · cases hs
            refine ⟨hi.names, fun _ name hname htmp hsome => ?_⟩
            -- what was there has been listed, and what was listed has been removed
            obtain ⟨hlistens, hdone⟩ := hok
            obtain ⟨names, hlisted, hremoved⟩ := hdone.resolve_left
              (by rw [hk.not_failed]; exact Bool.false_ne_true)
            obtain ⟨hmem, hnot⟩ := (hk.cleaning rfl hlistens).listed names hlisted name hname htmp
              hsome
            exact absurd (hremoved name hmem htmp) hnot

/-- What a start knows after a call on the files. -/
lemma Cleaning.afterFs {o : FsOp} {r : o.Answer} (h : Cleaning cacheDir d w p s)
    (ho : Owned fs₀ cacheDir d w.fs) (hlisted : ∀ names, s.listed = some names →
      ∀ name ∈ names, IsName name) (hok : StartOk cacheDir s (.fs o))
    (hs : o.Sem w.fs r fs') (htidy : CacheOp.Tidies d (.fs o) r w) :
    Cleaning cacheDir d { w with fs := fs' } p (s.noteFs o r) := by
  obtain ⟨-, hok⟩ := hok
  cases o with
  | createDirAll path =>
      cases hok
      rw [ho.createDirAll_dir hs]
      exact ⟨h.starting, h.listed⟩
  | readDir path =>
      obtain ⟨names, rfl, hall⟩ := htidy
      refine ⟨h.starting, ?_⟩
      rintro _ hnames name hname - hsome
      cases hnames
      rw [hs.1] at hsome
      exact ⟨hall name hname hsome, List.not_mem_nil⟩
  | removeDirAll path =>
      obtain ⟨names, hnames, tmp, hmem, htmp, rfl⟩ := hok
      cases htidy
      have htmpName := hlisted names hnames tmp hmem
      have hsame := removed_sameBut ho htmpName hs
      refine ⟨h.starting, fun names' hnames' name hname htmp' hsome => ?_⟩
      change subtree fs' (d ++ [name]) ≠ _ at hsome
      have hne : name ≠ tmp := by
        rintro rfl
        rw [removed_eq ho hname hs, subtree_removeTree] at hsome
        exact hsome rfl
      rw [subtree_beside hsame hne] at hsome
      obtain ⟨hin, hnot⟩ := h.listed names' hnames' name hname htmp' hsome
      refine ⟨hin, fun hmem' => ?_⟩
      rcases List.mem_cons.mp hmem' with heq | hmem'
      · have hcomponents := congrArg components heq
        rw [hname.components_joinPath, htmpName.components_joinPath,
          List.append_cancel_left_eq, List.singleton_inj] at hcomponents
        exact hne hcomponents
      · exact hnot hmem'
  | «exists» | write | setPermissions | symlink | rename => cases hok

/-- What a task knows of its temporary directory after a call on the files. -/
lemma Owning.afterFs {o : FsOp} {r : o.Answer} (h : Owning d w b s) (hheld : s.held = some b)
    (hf : Fetching d w p paths s) (ho : Owned fs₀ cacheDir d w.fs)
    (hok : EnsureOk cacheDir paths s (.fs o)) (hs : o.Sem w.fs r fs')
    (htidy : CacheOp.Tidies d (.fs o) r w) :
    Owning d { w with fs := fs' } b (s.noteFs o r) := by
  cases o with
  | «exists» path =>
      rw [hs.1]
      cases r with
      | true => exact ⟨h.none, h.fresh⟩
      | false => exact ⟨h.none, h.fresh⟩
  | readDir path => cases hok
  | write | setPermissions | symlink =>
      exact ⟨fun hnone => (by cases hok.symm.trans hnone), fun _ htouched => by cases htouched⟩
  | removeDirAll path =>
      obtain ⟨b', hown⟩ := hok
      obtain rfl : b' = b := Option.some.inj (hown.1.symm.trans hheld)
      obtain ⟨hb, -, rfl⟩ := hf.ownTmp hown
      cases htidy
      rw [removed_eq ho (isName_tmpName hb w.pid) hs]
      exact ⟨fun _ => subtree_removeTree _ _, fun hmade => by cases hmade⟩
  | rename src dst =>
      obtain ⟨hmade, b', hown, hnt, rfl⟩ := hok
      obtain rfl : b' = b := Option.some.inj (hown.1.symm.trans hheld)
      obtain ⟨hb, -, rfl⟩ := hf.ownTmp hown
      rcases r with e | ⟨⟩
      · cases hs
        refine ⟨fun hnone => ?_, fun _ => h.fresh hmade⟩
        have hmade' : (s.made && true) = true := (Bool.and_true _).trans hmade
        cases hmade'.symm.trans hnone
      · obtain ⟨-, rfl⟩ := renamed_eq ho (isName_tmpName hb _) hb hs
        have hmoved := @subtree_moved d w (tmpName b' w.pid) b' (tmpName b' w.pid) hnt
          (isTmp_tmpName b' w.pid) (isTmp_tmpName b' w.pid)
        rw [if_pos rfl] at hmoved
        refine ⟨fun _ => hmoved, fun hm => ?_⟩
        exact absurd ((Bool.and_false _).symm.trans hm) Bool.false_ne_true
  | createDirAll path =>
      cases htidy
      refine ⟨fun hnone => absurd ((Bool.or_true _).symm.trans hnone) nofun, fun _ htouched => ?_⟩
      obtain ⟨⟨b', hown⟩, -⟩ := hok.resolve_left fun hdeep => by cases hdeep.1.symm.trans htouched
      obtain rfl : b' = b := Option.some.inj (hown.1.symm.trans hheld)
      obtain ⟨hb, -, rfl⟩ := hf.ownTmp hown
      have htmp := isName_tmpName hb w.pid
      have hnone : subtree w.fs (d ++ [tmpName b' w.pid]) = emptyTree := h.none htouched
      have hvacant : Vacant w.fs (d ++ [tmpName b' w.pid]) := .inl hnone
      have hsem := ho.createDirAll_sem (ho.first.names.join htmp) (List.cons_ne_nil _ _)
        (through_name ho htmp) hvacant.self hs
      rw [hsem.2 rfl]
      change subtree (set w.fs (d ++ [tmpName b' w.pid]) (some .dir)) (d ++ [tmpName b' w.pid]) = _
      rw [subtree_set_self, hnone]
      rfl

/-- **What a task knows after one of its calls.** -/
lemma TidyKnows.op {o : CacheOp} {r : cacheInterface.Answer o}
    (hinv : CacheInv lib cacheDir d fs₀ (fun _ _ => True) w) (hi : TidyInv d w)
    (hk : TidyKnows cacheDir d w p call s) (hok : CacheOk cacheDir call s o)
    (hs : CacheOp.Sem p o w r w') (htidy : CacheOp.Tidies d o r w)
    (hguar : CacheGuar d p w w') : TidyKnows cacheDir d w' p call (s.note o r) := by
  have ho := hinv.owned
  have hkept := kept_op hinv hk.knows hok hs hguar.change
  refine ⟨hk.knows.op hinv hok hs (hk.allowed hi hinv.free hok) hkept,
    htidy.not_failed hk.not_failed, ?_, ?_⟩
  · rintro rfl hlistens
    have hclean := hk.cleaning rfl hok.1
    cases o with
    | fs o =>
        obtain ⟨fs', hs, rfl⟩ := hs
        exact hclean.afterFs ho hk.knows.listed hok hs htidy
    | listen =>
        rcases r with e | ⟨⟩
        · cases hs
          exact ⟨hclean.starting, hclean.listed⟩
        · cases hlistens
    | lock | unlock | fetchNarinfoByHash | fetchNar | processId => cases hok.2
  · rintro paths rfl b hb
    have hf := hk.knows.fetching paths rfl
    have howning := hk.owning paths rfl
    cases o with
    | fs o =>
        obtain ⟨fs', hs, rfl⟩ := hs
        have hheld : s.held = some b := by
          cases o with
          | «exists» path => cases r <;> exact hb
          | _ => exact hb
        exact (howning b hheld).afterFs hheld hf ho hok hs htidy
    | lock b' =>
        obtain ⟨hfree, rfl⟩ := hs
        obtain ⟨path, hpath, rfl⟩ := hok
        cases hb
        refine ⟨fun _ => ?_, nofun⟩
        -- nobody holds the mutex, so nothing is there
        by_contra hsome
        have hname := isName_tmpName (hf.names path hpath) w.pid
        obtain ⟨b, q, hlock, heq⟩ := hi.temps hf.serving _ hname (isTmp_tmpName _ _) hsome
        rw [← tmpName_injective w.pid heq, hfree] at hlock
        cases hlock
    | unlock b' => cases hb
    | fetchNarinfoByHash hash =>
        cases hs
        exact ⟨(howning b hb).none, (howning b hb).fresh⟩
    | fetchNar info =>
        cases hs
        exact howning b hb
    | processId =>
        obtain ⟨-, rfl⟩ := hs
        exact ⟨(howning b hb).none, (howning b hb).fresh⟩
    | listen => cases hok

/-! ## Runs -/

/-- What is shown of the calls, in such runs. -/
def tidyTerms (lib : Libraries) (cacheDir : String) (d : Path) (fs₀ : FS) :
    Terms (nodeCache lib cacheDir) cacheMonitor :=
  { cacheTerms lib cacheDir d fs₀ with step := fun c ev => Tidy d c ev ∧ Fresh d c ev }

variable {c c' : (nodeCache lib cacheDir).Config}

/-- While a start is under way, nothing else happens. -/
lemma spares_of_tidy (hguar : CacheGuar d p c.world w)
    (hkept : EntriesKept d c.world.fs w.fs)
    (hbusy : ∀ q, c.world.phase = .starting q → q = p) :
    @Spares (nodeCache lib cacheDir) cacheMonitor (TidyKnows cacheDir d) c p w := by
  intro q proc s hqp _ hknows
  refine hknows.rely (hguar.others q hqp) hkept fun hcall => ?_
  by_contra hlistens
  exact hqp (hbusy q (hknows.cleaning hcall (Bool.eq_false_of_not_eq_true hlistens)).starting)

/-- **The account**: what stands at a temporary directory is known to the task it belongs to. -/
def tidyAccount (lib : Libraries) (cacheDir : String) (d : Path) (fs₀ : FS) :
    @Account (nodeCache lib cacheDir) cacheMonitor (tidyTerms lib cacheDir d fs₀) where
  inv := TidyInv d
  knows := TidyKnows cacheDir d
  start {c p call w} hc hev hp hi hbegin := by
    obtain ⟨-, hknows, -⟩ := (cacheAccount lib cacheDir d fs₀).start hc hev.2 hp trivial hbegin
    have hguar := ((covers fun _ _ h => ⟨h, vouched_true⟩).start hev.2 hc.1 hbegin).2.1
    have hkept : EntriesKept d c.world.fs w.fs := hbegin.fs_eq ▸ .refl d _
    cases call with
    | startUp =>
        obtain ⟨hdown, pid, rfl⟩ := hbegin
        refine ⟨⟨hi.names, nofun⟩, ⟨hknows, rfl, fun _ _ => ⟨rfl, nofun⟩, nofun⟩,
          spares_of_tidy hguar hkept fun q hq => ?_⟩
        cases hdown.symm.trans hq
    | ensureCached paths =>
        obtain ⟨hserving, hpaths, rfl⟩ := hbegin
        refine ⟨hi, ⟨hknows, rfl, nofun, fun _ _ _ hb => by cases hb⟩,
          spares_of_tidy hguar hkept fun q hq => ?_⟩
        cases hserving.symm.trans hq
  op {c p call o k r w s} hc hev hp hi hknows hok hsem := by
    obtain ⟨hguar, hkept⟩ := step_op hc hev.2 hp hknows.knows hok hsem
    refine ⟨hi.op hc.1 hknows hok hsem hguar,
      hknows.op hc.1 hi hok hsem (hev.1 p o r rfl) hguar,
      spares_of_tidy hguar hkept fun q hq => ?_⟩
    cases call with
    | startUp =>
        have hstarting := (hknows.cleaning rfl hok.1).starting
        exact DriverPhase.starting.inj (hq.symm.trans hstarting)
    | ensureCached paths => cases (hknows.knows.fetching paths rfl).serving.symm.trans hq
  env _ henv := henv.elim
  crash _ hcrash := by
    cases hcrash
    exact ⟨fun _ _ h => (by cases h), nofun⟩

/-- A step of such a run creates its temporary directory fresh. -/
lemma fresh_of_tidy {ev : (nodeCache lib cacheDir).Event}
    (hc : (tidyAccount lib cacheDir d fs₀).Holds c) (hs : Step (nodeCache lib cacheDir) c ev c') :
    Fresh d c ev := by
  rintro p path r rfl b hlock hpath
  cases hs with
  | op hp _ =>
      obtain ⟨s, hok, hknows⟩ := hc.ok hp
      exact hknows.allowed (r := r) hc.inv hc.config.1.free hok b hlock hpath

/-- **Step lemma.** -/
lemma tidyAccount_step {ev : (nodeCache lib cacheDir).Event}
    (hc : (tidyAccount lib cacheDir d fs₀).Holds c) (hev : Tidy d c ev)
    (hs : Step (nodeCache lib cacheDir) c ev c') : (tidyAccount lib cacheDir d fs₀).Holds c' := by
  have hconfig : ∀ {c ev c'}, (tidyTerms lib cacheDir d fs₀).config c →
      (tidyTerms lib cacheDir d fs₀).step c ev → Step (nodeCache lib cacheDir) c ev c' →
        (tidyTerms lib cacheDir d fs₀).config c' := fun hcfg hev hs =>
    RelyGuarantee.Holds.step (covers fun _ _ h => ⟨h, vouched_true⟩) hcfg hev.2 hs
  exact hc.step hconfig (shows_program lib) ⟨hev, fresh_of_tidy hc hs⟩ hs

variable {evs : List (nodeCache lib cacheDir).Event}

/-- **Run lemma.** -/
lemma tidyAccount_run (hdir : HomeDir fs₀ cacheDir d)
    (hrun : Run (nodeCache lib cacheDir) (Tidy d) (Config.idle (CacheWorld.first fs₀)) evs c) :
    (tidyAccount lib cacheDir d fs₀).Holds c ∧
      Run (nodeCache lib cacheDir) (Fresh d) (Config.idle (CacheWorld.first fs₀)) evs c := by
  induction hrun with
  | nil =>
      exact ⟨⟨⟨.first hdir, fun _ _ h => by cases h⟩, ⟨fun _ _ h => (by cases h), nofun⟩,
        fun _ _ h => by cases h⟩, .nil⟩
  | snoc _ hev hs ih => exact ⟨tidyAccount_step ih.1 hev hs, ih.2.snoc (fresh_of_tidy ih.1 hs) hs⟩

/-- **Nothing is left behind.**  In every run in which no call fails that creates, changes or
removes something, and listings are complete, with crashes at any point, any NARs and any other
failures: temporary directories are created fresh, every entry is the tree of one NAR that matches
its narinfo, and while the driver serves, a temporary directory stands only where the mutex of its
path is held.  The calls are for paths that name single entries (`CacheCall.Begins`): one with a
`/` in its name is extracted into another entry, and leaves the parent of its temporary directory
behind. -/
theorem tidy_cache (hdir : EmptyDir fs₀ cacheDir d)
    (hrun : Run (nodeCache lib cacheDir) (Tidy d) (Config.idle (CacheWorld.first fs₀)) evs c) :
    Run (nodeCache lib cacheDir) (Fresh d) (Config.idle (CacheWorld.first fs₀)) evs c ∧
      (∀ name, ¬ IsTmp name → c.world.fs (d ++ [name]) ≠ none →
        c.world.Intact lib name (subtree c.world.fs (d ++ [name]))) ∧
      (c.world.phase = .serving → TempsHeld d c.world) := by
  obtain ⟨hc, hfresh⟩ := tidyAccount_run hdir.home hrun
  refine ⟨hfresh, fun name hname hsome => (hc.config.1.entries name hname).resolve_left
    fun hsub => hsome ?_, hc.inv.temps⟩
  rw [fs_eq_of_subtree hsub]
  exact hdir.empty _ ⟨name, [], rfl⟩

end

/-! ## A crash and a restart

The first attempt comes as far as its temporary directory.
-/

section

/-- The calls of such a run. -/
abbrev TidyCall : (nodeCache plainLibraries "/c").OpCond :=
  fun _ o r w => CacheOp.Tidies ["c"] o r w

lemma tidies_of_plain {o : CacheOp} {r : cacheInterface.Answer o} {w : CacheWorld}
    (ho : o.Plain r) : CacheOp.Tidies ["c"] o r w := by
  cases o with
  | fs o =>
      cases o with
      | createDirAll | readDir => cases ho
      | «exists» | rename => exact trivial
      | write | setPermissions | symlink | removeDirAll => exact ho
  | _ => exact trivial

/-- What an attempt finds where nothing is left behind. -/
lemma attempt_tidy {w : CacheWorld} (hfiles : w.fs = plainFiles) (hpid : w.pid = 1)
    (hfree : w.locks hello = none) :
    Attempt plainLibraries "/c" TidyCall 0 w hello (narinfoOf helloNode []) helloNode
      createdFiles where
  parses := ⟨_, parseBasename_hello⟩
  free := hfree
  matchesNar := matchesNar_narinfoOf wellFormed_helloNode
  create := by
    rw [hfiles, hpid]
    exact owned_plainFiles.createDirAll_ok names_helloTmp (List.cons_ne_nil _ _)
      (through_helloTmp rfl) (.inl rfl)
  plain _ _ _ ho := tidies_of_plain ho
  fetch _ := trivial
  vacant := rfl

lemma createdFiles_helloTmp : createdFiles (["c"] ++ [helloTmp]) ≠ none := by
  rw [createdFiles, set_self]
  exact Option.some_ne_none _

/-- The node after a crash in the extraction. -/
def crashedNode : CacheWorld :=
  { servingNode.attempting 0 hello (narinfoOf helloNode []) createdFiles with
    locks := fun _ => none, phase := .down }

/-- The node when its driver has started again. -/
def restartedNode : CacheWorld := { crashedNode with fs := plainFiles, phase := .serving }

/-- A call that runs alone, with such answers only. -/
lemma reaches_of_tidy {call : CacheCall} {w w₀ w' : CacheWorld} {out : Result Unit}
    (h : Solo (nodeCache plainLibraries "/c") TidyCall 0
      ((nodeCache plainLibraries "/c").program call) w₀ out w') (hbegin : call.Begins w 0 w₀) :
    Reaches (nodeCache plainLibraries "/c") (Tidy ["c"]) (Config.idle w) (Config.idle w') := by
  refine @Solo.run (nodeCache plainLibraries "/c") (Tidy ["c"]) _ 0 call _ _ _ _ h hbegin
    (fun _ _ _ hev => by cases hev) (fun w rest o r hq p o r hev => ?_)
    (fun _ _ _ hev => by cases hev)
  cases hev
  exact hq

/-- The driver crashes after it has created the temporary directory. -/
lemma reaches_crashedNode :
    Reaches (nodeCache plainLibraries "/c") (Tidy ["c"]) (Config.idle (CacheWorld.first plainFiles))
      (Config.idle crashedNode) := by
  have hserving : Reaches (nodeCache plainLibraries "/c") (Tidy ["c"])
      (Config.idle (CacheWorld.first plainFiles)) (Config.idle servingNode) :=
    @reaches_of_tidy .startUp _ _ _ _ (startUp_ok owned_plainFiles
      (fun _ _ _ ho => tidies_of_plain ho) rfl
        ⟨[], rfl, fun name _ hsome => absurd (funext fun _ => rfl) hsome⟩) begins_startUp
  have hattempt := ensureCached_goes stripStoreDir_hello (@attempt_tidy servingNode rfl rfl rfl)
  have hbegun := @Reaches.underWay (nodeCache plainLibraries "/c") (Tidy ["c"]) _ 0 _
    (.ensureCached [hello]) _ _ _ _ hserving (fun _ _ _ hev => by cases hev)
    ⟨rfl, isName_hello_paths, rfl⟩ hattempt fun w rest o r hq p o r hev => by
      cases hev
      exact hq
  exact hbegun.step (fun _ _ _ hev => by cases hev) (.crash rfl)

/-- It starts again, and removes what is left. -/
lemma reaches_restartedNode :
    Reaches (nodeCache plainLibraries "/c") (Tidy ["c"]) (Config.idle crashedNode)
      (Config.idle restartedNode) := by
  let w : CacheWorld := { crashedNode with phase := .starting 0 }
  let w' : CacheWorld := { w with fs := plainFiles }
  have ho : Owned plainFiles "/c" ["c"] w.fs := owned_createdFiles
  have hfree : FreePlace plainFiles (joinPath "/c" helloTmp) (["c"] ++ [helloTmp]) :=
    .of_home emptyDir_plainFiles.home isName_helloTmp rfl
  have hmk : CacheOp.Sem 0 (.fs (.createDirAll "/c")) w (.ok ()) w :=
    ⟨createdFiles, ho.createDirAll_dir_ok, rfl⟩
  have hread : CacheOp.Sem 0 (.fs (.readDir "/c")) w (.ok [helloTmp]) w := by
    refine ⟨createdFiles, ⟨rfl, fun names hnames => ⟨["c"], ho.lookup_dir, fun n hn => ?_⟩⟩, rfl⟩
    rw [← Except.ok.inj hnames, List.mem_singleton] at hn
    subst hn
    exact ⟨isName_helloTmp, createdFiles_helloTmp⟩
  have hlisted : CacheOp.Tidies ["c"] (.fs (.readDir "/c")) (.ok [helloTmp]) w := by
    refine ⟨[helloTmp], rfl, fun name _ hsome => List.mem_singleton.mpr ?_⟩
    by_contra hne
    refine hsome (((filled_set plainFiles (["c"] ++ [helloTmp])).same.subtree_eq
      (not_prefix_entry (Ne.symm hne))).trans (funext fun _ => rfl))
  have hremove : CacheOp.Sem 0 (.fs (.removeDirAll (joinPath "/c" helloTmp))) w (.ok ()) w' :=
    ⟨plainFiles, ⟨_, hfree.lookup_filled (List.cons_ne_nil _ _) (filled_set _ _) false,
      (hfree.removeTree_filled (filled_set _ _).same).symm⟩, rfl⟩
  have hlisten : CacheOp.Sem 0 .listen w' (.ok ()) restartedNode := rfl
  have hcleaned : Solo (nodeCache plainLibraries "/c") TidyCall 0
      (removeTempDirs "/c" [helloTmp]) w () w' := by
    have hclean : removeTempDirs "/c" [helloTmp] = (do
        let _ ← cacheOp (.fs (.removeDirAll (joinPath "/c" helloTmp)))
        removeTempDirs "/c" []) := if_pos (isTmp_tmpName hello 1)
    rw [hclean]
    exact .call hremove (by exact rfl) .pure
  have hgo : Goes (nodeCache plainLibraries "/c") TidyCall 0 (startUp "/c") w (.pure (.ok ()))
      restartedNode := by
    refine goes_op (Except.ok () : Except String Unit) hmk (by exact rfl) ?_
    refine goes_op (Except.ok [helloTmp] : Except String (List String)) hread hlisted ?_
    refine Solo.then hcleaned ?_
    exact goes_op (Except.ok () : Except String Unit) hlisten trivial Goes.refl
  exact @reaches_of_tidy .startUp _ _ _ _ (hgo.solo rfl) ⟨rfl, 1, rfl⟩

/-- **A crash leaves a temporary directory behind**, the next start removes it, and the path is
fetched then. -/
theorem tidy_cache_restarted :
    ∃ evs c evs' c', EmptyDir plainFiles "/c" ["c"] ∧
      Run (nodeCache plainLibraries "/c") (Tidy ["c"]) (Config.idle (CacheWorld.first plainFiles))
        evs c ∧ c.world.phase = .down ∧ c.world.fs (["c"] ++ [helloTmp]) ≠ none ∧
      Run (nodeCache plainLibraries "/c") (Tidy ["c"]) c evs' c' ∧ c'.world.phase = .serving ∧
      c'.world.fs (["c"] ++ [hello]) ≠ none ∧
      c'.world.Intact plainLibraries hello (subtree c'.world.fs (["c"] ++ [hello])) ∧
      TempsHeld ["c"] c'.world := by
  obtain ⟨evs, hcrashed⟩ := reaches_crashedNode
  obtain ⟨evs', hfetched⟩ := reaches_restartedNode.trans (@reaches_of_tidy (.ensureCached [hello])
    restartedNode _ _ _ (ensureCached_ok stripStoreDir_hello
      (@attempt_tidy restartedNode rfl rfl rfl)
      (extractHello_ok (fun _ _ _ ho => tidies_of_plain ho) restartedNode _) renameHello_ok)
    ⟨rfl, isName_hello_paths, rfl⟩)
  obtain ⟨-, hintact, htemps⟩ := tidy_cache emptyDir_plainFiles (hcrashed.append hfetched)
  exact ⟨evs, _, evs', _, emptyDir_plainFiles, hcrashed, rfl, createdFiles_helloTmp, hfetched, rfl,
    helloFiles_hello, hintact hello not_isTmp_hello helloFiles_hello, htemps rfl⟩

end

end Niphas
