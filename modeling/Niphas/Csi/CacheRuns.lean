import Niphas.Csi.Extraction

/-!
# Runs of the node cache

The calls of the cache keep its rules, so what the rules say holds in every run.

`Extraction` has the triple of one attempt under its mutex.  Here the loops around it are added:
that of `ensure_cached` over its paths, by induction on the list, and that of the cleanup over what
it has listed.  While a driver starts, nobody else is under way, so the cleanup may remove
directories that belong to nobody; this is where the phase of the driver comes in.

The rules consider only certain answers (`CacheAllowed`), and the run theorems have conditions on
the steps of a run.  The two are the same for a task that owns what it works on (`covers`), so that
a run can be described without mentioning the rules.

* `ensureCached_triple`, `startUp_triple` — the calls.
* `inv_of_run` — the invariant holds in every state of a run in which temporary directories are
  created `Fresh` and the narinfos fetched are `Vouched` for.
* `localChange_of_run` — and every step of a serving driver changes a temporary directory of its
  own.
-/

namespace Niphas

open FileSystem RelyGuarantee System

variable {lib : Libraries} {cacheDir : String} {d : Path} {fs₀ : FS}
  {Good : String → NarInfo → Prop} {p pid : ℕ} {b : String} {w w' : CacheWorld}

/-! ## The calls -/

/-- The mutex of a path is taken. -/
lemma lock_triple :
    (cacheRules lib cacheDir d fs₀ Good).Triple p (fun w => w.phase = .serving)
      (cacheOp (.lock b)) fun _ => Holding p b := by
  refine Triple.op stable_serving (fun _ => stable_holding) ?_
  rintro w hi hw ⟨⟩ _ ⟨hfree, rfl⟩ -
  have hkept : ∀ q b', w.locks b' = some q → Function.update w.locks b (some p) b' = some q := by
    intro q b' hb'
    rw [Function.update_of_ne, hb']
    rintro rfl
    rw [hfree] at hb'
    cases hb'
  refine ⟨⟨hi.owned, hi.good, fun hdown => absurd hw hdown, hi.entries⟩,
    ⟨fun q _ => ⟨id, fun hs => ⟨hs, rfl⟩, fun _ b' hb' => ⟨hkept q b' hb', rfl⟩, fun _ _ h => h⟩,
      fun _ => .inl rfl, fun _ _ h => h⟩, hw, Function.update_self _ _ _⟩

/-- It is given back. -/
lemma unlock_triple :
    (cacheRules lib cacheDir d fs₀ Good).Triple p (Holding p b) (cacheOp (.unlock b))
      fun _ w => w.phase = .serving := by
  refine Triple.op stable_holding (fun _ => stable_serving) ?_
  rintro w hi hw ⟨⟩ _ rfl -
  have hkept : ∀ q, q ≠ p → ∀ b', w.locks b' = some q →
      Function.update w.locks b none b' = some q := by
    intro q hq b' hb'
    rw [Function.update_of_ne, hb']
    rintro rfl
    rw [hw.lock, Option.some.injEq] at hb'
    exact hq hb'.symm
  refine ⟨⟨hi.owned, hi.good, fun hdown => absurd hw.serving hdown, hi.entries⟩,
    ⟨fun q hq => ⟨id, fun hs => ⟨hs, rfl⟩, fun _ b' hb' => ⟨hkept q hq b' hb', rfl⟩,
      fun _ _ h => h⟩, fun _ => .inl rfl, fun _ _ h => h⟩, hw.serving⟩

/-- **`ensure_cached`**, for names. -/
lemma ensureCached_triple :
    ∀ {paths : List String}, (∀ path ∈ paths, IsName (stripStoreDir path)) →
      (cacheRules lib cacheDir d fs₀ Good).Triple p (fun w => w.phase = .serving)
        (ensureCached lib cacheDir paths) fun _ w => w.phase = .serving
  | [], _ => Triple.pure stable_serving fun _ _ hw => hw
  | path :: rest, hpaths => by
      have hrest := ensureCached_triple fun path' hmem =>
        hpaths path' (List.mem_cons_of_mem path hmem)
      have hb := hpaths path List.mem_cons_self
      rw [ensureCached]
      refine Triple.bind (exists_triple stable_serving) fun r => ?_
      cases r with
      | true => exact hrest
      | false =>
          refine Triple.bind lock_triple fun _ => ?_
          refine Triple.bind (ensureLocked_triple hb) fun r => ?_
          refine Triple.bind (unlock_triple.conseq (fun w _ hw => ?_) fun _ _ _ hw => hw)
            fun _ => ?_
          · rcases r with e | u
            · exact hw
            · exact hw
          · rcases r with e | u
            · exact Triple.pure stable_serving fun _ _ hw => hw
            · exact hrest

/-! ## Starting -/

/-- While a driver starts, nobody else has anything to rely on. -/
lemma guar_of_starting (hw : w.phase = .starting p)
    (hfetched : ∀ b info, w.fetched b info → w'.fetched b info) : CacheGuar d p w w' := by
  have hserving : w.phase ≠ .serving := by
    rw [hw]
    exact nofun
  refine ⟨fun q hq => ⟨fun hq' => ?_, fun hs => absurd hs hserving, fun hs => absurd hs hserving,
    hfetched⟩, fun hs => absurd hs hserving, hfetched⟩
  rw [hw, DriverPhase.starting.injEq] at hq'
  exact absurd hq'.symm hq

/-- A temporary directory that was left behind is removed, or what can be of it. -/
lemma removeTempDir_triple {name : String} (hname : IsName name) (htmp : IsTmp name) :
    (cacheRules lib cacheDir d fs₀ Good).Triple p (fun w => w.phase = .starting p)
      (cacheOp (.fs (.removeDirAll (joinPath cacheDir name))))
      fun _ w => w.phase = .starting p := by
  refine Triple.op stable_starting (fun _ => stable_starting) ?_
  rintro w hi hw r _ ⟨fs', hs, rfl⟩ -
  have ho := hi.owned
  have hroot : subtree w.fs d [] = some .dir := by
    rw [subtree, List.append_nil]
    exact ho.isDir
  have hsame := ho.removeDirAll_sem (ho.first.names.join hname) (List.cons_ne_nil _ _)
    (Through.cons hroot hname.2.2.1 (through_nil _)) hs
  refine ⟨⟨ho.sameBut (List.cons_ne_nil _ _) hsame, hi.good, hi.free, fun name' hname' => ?_⟩,
    guar_of_starting hw fun _ _ h => h, hw⟩
  have hsub : subtree fs' (d ++ [name']) = subtree w.fs (d ++ [name']) :=
    hsame.subtree_eq (not_prefix_entry fun heq => hname' (heq ▸ htmp))
  rw [hsub]
  exact hi.entries name' hname'

lemma removeTempDirs_triple : ∀ {names : List String}, (∀ name ∈ names, IsName name) →
    (cacheRules lib cacheDir d fs₀ Good).Triple p (fun w => w.phase = .starting p)
      (removeTempDirs cacheDir names) fun _ w => w.phase = .starting p
  | [], _ => Triple.pure stable_starting fun _ _ hw => hw
  | name :: rest, hnames => by
      have hrest := removeTempDirs_triple fun name' hmem =>
        hnames name' (List.mem_cons_of_mem name hmem)
      rw [removeTempDirs]
      split
      next htmp =>
        exact Triple.bind (removeTempDir_triple (hnames name List.mem_cons_self) htmp)
          fun _ => hrest
      · exact hrest

/-- **What `main` does first.** -/
lemma startUp_triple :
    (cacheRules lib cacheDir d fs₀ Good).Triple p (fun w => w.phase = .starting p)
      (startUp cacheDir) fun _ _ => True := by
  have hcreate : (cacheRules lib cacheDir d fs₀ Good).Triple p (fun w => w.phase = .starting p)
      (cacheOp (.fs (.createDirAll cacheDir))) fun _ w => w.phase = .starting p := by
    refine Triple.op stable_starting (fun _ => stable_starting) ?_
    rintro w hi hw r _ ⟨fs', hs, rfl⟩ -
    rw [hi.owned.createDirAll_dir hs]
    exact ⟨hi, CacheGuar.refl d p _, hw⟩
  have hread : (cacheRules lib cacheDir d fs₀ Good).Triple p (fun w => w.phase = .starting p)
      (cacheOp (.fs (.readDir cacheDir))) fun r w =>
        (∀ names, r = .ok names → ∀ name ∈ names, IsName name) ∧ w.phase = .starting p := by
    refine Triple.op stable_starting (fun _ => (stable_const _).and stable_starting) ?_
    rintro w hi hw r _ ⟨fs', hs, rfl⟩ -
    rw [hs.1]
    refine ⟨hi, CacheGuar.refl d p _, fun names hr name hmem => ?_, hw⟩
    obtain ⟨v, -, hnames⟩ := hs.2 names hr
    exact (hnames name hmem).1
  have hlisten : (cacheRules lib cacheDir d fs₀ Good).Triple p (fun w => w.phase = .starting p)
      (cacheOp .listen) fun _ _ => True := by
    refine Triple.op stable_starting (fun _ => stable_true) ?_
    rintro w hi hw r w' hs -
    rcases r with e | ⟨⟩
    · cases hs
      exact ⟨hi, CacheGuar.refl d p _, trivial⟩
    · cases hs
      exact ⟨⟨hi.owned, hi.good, fun h => absurd rfl h, hi.entries⟩,
        guar_of_starting hw fun _ _ h => h, trivial⟩
  have hclean : (cacheRules lib cacheDir d fs₀ Good).Triple p (fun w => w.phase = .starting p)
      (cleanupTempDirs cacheDir) fun _ w => w.phase = .starting p := by
    refine Triple.bind hread fun r => ?_
    rcases r with e | names
    · exact Triple.pure stable_starting fun _ _ hw => hw.2
    · refine Triple.given (fun hnames => ?_) fun _ _ hw => hw.1 names rfl
      exact (removeTempDirs_triple hnames).conseq (fun _ _ hw => hw.2) fun _ _ _ hw => hw
  refine Triple.bind hcreate fun r => ?_
  rcases r with e | ⟨⟩
  · exact Triple.pure stable_true fun _ _ _ => trivial
  · refine Triple.bind hclean fun _ => Triple.bind hlisten fun r => ?_
    rcases r with e | ⟨⟩
    · exact Triple.pure stable_true fun _ _ _ => trivial
    · exact Triple.pure stable_true fun _ _ _ => trivial

/-! ## Runs -/

/-- A step in which a temporary directory is created finds nothing in its place, or an empty
directory. -/
def Fresh (d : Path) (c : (nodeCache lib cacheDir).Config) (ev : (nodeCache lib cacheDir).Event) :
    Prop :=
  ∀ p path r, ev = .op p (.fs (.createDirAll path)) r → ∀ b, c.world.locks b = some p →
    path = joinPath cacheDir (tmpName b c.world.pid) →
      Vacant c.world.fs (tmpPath d b c.world.pid)

/-- A step in which a narinfo is fetched gets a good one. -/
def Vouched (Good : String → NarInfo → Prop) (c : (nodeCache lib cacheDir).Config)
    (ev : (nodeCache lib cacheDir).Event) : Prop :=
  ∀ p hash info, ev = .op p (.fetchNarinfoByHash hash) (.ok info) →
    ∀ b, c.world.locks b = some p → Good b info

/-- Nothing is asked of narinfos. -/
lemma vouched_true {c : (nodeCache lib cacheDir).Config} {ev : (nodeCache lib cacheDir).Event} :
    Vouched (fun _ _ => True) c ev := fun _ _ _ _ _ _ => trivial

/-- The answers in such steps are those the rules consider. -/
lemma allowed_of_fresh {c : (nodeCache lib cacheDir).Config} {o : CacheOp}
    {r : cacheInterface.Answer o} (hfresh : Fresh d c (.op p o r))
    (hvouched : Vouched Good c (.op p o r)) : CacheAllowed cacheDir d Good p o r c.world := by
  cases o with
  | fs o =>
      cases o with
      | createDirAll path => exact fun b hlock hpath => hfresh p path r rfl b hlock hpath
      | _ => exact trivial
  | fetchNarinfoByHash hash =>
      rintro b info hlock rfl
      exact hvouched p hash info rfl b hlock
  | _ => exact trivial

variable {P : (nodeCache lib cacheDir).Config → (nodeCache lib cacheDir).Event → Prop}

/-- The calls keep the rules. -/
lemma covers (hP : ∀ c ev, P c ev → Fresh d c ev ∧ Vouched Good c ev) :
    (cacheRules lib cacheDir d fs₀ Good).Covers (fun _ _ _ _ => True) P := by
  constructor
  · intro c p o r hev
    exact allowed_of_fresh (hP _ _ hev).1 (hP _ _ hev).2
  · intro c p call w' _ hi hbegin
    cases call with
    | startUp =>
        obtain ⟨hdown, pid, rfl⟩ := hbegin
        have hdown' : c.world.phase ≠ .serving := by
          rw [hdown]
          exact nofun
        have hi' : CacheInv lib cacheDir d fs₀ Good
            { c.world with phase := .starting p, pid := pid } :=
          ⟨hi.owned, hi.good, fun _ => hi.free hdown', hi.entries⟩
        refine ⟨hi', ⟨fun q _ => ⟨fun hq => ?_, fun hs => absurd hs hdown',
          fun hs => absurd hs hdown', fun _ _ h => h⟩, fun hs => absurd hs hdown',
          fun _ _ h => h⟩, startUp_triple _ hi' rfl⟩
        rw [hdown] at hq
        cases hq
    | ensureCached paths =>
        obtain ⟨hserving, hpaths, rfl⟩ := hbegin
        exact ⟨hi, CacheGuar.refl d p _, (ensureCached_triple hpaths _ hi hserving).mono
          fun _ _ _ _ => trivial⟩

lemma CacheInv.first (hdir : HomeDir fs₀ cacheDir d) :
    CacheInv lib cacheDir d fs₀ Good (CacheWorld.first fs₀) :=
  ⟨⟨hdir, fun _ _ => rfl⟩, fun _ _ h => h.elim, fun _ _ => rfl, fun _ _ => .inl rfl⟩

/-- **The invariant holds in every state of a run.** -/
theorem inv_of_run (hdir : HomeDir fs₀ cacheDir d)
    (hP : ∀ c ev, P c ev → Fresh d c ev ∧ Vouched Good c ev)
    {evs : List (nodeCache lib cacheDir).Event} {c : (nodeCache lib cacheDir).Config}
    (hrun : Run (nodeCache lib cacheDir) P (Config.idle (CacheWorld.first fs₀)) evs c) :
    CacheInv lib cacheDir d fs₀ Good c.world :=
  (RelyGuarantee.sound (covers hP) (CacheInv.first hdir) hrun).1

/-- **Every step of a serving driver changes a temporary directory of its own.** -/
theorem localChange_of_run (hdir : HomeDir fs₀ cacheDir d)
    (hP : ∀ c ev, P c ev → Fresh d c ev ∧ Vouched Good c ev)
    {evs : List (nodeCache lib cacheDir).Event} {c c' : (nodeCache lib cacheDir).Config}
    (hrun : Run (nodeCache lib cacheDir) P (Config.idle (CacheWorld.first fs₀)) evs c)
    {o : CacheOp} {r : cacheInterface.Answer o} (hev : P c (.op p o r))
    (hstep : Step (nodeCache lib cacheDir) c (.op p o r) c')
    (hserving : c.world.phase = .serving) : LocalChange d p c.world c'.world := by
  obtain ⟨hi, hprocs⟩ := RelyGuarantee.sound (covers hP) (@CacheInv.first lib _ _ _ Good hdir) hrun
  obtain ⟨call, k, w, hp, hsem, rfl⟩ := Step.of_op hstep
  have hsafe := hprocs p _ hp c.world (CacheRely.refl d p _) hi r w hsem
    (allowed_of_fresh (hP _ _ hev).1 (hP _ _ hev).2)
  exact hsafe.2.1.change hserving

end Niphas
