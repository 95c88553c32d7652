import Niphas.Csi.LockMap
import Niphas.Csi.CacheCalls

/-!
# One download at a time

What `ensure_cached` does against concurrent calls for the same paths, over all runs of
`lockSystem`.

Two of the three properties are about safety.  No two downloads of one path are under way, since
each is made under the mutex of the path; and no path is downloaded twice, since a call looks for
the entry again when it has got the mutex.  The third is about progress.  A call waits for a mutex,
for that of the map or for that of a path, and never for a second one while it holds a first, so the
holder of a mutex does not wait (`exists_not_waits`): some call can go on while any is under way.
Nothing is said about fairness, or about the time a download takes.

No entry of the cache is removed while the driver runs, by the driver or by anybody else.  The
driver keeps to that (`CacheDurability`); of the surroundings it is assumed.

* `Located` — where the calls are in a state of a run; every state of a run has it.
* `exists_step` — some call can go on.
* `single_download` — no two downloads of one path at a time, none of what has been downloaded, and
  no deadlock.
-/

namespace Niphas

open FileSystem System

variable {lib : Libraries} {cacheDir : String}

/-! ## The states of a run -/

/-- Where the calls are. -/
structure Located (lib : Libraries) (cacheDir : String) (c : (lockSystem lib cacheDir).Config)
    (stages : ℕ → Stage) : Prop where
  agree : LocksAgree cacheDir stages c.world
  rest : ∀ p proc, c.procs p = some proc → proc.rest = (stages p).prog lib cacheDir
  gone : ∀ p, c.procs p = none → stages p = .loop []

namespace Located

variable {c c' : (lockSystem lib cacheDir).Config} {stages : ℕ → Stage} {p : ℕ}

/-- One call is somewhere else. -/
lemma set (h : Located lib cacheDir c stages) {w : LockWorld} {s' : Stage}
    {proc' : Option (lockSystem lib cacheDir).Process}
    (hagree : LocksAgree cacheDir (Function.update stages p s') w)
    (hrest : ∀ proc, proc' = some proc → proc.rest = s'.prog lib cacheDir)
    (hgone : proc' = none → s' = .loop []) :
    Located lib cacheDir ({ c with world := w }.set p proc') (Function.update stages p s') := by
  refine ⟨hagree, fun q proc hq => ?_, fun q hq => ?_⟩
  · rcases Config.set_eq_some hq with ⟨rfl, hmoved⟩ | ⟨hqp, hold⟩
    · rw [Function.update_self]
      exact hrest proc hmoved
    · rw [Function.update_of_ne hqp]
      exact h.rest q proc hold
  · by_cases hqp : q = p
    · subst hqp
      rw [Config.set_self] at hq
      rw [Function.update_self]
      exact hgone hq
    · rw [Config.set_of_ne _ _ hqp] at hq
      rw [Function.update_of_ne hqp]
      exact h.gone q hq

/-- A call that is to return is at its end. -/
lemma quiet_of_pure {s : Stage} {out : Result Unit} (h : .pure out = s.prog lib cacheDir) :
    s.Quiet := by
  cases s with
  | loop paths => exact ⟨rfl, rfl⟩
  | failed e => exact ⟨rfl, rfl⟩
  | fetches b m prog rest => cases prog <;> cases h
  | _ => cases h

/-- A step of a run. -/
lemma step (h : Located lib cacheDir c stages) {ev : (lockSystem lib cacheDir).Event}
    (hs : Step (lockSystem lib cacheDir) c ev c') : ∃ stages', Located lib cacheDir c' stages' := by
  cases hs with
  | @start p paths w hp hbegin =>
      cases hbegin
      have hquiet : (stages p).Quiet := by
        rw [h.gone p hp]
        exact ⟨rfl, rfl⟩
      have hbegun : (Stage.loop paths).Quiet := ⟨rfl, rfl⟩
      refine ⟨_, h.set (h.agree.quiet hquiet hbegun)
        (fun proc hproc => ?_) fun hnone => by cases hnone⟩
      cases hproc
      rfl
  | @op p call o k r w hp hsem =>
      obtain ⟨s', hmove, hk⟩ := Stage.moves_of_prog (h.rest p _ hp).symm r
      refine ⟨_, h.set (h.agree.move hmove hsem) (fun proc hproc => ?_) fun hnone => by cases hnone⟩
      cases hproc
      exact hk
  | @ret p call out hp =>
      have hended : (Stage.loop []).Quiet := ⟨rfl, rfl⟩
      exact ⟨_, h.set (w := c.world) (h.agree.quiet (quiet_of_pure (h.rest p _ hp)) hended)
        (fun _ hproc => by cases hproc) fun _ => rfl⟩
  | env henv =>
      obtain ⟨fs', hkept, rfl⟩ := henv
      exact ⟨stages, h.agree.files hkept, h.rest, h.gone⟩
  | crash hcrash => exact hcrash.elim

end Located

/-- **Every state of a run**, from any files. -/
lemma exists_located {fs : FS} {evs : List (lockSystem lib cacheDir).Event}
    {c : (lockSystem lib cacheDir).Config}
    (hrun : Run (lockSystem lib cacheDir) (AnyStep _) (Config.idle (LockWorld.first fs)) evs c) :
    ∃ stages, Located lib cacheDir c stages := by
  have hfirst : ∃ stages, Located lib cacheDir (Config.idle (LockWorld.first fs)) stages :=
    ⟨_, LocksAgree.first cacheDir fs, fun p proc hp => (by cases hp), fun _ _ => rfl⟩
  refine @Run.invariant _ _ (fun c => ∃ stages, Located lib cacheDir c stages)
    (fun hc _ hs => ?_) _ _ _ hrun hfirst
  obtain ⟨stages, hstages⟩ := hc
  exact hstages.step hs

/-! ## Going on -/

/-- Every call of the file system has an answer. -/
lemma exists_fsAnswer (o : FsOp) (fs : FS) :
    ∃ r, FileSystem.FsOp.Sem o fs r fs ∧ Niphas.FsOp.Truthful o fs r fs := by
  cases o with
  | «exists» path =>
      by_cases h : Present fs path
      · exact ⟨true, ⟨rfl, fun _ => h⟩, iff_of_true rfl h⟩
      · exact ⟨false, ⟨rfl, fun hr => by cases hr⟩, iff_of_false Bool.false_ne_true h⟩
  | readDir path => exact ⟨.error "", ⟨rfl, fun names hr => by cases hr⟩, trivial⟩
  | setPermissions path mode => exact ⟨.error "", rfl, trivial⟩
  | symlink target path => exact ⟨.error "", rfl, trivial⟩
  | rename src dst => exact ⟨.error "", rfl, fun hr => by cases hr⟩
  | createDirAll path => exact ⟨.error "", .inl rfl, trivial⟩
  | write path contents => exact ⟨.error "", .inl rfl, trivial⟩
  | removeDirAll path => exact ⟨.error "", .inl rfl, trivial⟩

/-- So has every call of the cache. -/
lemma exists_cacheAnswer (p : ℕ) (o : CacheOp) (w : LockWorld) :
    ∃ r, LockOp.Sem cacheDir p (.cache o) w r w := by
  cases o with
  | fs o =>
      obtain ⟨r, hsem, htrue⟩ := exists_fsAnswer o w.fs
      exact ⟨r, w.fs, hsem, htrue, .refl _ _, rfl⟩
  | lock b => exact ⟨(), rfl⟩
  | unlock b => exact ⟨(), rfl⟩
  | fetchNarinfoByHash hash => exact ⟨fail (.io ""), rfl⟩
  | fetchNar narinfo => exact ⟨.error (.io ""), rfl⟩
  | processId => exact ⟨(0 : ℕ), rfl⟩
  | listen => exact ⟨.ok (), rfl⟩

/-- What a call waits for is with another call. -/
def Stage.Waits (w : LockWorld) : Stage → Prop
  | .wantsMap _ _ => w.mapHolder ≠ none
  | .wants _ m _ => w.holders m ≠ none
  | _ => False

/-- A call that does not wait has returned or goes on. -/
lemma Stage.exists_sem {s : Stage} {w : LockWorld} (h : ¬ s.Waits w) (p : ℕ) :
    (∃ out, s.prog lib cacheDir = .pure out) ∨
      ∃ o k r w', s.prog lib cacheDir = .call o k ∧ LockOp.Sem cacheDir p o w r w' := by
  cases s with
  | loop paths =>
      cases paths with
      | nil => exact .inl ⟨_, rfl⟩
      | cons path rest =>
          obtain ⟨r, hr⟩ := exists_cacheAnswer p
            (.fs (.exists (joinPath cacheDir (stripStoreDir path)))) w
          exact .inr ⟨_, _, r, w, rfl, hr⟩
  | failed e => exact .inl ⟨_, rfl⟩
  | wantsMap b rest => exact .inr ⟨.lockMap, _, (), _, rfl, not_not.mp h, rfl⟩
  | hasMap b rest =>
      cases hm : w.mutexes b with
      | none => exact .inr ⟨.entry b, _, w.made, _, rfl, .inr ⟨hm, rfl, rfl⟩⟩
      | some m => exact .inr ⟨.entry b, _, m, w, rfl, .inl ⟨hm, rfl⟩⟩
  | hasEntry b m rest => exact .inr ⟨.unlockMap, _, (), _, rfl, rfl⟩
  | wants b m rest => exact .inr ⟨.lock m, _, (), _, rfl, not_not.mp h, rfl⟩
  | checks b m rest =>
      obtain ⟨r, hr⟩ := exists_cacheAnswer p (.fs (.exists (joinPath cacheDir b))) w
      exact .inr ⟨_, _, r, w, rfl, hr⟩
  | enters b m rest => exact .inr ⟨.enter b, _, (), _, rfl, rfl⟩
  | fetches b m prog rest =>
      cases prog with
      | pure r => exact .inr ⟨.leave b r, _, (), _, rfl, rfl⟩
      | call o k =>
          obtain ⟨r, hr⟩ := exists_cacheAnswer p o w
          exact .inr ⟨_, _, r, w, rfl, hr⟩
  | gives b m r rest => exact .inr ⟨.unlock m, _, (), _, rfl, rfl⟩

/-- A call that has the map does not wait. -/
lemma Stage.not_waits_of_map {s : Stage} (h : s.map = true) (w : LockWorld) : ¬ s.Waits w := by
  cases s <;> first | exact id | cases h

/-- Nor does one that has the mutex of a path. -/
lemma Stage.not_waits_of_held {s : Stage} {m : ℕ} (h : s.held = some m) (w : LockWorld) :
    ¬ s.Waits w := by
  cases s <;> first | exact id | cases h

namespace Located

variable {c : (lockSystem lib cacheDir).Config} {stages : ℕ → Stage} {p : ℕ}

/-- **Where one call waits, another does not.** -/
lemma exists_not_waits (h : Located lib cacheDir c stages) (hp : c.procs p ≠ none) :
    ∃ q, c.procs q ≠ none ∧ ¬ (stages q).Waits c.world := by
  -- a call that has a mutex is under way
  have hunderWay (q : ℕ) (hq : ¬ (stages q).Quiet) : c.procs q ≠ none := by
    intro hnone
    rw [h.gone q hnone] at hq
    exact hq ⟨rfl, rfl⟩
  by_cases hwaits : (stages p).Waits c.world
  · cases hs : stages p with
    | wantsMap b rest =>
        rw [hs] at hwaits
        obtain ⟨q, hq⟩ := Option.ne_none_iff_exists'.mp hwaits
        have hmap : (stages q).map = true := (h.agree.map q).mp hq
        refine ⟨q, hunderWay q fun hquiet => ?_, Stage.not_waits_of_map hmap _⟩
        rw [hquiet.2] at hmap
        cases hmap
    | wants b m rest =>
        rw [hs] at hwaits
        obtain ⟨q, hq⟩ := Option.ne_none_iff_exists'.mp hwaits
        have hheld : (stages q).held = some m := (h.agree.held m q).mp hq
        refine ⟨q, hunderWay q fun hquiet => ?_, Stage.not_waits_of_held hheld _⟩
        rw [hquiet.held_eq] at hheld
        cases hheld
    | _ =>
        rw [hs] at hwaits
        exact hwaits.elim
  · exact ⟨p, hp, hwaits⟩

/-- **No deadlock.**  While a call is under way, a call goes on or returns. -/
lemma exists_step (h : Located lib cacheDir c stages) (hp : c.procs p ≠ none) :
    ∃ q c', (∃ o r, Step (lockSystem lib cacheDir) c (.op q o r) c') ∨
      ∃ out, Step (lockSystem lib cacheDir) c (.ret q out) c' := by
  obtain ⟨q, hq, hwaits⟩ := h.exists_not_waits hp
  obtain ⟨⟨call, rest⟩, hproc⟩ := Option.ne_none_iff_exists'.mp hq
  have hrest : rest = (stages q).prog lib cacheDir := h.rest q _ hproc
  rcases (stages q).exists_sem hwaits q with ⟨out, hout⟩ | ⟨o, k, r, w', hcall, hsem⟩
  · rw [hrest, hout] at hproc
    exact ⟨q, _, .inr ⟨out, .ret hproc⟩⟩
  · rw [hrest, hcall] at hproc
    exact ⟨q, _, .inl ⟨o, r, .op hproc hsem⟩⟩

/-- Two calls that fetch one path are the same. -/
lemma eq_of_running (h : Located lib cacheDir c stages) {q : ℕ} {b : String}
    (hp : c.world.running p = some b) (hq : c.world.running q = some b) : p = q := by
  rw [h.agree.running] at hp hq
  obtain ⟨m, hpn, hpm⟩ := Stage.held_of_fetching hp
  obtain ⟨m', hqn, hqm⟩ := Stage.held_of_fetching hq
  exact h.agree.eq_of_named hpn hpm hqn hqm

/-- What has been fetched is not fetched again. -/
lemma not_succeeded_of_enter (h : Located lib cacheDir c stages) {b : String} {r : Unit}
    {c' : (lockSystem lib cacheDir).Config}
    (hs : Step (lockSystem lib cacheDir) c (.op p (.enter b) r) c') : ¬ c.world.succeeded b := by
  obtain ⟨call, k, w, hp, -, -⟩ := hs.of_op
  have hprog := h.rest p _ hp
  cases hstage : stages p with
  | enters b' m rest =>
      rw [hstage] at hprog
      cases hprog
      exact (h.agree.ok p).fresh b m rest hstage
  | loop paths =>
      rw [hstage] at hprog
      cases paths <;> cases hprog
  | fetches b' m prog rest =>
      rw [hstage] at hprog
      cases prog <;> cases hprog
  | _ =>
      rw [hstage] at hprog
      cases hprog

end Located

/-- What has been fetched stays so. -/
lemma LockOp.succeeded_mono {p : ℕ} {o : LockOp} {r : lockInterface.Answer o} {w w' : LockWorld}
    (hsem : LockOp.Sem cacheDir p o w r w') {b : String} (h : w.succeeded b) : w'.succeeded b := by
  cases o with
  | cache o =>
      obtain ⟨fs', -, rfl⟩ := LockOp.sem_cache hsem
      exact h
  | lockMap | lock m =>
      obtain ⟨-, rfl⟩ := hsem
      exact h
  | entry b => rcases hsem with ⟨-, rfl⟩ | ⟨-, -, rfl⟩ <;> exact h
  | unlockMap | unlock m | enter b =>
      cases hsem
      exact h
  | leave b r =>
      cases hsem
      exact .inl h

lemma succeeded_of_run {c c' : (lockSystem lib cacheDir).Config} {b : String}
    {evs : List (lockSystem lib cacheDir).Event}
    (hrun : Run (lockSystem lib cacheDir) (AnyStep _) c evs c') (h : c.world.succeeded b) :
    c'.world.succeeded b := by
  refine @Run.invariant _ _ (fun c : (lockSystem lib cacheDir).Config => c.world.succeeded b)
    (fun hc _ hs => ?_) _ _ _ hrun h
  cases hs with
  | start _ hbegin =>
      cases hbegin
      exact hc
  | op _ hsem => exact LockOp.succeeded_mono hsem hc
  | ret _ => exact hc
  | env henv =>
      obtain ⟨fs', -, rfl⟩ := henv
      exact hc
  | crash hcrash => exact hcrash.elim

/-! ## A download -/

/-- The program of a stage makes its moves. -/
lemma Stage.Moves.prog_eq {s s' : Stage} {o : LockOp} {r : lockInterface.Answer o}
    (h : Stage.Moves lib cacheDir s o r s') :
    ∃ k, s.prog lib cacheDir = .call o k ∧ k r = s'.prog lib cacheDir := by
  cases h with
  | @enter b m rest =>
      refine ⟨_, rfl, ?_⟩
      change (liftCache _ >>= fun r => lockOp (.leave b r) >>= fun _ => pure r) >>= _ = _
      rw [bind_assoc]
      rfl
  | @unlock b m r rest =>
      refine ⟨_, rfl, ?_⟩
      rcases r with e | u <;> rfl
  | _ => exact ⟨_, rfl, rfl⟩

/-- Only call `0` is under way. -/
def oneCall (lib : Libraries) (cacheDir : String) (paths : List String) (s : Stage)
    (w : LockWorld) :
    (lockSystem lib cacheDir).Config :=
  (Config.idle w).set 0 (some { call := paths, rest := s.prog lib cacheDir })

/-- It moves. -/
lemma reaches_move {c : (lockSystem lib cacheDir).Config} {paths : List String} {s s' : Stage}
    {o : LockOp} {r : lockInterface.Answer o} {w w' : LockWorld}
    (h : Reaches (lockSystem lib cacheDir) (AnyStep _) c (oneCall lib cacheDir paths s w))
    (hmove : Stage.Moves lib cacheDir s o r s') (hsem : LockOp.Sem cacheDir 0 o w r w') :
    Reaches (lockSystem lib cacheDir) (AnyStep _) c (oneCall lib cacheDir paths s' w') := by
  obtain ⟨k, hprog, hk⟩ := hmove.prog_eq
  have hp : (oneCall lib cacheDir paths s w).procs 0 =
      some { call := paths, rest := .call o k } := by
    rw [oneCall, hprog]
    exact Config.set_self _ _ _
  have hstep := h.step trivial (@Step.op (lockSystem lib cacheDir) _ _ _ _ _ _ _ hp hsem)
  rw [hk] at hstep
  exact (congrArg (Reaches _ _ c) (Config.set_set (Config.idle w) w' 0 _ _)).mp hstep

/-- Where the directory of the cache has no name of a store path, there is no entry. -/
lemma not_hasEntry {fs : FS} (ho : Owned plainFiles "/c" ["c"] fs)
    (hnone : ∀ n, ¬ IsTmp n → fs ["c", n] = none) (b : String) : ¬ HasEntry "/c" b fs := by
  rintro ⟨⟨storePath, hparse⟩, v, hv, hsome⟩
  obtain ⟨habs, n, rest, hcomps, hdots, htmp⟩ := components_of_parseBasename hparse
  have hc : components "/c" = ["c"] := by decide +kernel
  rw [lookup] at hv
  split at hv
  · cases hv
  · rw [components_joinPath _ habs, hcomps, hc, List.singleton_append, resolve_cons,
      if_neg (by decide), List.nil_append, ho.isDir] at hv
    simp only [resolve_cons, if_neg hdots, List.singleton_append, hnone n htmp] at hv
    split at hv
    · cases hv
      exact hsome (hnone n htmp)
    · cases hv

lemma Kept.of_none {cacheDir : String} {fs fs' : FS} (h : ∀ b, ¬ HasEntry cacheDir b fs) :
    Kept cacheDir fs fs' := fun b hb => absurd hb (h b)

/-- While call `0` fetches the path, with the files `fs`. -/
def fetchingWorld (fs : FS) : LockWorld where
  fs := fs
  mapHolder := none
  mutexes := Function.update (fun _ => none) hello (some 0)
  made := 1
  holders := Function.update (fun _ => none) 0 (some 0)
  running := Function.update (fun _ => none) 0 (some hello)
  succeeded _ := False

/-- Call `0` comes to the download. -/
lemma reaches_fetching :
    Reaches (lockSystem plainLibraries "/c") (AnyStep _) (Config.idle (LockWorld.first plainFiles))
      (oneCall plainLibraries "/c" [hello]
        (.fetches hello 0 (fetchAndExtract plainLibraries "/c" hello).run [])
        (fetchingWorld plainFiles)) := by
  have habsent : ¬ Present plainFiles (joinPath "/c" hello) := fun h =>
    not_hasEntry owned_plainFiles (fun n _ => rfl) hello ⟨⟨_, parseBasename_hello⟩, h⟩
  have hmissing (w : LockWorld) (hw : w.fs = plainFiles) :
      LockOp.Sem "/c" 0 (.cache (.fs (.exists (joinPath "/c" hello)))) w false w := by
    refine ⟨w.fs, ⟨rfl, fun hr => by cases hr⟩, iff_of_false Bool.false_ne_true ?_, .refl _ _, rfl⟩
    rwa [hw]
  have hbegin : Reaches (lockSystem plainLibraries "/c") (AnyStep _)
      (Config.idle (LockWorld.first plainFiles))
      (oneCall plainLibraries "/c" [hello] (.loop [hello]) (LockWorld.first plainFiles)) :=
    (Reaches.refl _).start trivial rfl rfl
  have hloop := @Stage.Moves.missing plainLibraries "/c" hello []
  rw [stripStoreDir_hello] at hloop
  have hwants := reaches_move hbegin hloop (hmissing _ rfl)
  have hmap := reaches_move hwants .lockMap ⟨rfl, rfl⟩
  have hentry := reaches_move hmap (@Stage.Moves.entry _ _ _ _ 0) (.inr ⟨rfl, rfl, rfl⟩)
  have hnamed := reaches_move hentry .unlockMap rfl
  have hlock := reaches_move hnamed .lock ⟨rfl, rfl⟩
  have hchecked := reaches_move hlock .notFound (hmissing _ rfl)
  exact reaches_move hchecked .enter rfl

/-- One operation of the download. -/
lemma reaches_fetch {fs fs' : FS} {o : CacheOp}
    {k : cacheInterface.Answer o → Prog cacheInterface (Result Unit)}
    {c : (lockSystem plainLibraries "/c").Config}
    (h : Reaches (lockSystem plainLibraries "/c") (AnyStep _) c
      (oneCall plainLibraries "/c" [hello] (.fetches hello 0 (.call o k) []) (fetchingWorld fs)))
    (r : cacheInterface.Answer o)
    (hsem : LockOp.Sem "/c" 0 (.cache o) (fetchingWorld fs) r (fetchingWorld fs')) :
    Reaches (lockSystem plainLibraries "/c") (AnyStep _) c
      (oneCall plainLibraries "/c" [hello] (.fetches hello 0 (k r) []) (fetchingWorld fs')) :=
  reaches_move h .fetch hsem

/-- The files with the tree in place. -/
def fetchedFiles : FS := moveTree createdFiles (["c"] ++ [helloTmp]) (["c"] ++ [hello])

lemma present_fetchedFiles : Present fetchedFiles (joinPath "/c" hello) := by
  refine ⟨["c", hello], by decide +kernel, ?_⟩
  have hroot := congrFun (subtree_moveTree createdFiles (["c"] ++ [helloTmp]) (["c"] ++ [hello])) []
  rw [subtree, subtree, List.append_nil, List.append_nil] at hroot
  change fetchedFiles (["c"] ++ [hello]) ≠ none
  rw [fetchedFiles, hroot, createdFiles, set_self]
  exact Option.some_ne_none _

lemma createdFiles_of_not_isTmp {n : String} (hn : ¬ IsTmp n) : createdFiles ["c", n] = none := by
  have hne : ["c", n] ≠ ["c"] ++ [helloTmp] := by
    intro h
    rw [(List.cons.inj (List.cons.inj h).2).1] at hn
    exact hn (isTmp_tmpName hello 1)
  exact set_of_ne _ hne _

/-- **The download succeeds.** -/
lemma reaches_fetched :
    Reaches (lockSystem plainLibraries "/c") (AnyStep _) (Config.idle (LockWorld.first plainFiles))
      (oneCall plainLibraries "/c" [hello] (.fetches hello 0 (.pure (.ok ())) [])
        (fetchingWorld fetchedFiles)) := by
  obtain ⟨data, nar, hfile, hdec, hparse⟩ := @matchesNar_narinfoOf _ [] wellFormed_emptyNode
  have hcreate :
      (FsOp.createDirAll (joinPath "/c" helloTmp)).Sem plainFiles (.ok ()) createdFiles :=
    owned_plainFiles.createDirAll_ok names_helloTmp (List.cons_ne_nil _ _) (through_helloTmp rfl)
      (.inl rfl)
  have hdir : createdFiles (["c"] ++ [helloTmp]) = some .dir := set_self _ _ _
  have hexists := owned_createdFiles.exists_ok names_helloTmp (List.cons_ne_nil _ _)
    (through_helloTmp rfl) hdir
  have hrename : (FsOp.rename (joinPath "/c" helloTmp) (joinPath "/c" hello)).Sem createdFiles
      (.ok ()) fetchedFiles := by
    refine owned_createdFiles.rename_ok names_helloTmp (List.cons_ne_nil _ _) (through_helloTmp rfl)
      (emptyDir_plainFiles.home.names.join isName_hello) (List.cons_ne_nil _ _)
      (Through.cons rfl isName_hello.2.2.1 (through_nil _)) ?_
      (createdFiles_of_not_isTmp not_isTmp_hello) not_prefix_hello
    rw [hdir]
    exact Option.some_ne_none _
  have hstart := reaches_fetching
  rw [fetchAndExtract_eq parseBasename_hello] at hstart
  have hinfo := reaches_fetch hstart (.ok (narinfoOf emptyNode []) : Result NarInfo) rfl
  have hdata := reaches_fetch hinfo (.ok data : Except NiphasError _) rfl
  change Reaches _ _ _ (oneCall _ _ _ (.fetches _ _ (unpackNar plainLibraries "/c" hello
    (narinfoOf emptyNode []) data).run _) _) at hdata
  rw [unpackNar_eq hfile hdec] at hdata
  have hpid := reaches_fetch hdata (1 : ℕ) rfl
  have hcreated := reaches_fetch hpid (.ok () : Except String Unit)
    ⟨createdFiles, hcreate, trivial, .of_none (not_hasEntry owned_plainFiles fun _ _ => rfl), rfl⟩
  change Reaches _ _ _ (oneCall _ _ _ (.fetches _ _ (extractNar plainLibraries
    (narinfoOf emptyNode []) nar (joinPath "/c" helloTmp) (joinPath "/c" hello)).run _) _)
      at hcreated
  rw [extractNar_eq hparse] at hcreated
  have hextracted := reaches_fetch hcreated true
    ⟨createdFiles, hexists, iff_of_true rfl (hexists.2 rfl), .refl _ _, rfl⟩
  exact reaches_fetch hextracted (.ok () : Except String Unit)
    ⟨fetchedFiles, hrename, fun _ => present_fetchedFiles,
      .of_none (not_hasEntry owned_createdFiles fun n hn => createdFiles_of_not_isTmp hn), rfl⟩

/-- And it is marked. -/
lemma exists_succeeded : ∃ c, Reaches (lockSystem plainLibraries "/c") (AnyStep _)
    (Config.idle (LockWorld.first plainFiles)) c ∧ c.world.succeeded hello :=
  ⟨_, reaches_move reaches_fetched .leave rfl, .inr ⟨rfl, rfl⟩⟩

/-! ## The result -/

/-- **One download at a time.**  However many calls there are, for whatever paths, and however they
come between each other: of no path are two downloads under way; once a path has been downloaded,
its entry is there and no download of it begins any more; and while a call is under way, a call goes
on or returns. -/
theorem single_download {fs : FS} {evs : List (lockSystem lib cacheDir).Event}
    {c : (lockSystem lib cacheDir).Config}
    (hrun : Run (lockSystem lib cacheDir) (AnyStep _) (Config.idle (LockWorld.first fs)) evs c) :
    (∀ p q b, c.world.running p = some b → c.world.running q = some b → p = q) ∧
    (∀ b, c.world.succeeded b → HasEntry cacheDir b c.world.fs ∧
      ∀ evs' c', Run (lockSystem lib cacheDir) (AnyStep _) c evs' c' →
        ∀ p r c'', ¬ Step (lockSystem lib cacheDir) c' (.op p (.enter b) r) c'') ∧
    ((∃ p, c.procs p ≠ none) →
      ∃ q c', (∃ o r, Step (lockSystem lib cacheDir) c (.op q o r) c') ∨
        ∃ out, Step (lockSystem lib cacheDir) c (.ret q out) c') := by
  obtain ⟨stages, hc⟩ := exists_located hrun
  refine ⟨fun p q b => hc.eq_of_running, fun b hb => ⟨hc.agree.present b hb, ?_⟩, ?_⟩
  · intro evs' c' hrun' p r c'' hs
    obtain ⟨stages', hc'⟩ := exists_located (hrun.append hrun')
    exact hc'.not_succeeded_of_enter hs (succeeded_of_run hrun' hb)
  · rintro ⟨p, hp⟩
    exact hc.exists_step hp

/-- A path is downloaded, and then never again. -/
theorem single_download_hello : ∃ c : (lockSystem plainLibraries "/c").Config,
    Reaches (lockSystem plainLibraries "/c") (AnyStep _)
      (Config.idle (LockWorld.first plainFiles)) c ∧
      HasEntry "/c" hello c.world.fs ∧
      ∀ evs' c', Run (lockSystem plainLibraries "/c") (AnyStep _) c evs' c' →
        ∀ p r c'', ¬ Step (lockSystem plainLibraries "/c") c' (.op p (.enter hello) r) c'' := by
  obtain ⟨c, ⟨evs, hrun⟩, hb⟩ := exists_succeeded
  exact ⟨c, ⟨evs, hrun⟩, (single_download hrun).2.1 hello hb⟩

end Niphas
