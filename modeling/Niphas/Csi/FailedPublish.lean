import Mathlib.Data.Set.Basic
import Niphas.Csi.ReadOnlyMounts

/-!
# Failed publishes

What a publish that returns an error leaves behind, alone on its node: any set of the calls may
fail, of the cache, of the target directory and of the mounts.

Which calls fail is given in advance, as a set of them.  A call of the set fails, and leaves the
mounts and its own path as they were.  So does one that cannot succeed where it is made: `rmdir` on
a directory with something in it, or on a mount point.  All the others succeed.  So the set and the
node before decide what becomes of a publish, and a condition on the two can be exact.

The condition is read off the code.  In front of the bind mount nothing is changed that counts.
Behind it, the code undoes what it did by an unmount and a `rmdir`, and ignores whether they
succeed; it also tries the `rmdir` if the directory was there before it came (`Undoes`).  A
directory that has been made and removed again may leave parents behind; the claim is about the
target and the mounts, and the parents are left open.

* `failed_publish_traceless` — the mount table is as before, and the target directory is there as
  before, exactly when the publish fails in front of the bind mount or `Undoes` what it did.
* `failed_publish_traces` — the bind mount fails, and a directory that was there before is removed;
  the remount and the unmount after it fail, and the bind mount stays.
-/

namespace Niphas

/-! ## The state of a node -/

/-- What is at a path: nothing, an empty directory, or anything else. -/
inductive Place where
  | absent
  | empty
  | filled
  deriving DecidableEq, Repr

/-- The mounts of a node, and what is at each mount point.  Nothing is mounted where nothing is. -/
structure NodeState where
  mounts : MountTable
  places : String → Place
  present : ∀ s, mounts s ≠ [] → places s ≠ .absent

/-- The path a call looks at, makes or removes. -/
def SysOp.path : SysOp → Option String
  | «exists» path => some path
  | createDirAll path => some path
  | removeDir path => some path
  | _ => none

/-- What a call makes of the place at its path.  A `create_dir_all` that fails may leave parents
behind, but not the directory. -/
def SysOp.PlaceSem : (o : SysOp) → Place → sysInterface.Answer o → Place → Prop
  | .exists _, d, r, d' => r = decide (d ≠ .absent) ∧ d' = d
  | .createDirAll _, d, r, d' =>
      match r with
      | .error _ => d' = d
      | .ok () => d' = if d = .absent then .empty else d
  | .removeDir _, d, r, d' =>
      match r with
      | .error _ => d' = d
      | .ok () => d' = .absent
  | _, d, _, d' => d' = d

/-- A call that can succeed.  `rmdir` removes an empty directory only, and no mount point. -/
def SysOp.Possible (point : String → String) (w : NodeState) : SysOp → Prop
  | probe path => w.places (point path) ≠ .absent
  | mount source target _ flags =>
      if flags &&& msRemount ≠ 0 then w.mounts (point target) ≠ []
      else source ≠ none ∧ w.places (point target) ≠ .absent
  | umount2 target _ => w.mounts (point target) ≠ []
  | removeDir path => w.places (point path) = .empty ∧ w.mounts (point path) = []
  | _ => True

/-- The answer of a call that fails. -/
def SysOp.Failed : (o : SysOp) → sysInterface.Answer o → Prop
  | .exists _, _ => False
  | .probe _, r => r = none
  | .createDirAll _, r => ∃ e, r = .error e
  | .removeDir _, r => ∃ e, r = .error e
  | .mount _ _ _ _, r => ∃ e, r = .error e
  | .umount2 _ _, r => ∃ e, r = .error e
  | .ensureCached _, r => ∃ e, r = .error e

/-- Whether a call fails: one of `faults` does, and one that cannot succeed.  `exists` has no way
to. -/
def SysOp.Fails (point : String → String) (faults : Set SysOp) (w : NodeState) (o : SysOp) : Prop :=
  (∀ path, o ≠ .exists path) ∧ (o ∈ faults ∨ ¬ o.Possible point w)

/-- What a call makes of a node, where the calls of `faults` fail.  What becomes of the parents of a
directory that is made or removed is not said. -/
structure SysOp.FaultSem (point : String → String) (faults : Set SysOp) (o : SysOp) (w : NodeState)
    (r : sysInterface.Answer o) (w' : NodeState) : Prop where
  mounts : o.Sem point w.mounts r w'.mounts
  place : ∀ path, o.path = some path →
    o.PlaceSem (w.places (point path)) r (w'.places (point path))
  places : o.path = none → w'.places = w.places
  failed : o.Failed r ↔ o.Fails point faults w

/-- The mount table is the same, and `target` is there if it was. -/
def Untouched (point : String → String) (target : String) (w w' : NodeState) : Prop :=
  w'.mounts = w.mounts ∧ (w'.places (point target) = .absent ↔ w.places (point target) = .absent)

/-! ## What decides the outcome

All of these are about the faults and the node before the publish.  Whether the target is removable
depends on whether it was there: a directory that was just made is empty.
-/

/-- A publish gets as far as the bind mount, if it does not find its target mounted. -/
structure ReachesMount (point : String → String) (faults : Set SysOp) (w : NodeState)
    (req : NodePublishVolumeRequest) (storePath : String) : Prop where
  volumeId : req.volumeId ≠ ""
  targetPath : req.targetPath ≠ ""
  storePath : req.volumeContext.lookup "storePath" = some storePath
  closure : ∃ raw, req.volumeContext.lookup "closurePaths" = some raw ∧
    splitClosurePaths raw ≠ [] ∧ SysOp.ensureCached (splitClosurePaths raw) ∉ faults
  setup : w.places (point req.targetPath) = .absent → SysOp.createDirAll req.targetPath ∉ faults

/-- The bind mount is made. -/
def Binding (faults : Set SysOp) (source target : String) : Prop :=
  RealMountOps.nulError source = none ∧ RealMountOps.nulError target = none ∧
    SysOp.mount (some source) target (some "none") msBind ∉ faults

/-- The directory `target`, made if it was not there, can be removed. -/
def Removable (point : String → String) (faults : Set SysOp) (w : NodeState) (target : String) :
    Prop :=
  SysOp.removeDir target ∉ faults ∧ w.places (point target) ≠ .filled ∧ w.mounts (point target) = []

/-- A publish that has failed at the mount undoes what it did: a bind mount it made is unmounted,
and the target directory is removed if and only if it was not there before. -/
structure Undoes (point : String → String) (faults : Set SysOp) (w : NodeState)
    (source target : String) : Prop where
  unmounts : Binding faults source target → SysOp.umount2 target mntDetach ∉ faults
  removes : w.places (point target) = .absent ↔ Removable point faults w target

/-! ## Single calls -/

variable {point : String → String} {faults : Set SysOp} {w w' : NodeState}

/-- The mount table of a call that does not change it. -/
lemma SysOp.FaultSem.mounts_eq {o : SysOp} {r : sysInterface.Answer o}
    (h : o.FaultSem point faults w r w') (ho : o.target = none) : w'.mounts = w.mounts :=
  funext fun s => h.mounts.2 s fun t ht => by rw [ho] at ht; cases ht

/-- A call that looks at the node only. -/
lemma SysOp.FaultSem.eq {o : SysOp} {r : sysInterface.Answer o} (h : o.FaultSem point faults w r w')
    (ho : o.target = none) (hpath : o.path = none) : w' = w := by
  have hmounts := h.mounts_eq ho
  have hplaces := h.places hpath
  cases w
  cases w'
  cases hmounts
  cases hplaces
  rfl

/-- A successful mount or unmount changes its own mount point only. -/
lemma SysOp.FaultSem.mounts_update {o : SysOp} {r : sysInterface.Answer o} {target : String}
    (h : o.FaultSem point faults w r w') (ho : o.target = some target) :
    o.StackSem (w.mounts (point target)) r (w'.mounts (point target)) ∧
      w'.mounts = Function.update w.mounts (point target) (w'.mounts (point target)) := by
  refine ⟨h.mounts.1 target ho, funext fun s => ?_⟩
  by_cases hs : s = point target
  · subst hs
    rw [Function.update_self]
  · rw [Function.update_of_ne hs]
    refine h.mounts.2 s fun t ht => ?_
    rw [ho, Option.some.injEq] at ht
    rwa [← ht]

/-- A call that cannot fail for itself fails when it is to. -/
lemma SysOp.FaultSem.failed_iff {o : SysOp} {r : sysInterface.Answer o}
    (h : o.FaultSem point faults w r w') (ho : ∀ path, o ≠ .exists path)
    (hpossible : o.Possible point w) : o.Failed r ↔ o ∈ faults := by
  rw [h.failed, SysOp.Fails]
  constructor
  · rintro ⟨-, hmem | hnot⟩
    · exact hmem
    · exact absurd hpossible hnot
  · intro hmem
    exact ⟨ho, .inl hmem⟩

/-! ## The mount operations -/

variable {log : List (Σ o : SysOp, sysInterface.Answer o)} {target : String}

/-- A run of the service on a node. -/
abbrev NodeRun {α : Type} (point : String → String) (faults : Set SysOp)
    (prog : Prog sysInterface α) (w : NodeState) (log : List (Σ o : SysOp, sysInterface.Answer o))
    (a : α) (w' : NodeState) : Prop :=
  prog.Runs (SysOp.FaultSem point faults) w log a w'

/-- A call on its own. -/
lemma nodeRun_sysOp {o : SysOp} {r : sysInterface.Answer o}
    (h : NodeRun point faults (sysOp o) w log r w') : o.FaultSem point faults w r w' := by
  obtain ⟨r', log', w₁, -, hs, hret⟩ := Prog.Runs.of_call h
  obtain ⟨-, rfl, rfl⟩ := Prog.Runs.of_pure hret
  exact hs

/-- `setup_target_dir`. -/
lemma setupTargetDir_run {r : Except String Unit}
    (h : NodeRun point faults (RealMountOps.setupTargetDir target) w log r w') :
    w'.mounts = w.mounts ∧
      ((∃ e, r = .error e) ↔
        w.places (point target) = .absent ∧ SysOp.createDirAll target ∈ faults) ∧
      w'.places (point target) =
        if w.places (point target) = .absent ∧ r = .ok () then .empty
        else w.places (point target) := by
  obtain ⟨present, log₁, log₂, w₁, -, hexists, hrest⟩ := Prog.Runs.of_bind h
  have hs := nodeRun_sysOp hexists
  obtain ⟨rfl, hplace⟩ := hs.place target rfl
  have hmounts := hs.mounts_eq rfl
  by_cases habsent : w.places (point target) = .absent
  · rw [if_neg (by rw [decide_eq_true_eq]; exact not_not_intro habsent)] at hrest
    have hmake := nodeRun_sysOp hrest
    have hplace' := hmake.place target rfl
    have hfailed : (∃ e, r = .error e) ↔ SysOp.createDirAll target ∈ faults :=
      hmake.failed_iff (fun _ h => by cases h) trivial
    refine ⟨(hmake.mounts_eq rfl).trans hmounts, ?_, ?_⟩
    · rw [hfailed]
      exact ⟨fun hmem => ⟨habsent, hmem⟩, fun hmem => hmem.2⟩
    · rcases r with e | ⟨⟩
      · rw [if_neg (by rintro ⟨-, ⟨⟩⟩)]
        exact hplace'.trans hplace
      · rw [if_pos ⟨habsent, rfl⟩]
        exact hplace'.trans (if_pos (hplace.trans habsent))
  · rw [if_pos (by rw [decide_eq_true_eq]; exact habsent)] at hrest
    obtain ⟨-, rfl, rfl⟩ := Prog.Runs.of_pure hrest
    refine ⟨hmounts, ⟨?_, fun h => absurd h.1 habsent⟩, ?_⟩
    · rintro ⟨e, ⟨⟩⟩
    · rw [if_neg fun h => habsent h.1]
      exact hplace

/-- `cleanup_target`. -/
lemma cleanupTarget_run {r : Except String Unit}
    (h : NodeRun point faults (RealMountOps.cleanupTarget target) w log r w') :
    w'.mounts = w.mounts ∧ (w'.places (point target) = .absent ↔
      w.places (point target) = .absent ∨ Removable point faults w target) := by
  obtain ⟨present, log₁, log₂, w₁, -, hexists, hrest⟩ := Prog.Runs.of_bind h
  have hs := nodeRun_sysOp hexists
  obtain ⟨rfl, hplace⟩ := hs.place target rfl
  have hmounts := hs.mounts_eq rfl
  by_cases habsent : w.places (point target) = .absent
  · rw [if_neg (by rw [decide_eq_true_eq]; exact not_not_intro habsent)] at hrest
    obtain ⟨-, rfl, rfl⟩ := Prog.Runs.of_pure hrest
    exact ⟨hmounts, ⟨fun _ => .inl habsent, fun _ => hplace.trans habsent⟩⟩
  · rw [if_pos (by rw [decide_eq_true_eq]; exact habsent)] at hrest
    have hremove := nodeRun_sysOp hrest
    have hplace' := hremove.place target rfl
    have hfailed : (∃ e, r = .error e) ↔ _ := hremove.failed
    refine ⟨(hremove.mounts_eq rfl).trans hmounts, ?_⟩
    have hcan : SysOp.Fails point faults w₁ (.removeDir target) ↔
        ¬ Removable point faults w target := by
      rw [SysOp.Fails, SysOp.Possible, Removable, hplace, hmounts]
      constructor
      · rintro ⟨-, hmem | hnot⟩ ⟨hfault, hfilled, hfree⟩
        · exact hfault hmem
        · refine hnot ⟨?_, hfree⟩
          cases hp : w.places (point target) with
          | absent => exact absurd hp habsent
          | empty => rfl
          | filled => exact absurd hp hfilled
      · intro hnot
        refine ⟨fun _ h => (by cases h), ?_⟩
        by_contra hno
        rw [not_or, not_not] at hno
        refine hnot ⟨hno.1, ?_, hno.2.2⟩
        rw [hno.2.1]
        exact Place.noConfusion
    rw [hcan] at hfailed
    rcases r with e | ⟨⟩
    · have hkept : w'.places (point target) = w.places (point target) := hplace'.trans hplace
      rw [hkept]
      refine ⟨fun h => absurd h habsent, ?_⟩
      rintro (h | h)
      · exact h
      · exact absurd h (hfailed.mp ⟨e, rfl⟩)
    · refine ⟨fun _ => .inr ?_, fun _ => hplace'⟩
      by_contra hnot
      obtain ⟨e, he⟩ := hfailed.mpr hnot
      cases he

/-- A bind mount whose remount failed: it goes if it can be unmounted. -/
lemma undoBind_run {m : Mount} {st : MountTable} {e : String} {r : Except String Unit}
    (hnul : RealMountOps.nulError target = none)
    (hw : w.mounts = Function.update st (point target) (m :: st (point target)))
    (h : NodeRun point faults (RealMountOps.undoBind target e) w log r w') :
    w'.places = w.places ∧
      (w'.mounts = st ↔ SysOp.umount2 target mntDetach ∉ faults) := by
  have htop : w.mounts (point target) = m :: st (point target) := by
    rw [hw, Function.update_self]
  obtain ⟨r₁, log₁, log₂, w₁, -, hunmount, hrest⟩ := Prog.Runs.of_bind h
  rw [RealMountOps.unmount, hnul] at hunmount
  have hs := nodeRun_sysOp hunmount
  have hplaces : w₁.places = w.places := hs.places rfl
  have hfailed : (∃ e, r₁ = .error e) ↔ SysOp.umount2 target mntDetach ∈ faults :=
    hs.failed_iff (fun _ h => by cases h) (by
      rw [SysOp.Possible, htop]
      exact List.cons_ne_nil _ _)
  obtain ⟨hstack, hupdate⟩ := hs.mounts_update rfl
  rw [hw, Function.update_idem] at hupdate
  rcases r₁ with e₁ | ⟨⟩
  · obtain ⟨-, -, rfl⟩ := Prog.Runs.of_pure hrest
    have hsame : w'.mounts (point target) = w.mounts (point target) := hstack
    refine ⟨hplaces, fun heq => ?_, fun hmem => absurd (hfailed.mp ⟨e₁, rfl⟩) hmem⟩
    rw [heq, htop] at hsame
    exact absurd hsame List.ne_cons_self
  · obtain ⟨-, -, rfl⟩ := Prog.Runs.of_pure hrest
    obtain ⟨m', hm'⟩ := hstack
    rw [htop, List.cons.injEq] at hm'
    refine ⟨hplaces, fun _ hmem => ?_, fun _ => ?_⟩
    · obtain ⟨e₁, he⟩ := hfailed.mpr hmem
      cases he
    · rw [hupdate, ← hm'.2, Function.update_eq_self]

/-- `bind_mount_readonly`, where there is something to mount on. -/
lemma bindMountReadonly_run {source e : String} (hpresent : w.places (point target) ≠ .absent)
    (h : NodeRun point faults (RealMountOps.bindMountReadonly source target) w log (.error e) w') :
    w'.places = w.places ∧
      (w'.mounts = w.mounts ↔
        (Binding faults source target → SysOp.umount2 target mntDetach ∉ faults)) := by
  rw [RealMountOps.bindMountReadonly] at h
  split at h
  next e₁ hnul =>
    obtain ⟨-, -, rfl⟩ := Prog.Runs.of_pure h
    refine ⟨rfl, fun _ hb => ?_, fun _ => rfl⟩
    rw [hb.1] at hnul
    cases hnul
  next e₁ _ hnul =>
    obtain ⟨-, -, rfl⟩ := Prog.Runs.of_pure h
    refine ⟨rfl, fun _ hb => ?_, fun _ => rfl⟩
    rw [hb.2.1] at hnul
    cases hnul
  next hsource htarget =>
  -- the bind mount
  obtain ⟨r₁, log₁, log₂, w₁, -, hbind, hrest⟩ := Prog.Runs.of_bind h
  have hs := nodeRun_sysOp hbind
  have hplaces : w₁.places = w.places := hs.places rfl
  have hfailed : (∃ e, r₁ = .error e) ↔
      SysOp.mount (some source) target (some "none") msBind ∈ faults :=
    hs.failed_iff (fun _ h => by cases h) (by
      rw [SysOp.Possible, if_neg (by decide)]
      exact ⟨Option.some_ne_none _, hpresent⟩)
  obtain ⟨hstack, hupdate⟩ := hs.mounts_update rfl
  rcases r₁ with e₁ | ⟨⟩
  · obtain ⟨-, -, rfl⟩ := Prog.Runs.of_pure hrest
    refine ⟨hplaces, fun _ hb => absurd (hfailed.mp ⟨e₁, rfl⟩) hb.2.2, fun _ => ?_⟩
    have hsame : w'.mounts (point target) = w.mounts (point target) := hstack
    rw [hupdate, hsame, Function.update_eq_self]
  have hbinding : Binding faults source target := by
    refine ⟨hsource, htarget, fun hmem => ?_⟩
    obtain ⟨e₁, he⟩ := hfailed.mpr hmem
    cases he
  obtain ⟨m, -, hm⟩ := hstack
  rw [hm] at hupdate
  -- the remount
  obtain ⟨r₂, log₃, log₄, w₂, -, hremount, hrest'⟩ := Prog.Runs.of_bind hrest
  have hs' := nodeRun_sysOp hremount
  rcases r₂ with e₂ | ⟨⟩
  · obtain ⟨hstack', hupdate'⟩ := hs'.mounts_update rfl
    have hsame : w₂.mounts (point target) = w₁.mounts (point target) := hstack'
    rw [hsame, Function.update_eq_self, hupdate] at hupdate'
    obtain ⟨hplaces', hmounts'⟩ := undoBind_run htarget hupdate' hrest'
    refine ⟨hplaces'.trans ((hs'.places rfl).trans hplaces), ?_⟩
    rw [hmounts']
    exact ⟨fun hmem _ => hmem, fun himp => himp hbinding⟩
  · obtain ⟨-, he, -⟩ := Prog.Runs.of_pure hrest'
    cases he

/-! ## The handler -/

variable {cacheDir storePath : String} {reply : Reply}

lemma Untouched.refl (w : NodeState) : Untouched point target w w := ⟨rfl, Iff.rfl⟩

/-- A change that leaves the target alone, in front of one that may not. -/
lemma Untouched.congr {w₁ : NodeState} (hmounts : w₁.mounts = w.mounts)
    (hplace : w₁.places (point target) = w.places (point target)) :
    Untouched point target w₁ w' ↔ Untouched point target w w' := by
  rw [Untouched, Untouched, hmounts, hplace]

/-- The end of a publish, behind the cache. -/
lemma mountStorePath_run (hfail : reply ≠ .ok)
    (h : NodeRun point faults ((realNodeService cacheDir).mountStorePath storePath target) w log
      reply w') :
    Untouched point target w w' ↔
      ((w.places (point target) = .absent → SysOp.createDirAll target ∉ faults) →
        Undoes point faults w (pathFor cacheDir storePath) target) := by
  rw [NodeService.mountStorePath] at h
  obtain ⟨r₁, log₁, log₂, w₁, -, hsetup, hrest⟩ := Prog.Runs.of_bind h
  obtain ⟨hmounts, herr, hplace⟩ := setupTargetDir_run hsetup
  rcases r₁ with e₁ | ⟨⟩
  · -- the directory cannot be made
    obtain ⟨-, -, rfl⟩ := Prog.Runs.of_pure hrest
    obtain ⟨habsent, hmem⟩ := herr.mp ⟨e₁, rfl⟩
    rw [if_neg (by rintro ⟨-, ⟨⟩⟩)] at hplace
    refine ⟨fun _ hmake => absurd hmem (hmake habsent), fun _ => ?_⟩
    exact (Untouched.congr hmounts hplace).mp (Untouched.refl w')
  have hmake : w.places (point target) = .absent → SysOp.createDirAll target ∉ faults := by
    intro habsent hmem
    obtain ⟨e₁, he⟩ := herr.mpr ⟨habsent, hmem⟩
    cases he
  rw [forall_prop_of_true hmake]
  have hpresent : w₁.places (point target) ≠ .absent := by
    rw [hplace]
    split
    · exact Place.noConfusion
    next hne => exact fun habsent => hne ⟨habsent, rfl⟩
  have hfilled : w₁.places (point target) = .filled ↔ w.places (point target) = .filled := by
    rw [hplace]
    split
    next habsent =>
      rw [habsent.1]
      exact ⟨Place.noConfusion, Place.noConfusion⟩
    · exact Iff.rfl
  obtain ⟨r₂, log₃, log₄, w₂, -, hbind, hrest'⟩ := Prog.Runs.of_bind hrest
  rcases r₂ with e₂ | ⟨⟩
  swap
  · exact absurd (Prog.Runs.of_pure hrest').2.1 hfail
  obtain ⟨hplaces, hunmounts⟩ := bindMountReadonly_run hpresent hbind
  obtain ⟨r₃, log₅, log₆, w₃, -, hcleanup, hret⟩ := Prog.Runs.of_bind hrest'
  obtain ⟨-, -, rfl⟩ := Prog.Runs.of_pure hret
  obtain ⟨hmounts', hgone⟩ := cleanupTarget_run hcleanup
  rw [hmounts] at hunmounts
  -- if the mount is undone, the directory can be removed as far as it could be before
  have hremoves : w₂.mounts = w.mounts →
      (Removable point faults w₂ target ↔ Removable point faults w target) := by
    intro hsame
    rw [Removable, Removable, hsame, hplaces, Ne, hfilled]
  constructor
  · rintro ⟨hsame, habsent⟩
    rw [hmounts'] at hsame
    refine ⟨hunmounts.mp hsame, ?_⟩
    rw [← habsent, hgone, hremoves hsame, hplaces]
    exact ⟨fun h => h.resolve_left hpresent, .inr⟩
  · rintro ⟨hunmount, hremove⟩
    have hsame := hunmounts.mpr hunmount
    refine ⟨hmounts'.trans hsame, ?_⟩
    rw [hgone, hremoves hsame, hremove, hplaces]
    exact ⟨fun h => h.resolve_left hpresent, .inr⟩

/-- The mount check changes nothing. -/
lemma isMountpoint_run {mounted : Bool} {path : String}
    (h : NodeRun point faults (RealMountOps.isMountpoint path) w log mounted w') : w' = w := by
  obtain ⟨r, log₁, log₂, w₁, -, hprobe, hrest⟩ := Prog.Runs.of_bind h
  rw [← (nodeRun_sysOp hprobe).eq rfl rfl]
  split at hrest
  · exact (Prog.Runs.of_pure hrest).2.2
  · exact (Prog.Runs.of_pure hrest).2.2

/-- A call that has changed nothing and has not reached the bind mount. -/
lemma untouched_of_eq {req : NodePublishVolumeRequest} (heq : w' = w)
    (hnone : ∀ storePath, ¬ ReachesMount point faults w req storePath) :
    Untouched point req.targetPath w w' ↔
      ∀ storePath, ReachesMount point faults w req storePath →
        Undoes point faults w (pathFor cacheDir storePath) req.targetPath := by
  subst heq
  exact ⟨fun _ storePath hreach => absurd hreach (hnone storePath), fun _ => Untouched.refl _⟩

/-- The paths of a request that gets as far as the bind mount are those of its context. -/
lemma ReachesMount.of_closure {req : NodePublishVolumeRequest} {storePath raw : String}
    (h : ReachesMount point faults w req storePath)
    (hclosure : req.volumeContext.lookup "closurePaths" = some raw) :
    splitClosurePaths raw ≠ [] ∧ SysOp.ensureCached (splitClosurePaths raw) ∉ faults := by
  obtain ⟨raw', hraw, hpaths⟩ := h.closure
  rw [hclosure, Option.some.injEq] at hraw
  rw [hraw]
  exact hpaths

/-- The part of a publish that reads the volume context, behind the checks of the request. -/
lemma publishContext_run {req : NodePublishVolumeRequest} (hfail : reply ≠ .ok)
    (hid : req.volumeId ≠ "") (htarget : req.targetPath ≠ "")
    (h : NodeRun point faults
      ((realNodeService cacheDir).publishContext req.volumeContext req.targetPath) w log reply w') :
    Untouched point req.targetPath w w' ↔
      ∀ storePath, ReachesMount point faults w req storePath →
        Undoes point faults w (pathFor cacheDir storePath) req.targetPath := by
  rw [NodeService.publishContext] at h
  split at h
  next hpath =>
    obtain ⟨-, -, rfl⟩ := Prog.Runs.of_pure h
    refine untouched_of_eq rfl fun storePath hreach => ?_
    have hsome := hreach.storePath
    rw [hpath] at hsome
    cases hsome
  next storePath hpath =>
  split at h
  next hclosure =>
    obtain ⟨-, -, rfl⟩ := Prog.Runs.of_pure h
    refine untouched_of_eq rfl fun storePath hreach => ?_
    obtain ⟨raw, hraw, -⟩ := hreach.closure
    rw [hclosure] at hraw
    cases hraw
  next raw hclosure =>
  split at h
  next hnil =>
    obtain ⟨-, -, rfl⟩ := Prog.Runs.of_pure h
    exact untouched_of_eq rfl fun storePath hreach => (hreach.of_closure hclosure).1 hnil
  next hne =>
  -- the cache
  obtain ⟨r, log₃, log₄, w₂, -, hcached, hmount⟩ := Prog.Runs.of_bind h
  have hs := nodeRun_sysOp hcached
  obtain rfl := hs.eq rfl rfl
  have hfailed : (∃ e, r = .error e) ↔ SysOp.ensureCached (splitClosurePaths raw) ∈ faults :=
    hs.failed_iff (fun _ h => by cases h) trivial
  have hmissed : ∀ e, r = .error e → ∀ storePath, ¬ ReachesMount point faults w₂ req storePath := by
    rintro e rfl storePath hreach
    exact (hreach.of_closure hclosure).2 (hfailed.mp ⟨e, rfl⟩)
  rcases r with (_ | e) | ⟨⟩
  · obtain ⟨-, -, rfl⟩ := Prog.Runs.of_pure hmount
    exact untouched_of_eq rfl (hmissed _ rfl)
  · obtain ⟨-, -, rfl⟩ := Prog.Runs.of_pure hmount
    exact untouched_of_eq rfl (hmissed _ rfl)
  rw [mountStorePath_run hfail hmount]
  have hcache : SysOp.ensureCached (splitClosurePaths raw) ∉ faults := by
    intro hmem
    obtain ⟨e, he⟩ := hfailed.mpr hmem
    cases he
  constructor
  · intro hundoes storePath' hreach
    have hsame := hreach.storePath
    rw [hpath, Option.some.injEq] at hsame
    rw [← hsame]
    exact hundoes hreach.setup
  · intro hundoes hsetup
    exact hundoes storePath ⟨hid, htarget, hpath, ⟨raw, hclosure, hne, hcache⟩, hsetup⟩

/-- A publish that fails leaves the mount table and the target directory as they were, or it is one
that has reached the bind mount, and then it does so if it undoes what it did. -/
lemma nodePublishVolume_run {req : NodePublishVolumeRequest} (hfail : reply ≠ .ok)
    (h : NodeRun point faults ((realNodeService cacheDir).nodePublishVolume req) w log reply w') :
    Untouched point req.targetPath w w' ↔
      ∀ storePath, ReachesMount point faults w req storePath →
        Undoes point faults w (pathFor cacheDir storePath) req.targetPath := by
  rw [NodeService.nodePublishVolume] at h
  split at h
  next hid =>
    obtain ⟨-, -, rfl⟩ := Prog.Runs.of_pure h
    exact untouched_of_eq rfl fun _ hreach => hreach.volumeId hid
  next hid =>
  split at h
  next htarget =>
    obtain ⟨-, -, rfl⟩ := Prog.Runs.of_pure h
    exact untouched_of_eq rfl fun _ hreach => hreach.targetPath htarget
  next htarget =>
  obtain ⟨mounted, log₁, log₂, w₁, -, hmounted, hrest⟩ := Prog.Runs.of_bind h
  obtain rfl := isMountpoint_run hmounted
  split at hrest
  · exact absurd (Prog.Runs.of_pure hrest).2.1 hfail
  · exact publishContext_run hfail hid htarget hrest

/-! ## Every publish has a run

The equivalence is about runs, and would hold of none if there were none.
-/

/-- A failing call leaves the node as it is. -/
lemma SysOp.FaultSem.of_failed {o : SysOp} {r : sysInterface.Answer o} (hr : o.Failed r)
    (ho : o.Fails point faults w) : o.FaultSem point faults w r w := by
  refine ⟨⟨fun t ht => ?_, fun _ _ => rfl⟩, fun path hpath => ?_, fun _ => rfl, ?_⟩
  · cases o with
    | mount =>
        obtain ⟨e, rfl⟩ := hr
        rfl
    | umount2 =>
        obtain ⟨e, rfl⟩ := hr
        rfl
    | _ => cases ht
  · cases o with
    | «exists» => cases hr
    | createDirAll =>
        obtain ⟨e, rfl⟩ := hr
        rfl
    | removeDir =>
        obtain ⟨e, rfl⟩ := hr
        rfl
    | _ => cases hpath
  · exact ⟨fun _ => ho, fun _ => hr⟩

/-- A call that does not fail, from what it makes of its target and of its path. -/
lemma SysOp.FaultSem.of_done {o : SysOp} {r : sysInterface.Answer o} (hr : ¬ o.Failed r)
    (ho : ¬ o.Fails point faults w) (hmounts : o.Sem point w.mounts r w'.mounts)
    (hplace : ∀ path, o.path = some path →
      o.PlaceSem (w.places (point path)) r (w'.places (point path)))
    (hplaces : o.path = none → w'.places = w.places) : o.FaultSem point faults w r w' :=
  ⟨hmounts, hplace, hplaces, ⟨fun h => absurd h hr, fun h => absurd h ho⟩⟩

/-- The node with other mounts at `s`. -/
def NodeState.setMounts (w : NodeState) (s : String) (st : List Mount)
    (h : w.places s ≠ .absent) : NodeState where
  mounts := Function.update w.mounts s st
  places := w.places
  present t ht := by
    by_cases hts : t = s
    · rwa [hts]
    · rw [Function.update_of_ne hts] at ht
      exact w.present t ht

/-- The node with something else at `s`. -/
def NodeState.setPlace (w : NodeState) (s : String) (d : Place)
    (h : d = .absent → w.mounts s = []) : NodeState where
  mounts := w.mounts
  places := Function.update w.places s d
  present t ht := by
    by_cases hts : t = s
    · subst hts
      rw [Function.update_self]
      exact fun hd => ht (h hd)
    · rw [Function.update_of_ne hts]
      exact w.present t ht

/-- Every call but `exists` has an answer that says it failed. -/
lemma exists_failed {o : SysOp} (ho : ∀ path, o ≠ .exists path) :
    ∃ r : sysInterface.Answer o, o.Failed r := by
  cases o with
  | «exists» path => exact absurd rfl (ho path)
  | probe => exact ⟨none, rfl⟩
  | ensureCached => exact ⟨.error none, none, rfl⟩
  | createDirAll | removeDir | mount | umount2 => exact ⟨.error "", "", rfl⟩

/-- A mount that does not fail sets the flags of the top mount, or puts one on top. -/
lemma exists_faultSem_mount {source : Option String} {target : String} {fstype : Option String}
    {flags : ℕ} (ho : ¬ SysOp.Fails point faults w (.mount source target fstype flags))
    (hcan : SysOp.Possible point w (.mount source target fstype flags)) :
    ∃ r w', SysOp.FaultSem point faults (.mount source target fstype flags) w r w' := by
  rw [SysOp.Possible] at hcan
  split at hcan
  next hremount =>
    obtain ⟨m, rest, hst⟩ := List.exists_cons_of_ne_nil hcan
    refine ⟨.ok (), w.setMounts (point target) (m.remount flags :: rest) (w.present _ hcan),
      .of_done nofun ho (.of_stack rfl ?_) nofun fun _ => rfl⟩
    rw [SysOp.StackSem, if_pos hremount]
    exact ⟨m, rest, hst, rfl⟩
  next hremount =>
    obtain ⟨hsource, hpresent⟩ := hcan
    obtain ⟨text, rfl⟩ := Option.ne_none_iff_exists'.mp hsource
    refine ⟨.ok (), w.setMounts (point target)
      (⟨text, false, false, false⟩ :: w.mounts (point target)) hpresent,
      .of_done nofun ho (.of_stack rfl ?_) nofun fun _ => rfl⟩
    rw [SysOp.StackSem, if_neg hremount]
    exact ⟨_, rfl, rfl⟩

/-- A `create_dir_all` that does not fail makes the directory, if it is not there. -/
lemma exists_faultSem_createDirAll {path : String}
    (ho : ¬ SysOp.Fails point faults w (.createDirAll path)) :
    ∃ r w', SysOp.FaultSem point faults (.createDirAll path) w r w' := by
  by_cases habsent : w.places (point path) = .absent
  · refine ⟨.ok (), w.setPlace (point path) .empty nofun,
      .of_done nofun ho (.of_neutral rfl _ _) (fun path' hpath => ?_) nofun⟩
    cases hpath
    change Function.update w.places (point path) .empty (point path) = _
    rw [Function.update_self, if_pos habsent]
  · refine ⟨.ok (), w, .of_done nofun ho (.of_neutral rfl _ _) (fun path' hpath => ?_) nofun⟩
    cases hpath
    exact (if_neg habsent).symm

/-- A call that does not fail has an answer. -/
lemma exists_faultSem_of_not_fails {o : SysOp} (ho : ¬ o.Fails point faults w) :
    ∃ r w', o.FaultSem point faults w r w' := by
  have hpossible : (∀ path, o ≠ .exists path) → o.Possible point w := by
    intro hne
    by_contra hnot
    exact ho ⟨hne, .inr hnot⟩
  cases o with
  | «exists» path =>
      refine ⟨decide (w.places (point path) ≠ .absent), w,
        .of_done not_false ho (.of_neutral rfl _ _) (fun path' hpath => ?_) nofun⟩
      cases hpath
      exact ⟨rfl, rfl⟩
  | probe path =>
      exact ⟨some ("", ""), w, .of_done nofun ho (.of_neutral rfl _ _) nofun fun _ => rfl⟩
  | ensureCached closurePaths =>
      exact ⟨.ok (), w, .of_done nofun ho (.of_neutral rfl _ _) nofun fun _ => rfl⟩
  | createDirAll path => exact exists_faultSem_createDirAll ho
  | removeDir path =>
      have hfree := (hpossible nofun).2
      refine ⟨.ok (), w.setPlace (point path) .absent fun _ => hfree,
        .of_done nofun ho (.of_neutral rfl _ _) (fun path' hpath => ?_) nofun⟩
      cases hpath
      exact Function.update_self _ _ _
  | mount source target fstype flags => exact exists_faultSem_mount ho (hpossible nofun)
  | umount2 target flags =>
      have hcan := hpossible nofun
      obtain ⟨m, rest, hst⟩ := List.exists_cons_of_ne_nil hcan
      exact ⟨.ok (), w.setMounts (point target) rest (w.present _ hcan),
        .of_done nofun ho (.of_stack rfl ⟨m, hst⟩) nofun fun _ => rfl⟩

/-- Every call has an answer. -/
lemma exists_faultSem (point : String → String) (faults : Set SysOp) (o : SysOp) (w : NodeState) :
    ∃ r w', o.FaultSem point faults w r w' := by
  by_cases ho : o.Fails point faults w
  · obtain ⟨r, hr⟩ := exists_failed ho.1
    exact ⟨r, w, .of_failed hr ho⟩
  · exact exists_faultSem_of_not_fails ho

/-- A mount one of whose calls is to fail fails. -/
lemma bindMountReadonly_ne_ok {source : String} {r : Except String Unit}
    (hfault : SysOp.mount (some source) target (some "none") msBind ∈ faults ∨
      SysOp.mount none target none remountFlags ∈ faults)
    (h : NodeRun point faults (RealMountOps.bindMountReadonly source target) w log r w') :
    r ≠ .ok () := by
  rintro rfl
  rw [RealMountOps.bindMountReadonly] at h
  split at h
  · cases (Prog.Runs.of_pure h).2.1
  · cases (Prog.Runs.of_pure h).2.1
  have hnone : ∀ {o : SysOp} {w w' : NodeState} {log : List (Σ o : SysOp, sysInterface.Answer o)}
      {r : sysInterface.Answer o}, (∀ path, o ≠ .exists path) →
      NodeRun point faults (sysOp o) w log r w' → ¬ o.Failed r → o ∉ faults := by
    intro o w w' log r ho hrun hr hmem
    exact hr ((nodeRun_sysOp hrun).failed.mpr ⟨ho, .inl hmem⟩)
  obtain ⟨r₁, log₁, log₂, w₁, -, hbind, hrest⟩ := Prog.Runs.of_bind h
  rcases r₁ with e₁ | ⟨⟩
  · cases (Prog.Runs.of_pure hrest).2.1
  obtain ⟨r₂, log₃, log₄, w₂, -, hremount, hrest'⟩ := Prog.Runs.of_bind hrest
  rcases r₂ with e₂ | ⟨⟩
  · obtain ⟨r₃, log₅, log₆, w₃, -, -, hret⟩ := Prog.Runs.of_bind hrest'
    rcases r₃ with e₃ | ⟨⟩
    · cases (Prog.Runs.of_pure hret).2.1
    · cases (Prog.Runs.of_pure hret).2.1
  · rcases hfault with hmem | hmem
    · exact hnone (fun _ h => by cases h) hbind (by rintro ⟨e, ⟨⟩⟩) hmem
    · exact hnone (fun _ h => by cases h) hremount (by rintro ⟨e, ⟨⟩⟩) hmem

/-- A publish that reaches the mount, one of whose calls is to fail, has a run, and fails in it. -/
lemma exists_failed_publish (cacheDir : String) {req : NodePublishVolumeRequest}
    (hreach : ReachesMount point faults w req storePath)
    (hfault : SysOp.mount (some (pathFor cacheDir storePath)) req.targetPath (some "none") msBind
        ∈ faults ∨ SysOp.mount none req.targetPath none remountFlags ∈ faults) :
    ∃ log reply w', NodeRun point faults ((realNodeService cacheDir).nodePublishVolume req) w log
      reply w' ∧ reply ≠ .ok := by
  obtain ⟨hid, htarget, hpath, ⟨raw, hclosure, hne, hcache⟩, -⟩ := hreach
  -- the mount check finds nothing, the cache has the paths
  have hcheck : ∃ log, NodeRun point faults (RealMountOps.isMountpoint req.targetPath) w log false
      w := by
    by_cases ho : SysOp.Fails point faults w (.probe req.targetPath)
    · exact ⟨_, .call (.of_failed rfl ho) (.pure _ _)⟩
    · refine ⟨[⟨.probe req.targetPath, some ("", "")⟩],
        .call (.of_done nofun ho (.of_neutral rfl _ _) nofun fun _ => rfl) ?_⟩
      have hnone : RealMountOps.isMountpointIn "" "" = false := by decide
      change Prog.Runs _ (.pure (RealMountOps.isMountpointIn "" "")) w _ false w
      rw [hnone]
      exact .pure _ _
  have hcached : NodeRun point faults (sysOp (.ensureCached (splitClosurePaths raw))) w
      [⟨.ensureCached (splitClosurePaths raw), .ok ()⟩] (.ok ()) w := by
    refine .call (.of_done nofun ?_ (.of_neutral rfl _ _) nofun fun _ => rfl) (.pure _ _)
    rintro ⟨-, hmem | hnot⟩
    · exact hcache hmem
    · exact hnot trivial
  obtain ⟨log₁, hcheck⟩ := hcheck
  obtain ⟨log₂, reply, w', hmount⟩ := Prog.exists_runs (exists_faultSem point faults)
    ((realNodeService cacheDir).mountStorePath storePath req.targetPath) w
  refine ⟨log₁ ++ ([⟨.ensureCached (splitClosurePaths raw), .ok ()⟩] ++ log₂), reply, w', ?_, ?_⟩
  · rw [NodeService.nodePublishVolume, if_neg hid, if_neg htarget]
    refine hcheck.bind ?_
    rw [if_neg Bool.false_ne_true, NodeService.publishContext, hpath]
    simp only [hclosure, if_neg hne]
    exact hcached.bind hmount
  · rintro rfl
    rw [NodeService.mountStorePath] at hmount
    obtain ⟨r₁, log₃, log₄, w₁, -, -, hrest⟩ := Prog.Runs.of_bind hmount
    rcases r₁ with e₁ | ⟨⟩
    · cases (Prog.Runs.of_pure hrest).2.1
    obtain ⟨r₂, log₅, log₆, w₂, -, hbind, hrest'⟩ := Prog.Runs.of_bind hrest
    rcases r₂ with e₂ | ⟨⟩
    · obtain ⟨r₃, log₇, log₈, w₃, -, -, hret⟩ := Prog.Runs.of_bind hrest'
      cases (Prog.Runs.of_pure hret).2.1
    · exact bindMountReadonly_ne_ok hfault hbind rfl

/-! ## The result -/

/-- **When a failed publish leaves no trace.**  Whichever calls fail, and whatever is mounted and at
the target before: a publish that does not return OK leaves the mount table as it was, and the
target directory there if it was, if and only if it does not reach the bind mount or undoes what it
did. -/
theorem failed_publish_traceless {req : NodePublishVolumeRequest}
    (h : NodeRun point faults ((realNodeService cacheDir).nodePublishVolume req) w log reply w')
    (hfail : reply ≠ .ok) :
    Untouched point req.targetPath w w' ↔
      ∀ storePath, ReachesMount point faults w req storePath →
        Undoes point faults w (pathFor cacheDir storePath) req.targetPath :=
  nodePublishVolume_run hfail h

/-- A node with nothing mounted, and `d` everywhere. -/
def quietNode (d : Place) : NodeState := ⟨fun _ => [], fun _ => d, fun _ h => absurd rfl h⟩

/-- The bind mount of `sampleRequest`. -/
def sampleBind : SysOp := .mount (some (pathFor "/c" "/nix/store/a")) "/t" (some "none") msBind

/-- Its remount. -/
def sampleRemount : SysOp := .mount none "/t" none remountFlags

lemma reachesMount_sample (faults : Set SysOp) (d : Place)
    (hcache : SysOp.ensureCached ["a"] ∉ faults)
    (hmake : SysOp.createDirAll "/t" ∉ faults) :
    ReachesMount id faults (quietNode d) sampleRequest "/nix/store/a" where
  volumeId := by decide
  targetPath := by decide
  storePath := rfl
  closure := ⟨"a", rfl, by decide, hcache⟩
  setup _ := hmake

/-- The bind mount fails, and the directory made for it goes again. -/
theorem failed_publish_traceless_bind : ∃ log reply w',
    NodeRun id {sampleBind} ((realNodeService "/c").nodePublishVolume sampleRequest)
        (quietNode .absent) log reply w' ∧
      reply ≠ .ok ∧ Untouched id "/t" (quietNode .absent) w' := by
  obtain ⟨log, reply, w', hrun, hfail⟩ := exists_failed_publish "/c"
    (reachesMount_sample {sampleBind} .absent nofun nofun) (.inl rfl)
  refine ⟨log, reply, w', hrun, hfail, (failed_publish_traceless hrun hfail).mpr ?_⟩
  intro storePath hreach
  cases hreach.storePath
  refine ⟨fun hbinding => absurd rfl hbinding.2.2, fun _ => ?_, fun _ => rfl⟩
  exact ⟨nofun, nofun, rfl⟩

/-- **Two traces of a failed publish.**  A target directory that was there is removed when the bind
mount fails, and a bind mount stays when neither the remount nor the unmount succeeds. -/
theorem failed_publish_traces :
    (∃ log reply w', NodeRun id {sampleBind}
        ((realNodeService "/c").nodePublishVolume sampleRequest) (quietNode .empty) log reply w' ∧
      reply ≠ .ok ∧ ¬ Untouched id "/t" (quietNode .empty) w') ∧
    ∃ log reply w', NodeRun id {sampleRemount, .umount2 "/t" mntDetach}
        ((realNodeService "/c").nodePublishVolume sampleRequest) (quietNode .absent) log reply w' ∧
      reply ≠ .ok ∧ ¬ Untouched id "/t" (quietNode .absent) w' := by
  constructor
  · have hreach := reachesMount_sample {sampleBind} .empty nofun nofun
    obtain ⟨log, reply, w', hrun, hfail⟩ := exists_failed_publish "/c" hreach
      (.inl rfl)
    refine ⟨log, reply, w', hrun, hfail, fun hsame => ?_⟩
    have hundoes := (nodePublishVolume_run hfail hrun).mp hsame _ hreach
    cases hundoes.removes.mpr ⟨nofun, nofun, rfl⟩
  · have hreach := reachesMount_sample {sampleRemount, .umount2 "/t" mntDetach} .absent
      (by rintro (⟨⟨⟩⟩ | ⟨⟨⟩⟩)) (by rintro (⟨⟨⟩⟩ | ⟨⟨⟩⟩))
    obtain ⟨log, reply, w', hrun, hfail⟩ := exists_failed_publish "/c" hreach
      (.inr (.inl rfl))
    refine ⟨log, reply, w', hrun, hfail, fun hsame => ?_⟩
    have hundoes := (nodePublishVolume_run hfail hrun).mp hsame _ hreach
    refine hundoes.unmounts ⟨nulError_sample.1, nulError_sample.2, ?_⟩ (.inr rfl)
    rintro (h | h)
    · cases h
    · cases h

end Niphas
