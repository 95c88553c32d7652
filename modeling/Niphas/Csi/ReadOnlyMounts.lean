import Niphas.Csi.TargetMounts

/-!
# The flags of published mounts

A read-only bind mount takes two system calls, and the shortcut of `node_publish_volume` asks only
whether anything is mounted.  Here the calls run over `RealMountOps`, any system call may fail, and
the driver may crash between any two of them; the mounts survive a crash.

A mount table has a stack of mounts for each mount point.  A bind mount puts one on top, with the
flags of what it was made of, whatever these are, and the remount gives the top one the flags that
are asked for.  Paths are texts, and which of them name the same mount point is a parameter
(`point`), so nothing is assumed about links.

What can go wrong is named in `Orderly`, step by step: two calls on one mount point, a crash between
the bind mount and its remount, a mount check that is answered with yes for what is no mount of the
requested path, and an unmount that fails behind a failed remount.  In a run without such steps
every call keeps what is at its own mount point in order (`Keeps`), and the invariant is that all of
them do.

* `publish_mounted` — in a run whose steps are all `Orderly`, every publish that returns OK returns
  with the target mounted from the requested store path, read-only, `nosuid` and `nodev`.
* `publish_leftover` — a remount and the unmount after it fail, and the next publish finds the
  target mounted and returns OK.
-/

namespace Niphas

open System

/-! ## The mount table -/

/-- A mount: what it was made of, and its flags. -/
structure Mount where
  source : String
  readonly : Bool
  nosuid : Bool
  nodev : Bool
  deriving DecidableEq

/-- The flags a volume is to be mounted with. -/
def Mount.Guarded (m : Mount) : Prop := m.readonly = true ∧ m.nosuid = true ∧ m.nodev = true

/-- A mount after a remount with `flags`. -/
def Mount.remount (m : Mount) (flags : ℕ) : Mount :=
  { source := m.source
    readonly := flags &&& msRdonly ≠ 0
    nosuid := flags &&& msNosuid ≠ 0
    nodev := flags &&& msNodev ≠ 0 }

lemma Mount.guarded_remount (m : Mount) : (m.remount remountFlags).Guarded := ⟨rfl, rfl, rfl⟩

/-- The mounts on each mount point, the latest first. -/
abbrev MountTable := String → List Mount

/-- The target of a call that changes the mount table. -/
def SysOp.target : SysOp → Option String
  | mount _ target _ _ => some target
  | umount2 target _ => some target
  | _ => none

/-- What a system call makes of the mounts on its target.  A bind mount has the flags of the mount
its source is on, whatever they are. -/
def SysOp.StackSem : (o : SysOp) → List Mount → sysInterface.Answer o → List Mount → Prop
  | .mount source _ _ flags, st, r, st' =>
      match r with
      | .error _ => st' = st
      | .ok () =>
          if flags &&& msRemount ≠ 0 then ∃ m rest, st = m :: rest ∧ st' = m.remount flags :: rest
          else ∃ m : Mount, source = some m.source ∧ st' = m :: st
  | .umount2 _ _, st, r, st' =>
      match r with
      | .error _ => st' = st
      | .ok () => ∃ m, st = m :: st'
  | _, st, _, st' => st' = st

/-- What a system call makes of the mount table, where `point` says which mount point a path
names. -/
def SysOp.Sem (point : String → String) (o : SysOp) (w : MountTable) (r : sysInterface.Answer o)
    (w' : MountTable) : Prop :=
  (∀ t, o.target = some t → o.StackSem (w (point t)) r (w' (point t))) ∧
    ∀ s, (∀ t, o.target = some t → s ≠ point t) → w' s = w s

/-- The driver on a node.  A crash ends the calls and leaves the mounts. -/
def driverSystem (cacheDir : String) (point : String → String) : System where
  iface := sysInterface
  World := MountTable
  Call := NodeCall
  Out := Reply
  program := (realNodeService cacheDir).handle
  sem _ := SysOp.Sem point
  begins w _ _ _ w' := w' = w
  env _ _ := False
  crash w w' := w' = w

/-! ## Orderly steps

What an unmount undoes and what the shortcut finds is decided by the answers, so two of the
conditions are about answers, and the others about which calls are under way.
-/

/-- The target of a call. -/
def NodeCall.target : NodeCall → String
  | publish req => req.targetPath
  | unpublish req => req.targetPath

/-- A call at this operation has made a bind mount and has neither remounted nor undone it. -/
def Halfway (call : NodeCall) : SysOp → Prop
  | .mount _ _ _ flags => flags = remountFlags
  | .umount2 _ _ => ∃ req, call = .publish req
  | _ => False

/-- The latest mount is of the store path the request names. -/
def TopSource (cacheDir : String) (req : NodePublishVolumeRequest) (st : List Mount) : Prop :=
  ∀ storePath, req.volumeContext.lookup "storePath" = some storePath →
    ∃ m rest, st = m :: rest ∧ m.source = pathFor cacheDir storePath

/-- An answer that leads the call astray: the shortcut taken over a mount of another store path,
and an unmount that fails after a failed remount. -/
def Misleading (cacheDir : String) (call : NodeCall) (st : List Mount) :
    (o : SysOp) → sysInterface.Answer o → Prop
  | .probe _, some (content, canonical) =>
      RealMountOps.isMountpointIn content canonical = true ∧
        ∃ req, call = .publish req ∧ ¬ TopSource cacheDir req st
  | .umount2 _ _, .error _ => ∃ req, call = .publish req
  | _, _ => False

/-- A step that gives the driver no occasion to go wrong: no two calls on one mount point are under
way at once, no answer misleads a call, and the driver does not crash between a bind mount and its
remount. -/
structure Orderly (cacheDir : String) (point : String → String)
    (c : (driverSystem cacheDir point).Config) (ev : (driverSystem cacheDir point).Event) :
    Prop where
  alone : ∀ p call, ev = .start p call → ∀ q (proc : (driverSystem cacheDir point).Process),
    c.procs q = some proc → point (NodeCall.target proc.call) ≠ point (NodeCall.target call)
  honest : ∀ p o r, ev = .op p o r → ∀ proc : (driverSystem cacheDir point).Process,
    c.procs p = some proc →
      ¬ Misleading cacheDir proc.call (c.world (point (NodeCall.target proc.call))) o r
  crash : ev = .crash → ∀ p call o k, c.procs p = some { call, rest := .call o k } →
    ¬ Halfway call o

/-! ## One call on its own target -/

/-- Every mount has the flags. -/
def AllGuarded (st : List Mount) : Prop := ∀ m ∈ st, m.Guarded

/-- What is left of a call keeps the mounts of its target guarded, but for a bind mount it has not
remounted yet, and leaves what it is to leave, as long as nobody else changes them. -/
def Keeps (cacheDir : String) (call : NodeCall) : Prog sysInterface Reply → List Mount → Prop
  | .pure out, st =>
      AllGuarded st ∧ ∀ req, call = .publish req → out = .ok → TopSource cacheDir req st
  | .call o k, st =>
      (∀ t, o.target = some t → t = call.target) ∧ (¬ Halfway call o → AllGuarded st) ∧
        ∀ r st', o.StackSem st r st' → ¬ Misleading cacheDir call st o r →
          Keeps cacheDir call (k r) st'

variable {cacheDir : String} {call : NodeCall} {st : List Mount}

/-- A call that has no target changes nothing. -/
lemma SysOp.StackSem.eq {o : SysOp} {r : sysInterface.Answer o} {st' : List Mount}
    (hs : o.StackSem st r st') (ho : o.target = none) : st' = st := by
  cases o with
  | mount => cases ho
  | umount2 => cases ho
  | _ => exact hs

/-- The program leaves the mount table alone. -/
def Neutral {α : Type} (prog : Prog sysInterface α) : Prop :=
  prog.All fun o => SysOp.target o = none

lemma neutral_op {o : SysOp} (ho : o.target = none) : Neutral (sysOp o) := ⟨ho, fun _ => trivial⟩

/-- In front of it, a call may do anything that does not concern the mounts. -/
lemma Keeps.bind {α : Type} {prog : Prog sysInterface α} {f : α → Prog sysInterface Reply}
    (hprog : Neutral prog) (hst : AllGuarded st)
    (hf : ∀ a, Keeps cacheDir call (f a) st) : Keeps cacheDir call (prog >>= f) st := by
  induction prog with
  | pure a => exact hf a
  | call o k ih =>
      refine ⟨fun t ht => ?_, fun _ => hst, fun r st' hs _ => ?_⟩
      · rw [hprog.1] at ht
        cases ht
      · rw [hs.eq hprog.1]
        exact ih r (hprog.2 r)

lemma neutral_setupTargetDir (path : String) : Neutral (RealMountOps.setupTargetDir path) := by
  refine Prog.All.bind (neutral_op rfl) fun present => ?_
  split
  · trivial
  · exact neutral_op rfl

lemma neutral_cleanupTarget (path : String) : Neutral (RealMountOps.cleanupTarget path) := by
  refine Prog.All.bind (neutral_op rfl) fun present => ?_
  split
  · exact neutral_op rfl
  · trivial

/-- The mount check of a call: it is not misled, and nothing changes. -/
lemma keeps_isMountpoint {f : Bool → Prog sysInterface Reply} (hst : AllGuarded st)
    (hf : ∀ b, (b = true → ∀ req, call = .publish req → TopSource cacheDir req st) →
      Keeps cacheDir call (f b) st) (path : String) :
    Keeps cacheDir call (RealMountOps.isMountpoint path >>= f) st := by
  refine ⟨nofun, fun _ => hst, fun r st' hs hm => ?_⟩
  cases hs
  match r, hm with
  | none, _ => exact hf false nofun
  | some (content, canonical), hm =>
      refine hf _ fun hb req hcall => ?_
      by_contra hsource
      exact hm ⟨hb, req, hcall, hsource⟩

/-- The bind mount of a publish: either a guarded mount of the source is on top afterwards, or the
mounts are those before. -/
lemma keeps_bindMountReadonly {req : NodePublishVolumeRequest}
    {f : Except String Unit → Prog sysInterface Reply} (hst : AllGuarded st) (source : String)
    (hok : ∀ m : Mount, m.Guarded → m.source = source →
      Keeps cacheDir (.publish req) (f (.ok ())) (m :: st))
    (herr : ∀ e, Keeps cacheDir (.publish req) (f (.error e)) st) :
    Keeps cacheDir (.publish req) (RealMountOps.bindMountReadonly source req.targetPath >>= f)
      st := by
  have htarget : ∀ t, some req.targetPath = some t → t = (NodeCall.publish req).target := by
    rintro t ⟨⟩
    rfl
  rw [RealMountOps.bindMountReadonly]
  split
  · exact herr _
  · exact herr _
  next hnul =>
  -- the bind mount
  refine ⟨htarget, fun _ => hst, fun r st' hs _ => ?_⟩
  rcases r with e | ⟨⟩
  · cases hs
    exact herr e
  obtain ⟨m, hm, rfl⟩ := hs
  -- the remount
  refine ⟨htarget, fun h => absurd rfl h, fun r st' hs _ => ?_⟩
  rcases r with e | ⟨⟩
  · -- it failed, and the bind mount is undone
    cases hs
    change Keeps cacheDir _ (RealMountOps.undoBind req.targetPath e >>= f) _
    rw [RealMountOps.undoBind, RealMountOps.unmount, hnul]
    refine ⟨htarget, fun h => absurd ⟨req, rfl⟩ h, fun r st' hs hm => ?_⟩
    rcases r with e' | ⟨⟩
    · exact absurd ⟨req, rfl⟩ hm
    · obtain ⟨m', hm'⟩ := hs
      cases hm'
      exact herr e
  · obtain ⟨m', rest, hm', rfl⟩ := hs
    cases hm'
    exact hok _ m.guarded_remount (Option.some.inj hm).symm

/-- **One publish**, with nobody else at its target. -/
lemma keeps_publish (req : NodePublishVolumeRequest) (hst : AllGuarded st) :
    Keeps cacheDir (.publish req) ((realNodeService cacheDir).nodePublishVolume req) st := by
  have hfail : ∀ {code message}, Keeps cacheDir (.publish req) (.pure (.status code message)) st :=
    ⟨hst, fun _ _ h => by cases h⟩
  rw [NodeService.nodePublishVolume]
  split
  · exact hfail
  split
  · exact hfail
  refine keeps_isMountpoint hst (fun mounted hmounted => ?_) _
  cases mounted with
  | true =>
      refine ⟨hst, ?_⟩
      rintro _ ⟨⟩ -
      exact hmounted rfl req rfl
  | false =>
      change Keeps cacheDir _ ((realNodeService cacheDir).publishContext _ _) st
      rw [NodeService.publishContext]
      split
      · exact hfail
      next storePath hpath =>
      split
      · exact hfail
      split
      · exact hfail
      refine Keeps.bind (neutral_op rfl) hst fun cached => ?_
      rcases cached with (_ | e) | ⟨⟩
      · exact ⟨hst, fun _ _ h => by cases h⟩
      · exact hfail
      refine Keeps.bind (neutral_setupTargetDir _) hst fun ready => ?_
      rcases ready with e | ⟨⟩
      · exact hfail
      change Keeps cacheDir _ (RealMountOps.bindMountReadonly _ _ >>= _) st
      refine keeps_bindMountReadonly hst _ (fun m hm hsource => ?_) fun e => ?_
      · refine ⟨List.forall_mem_cons.mpr ⟨hm, hst⟩, ?_⟩
        rintro _ ⟨⟩ - storePath' hpath'
        rw [hpath, Option.some.injEq] at hpath'
        subst hpath'
        exact ⟨m, st, rfl, hsource⟩
      · exact Keeps.bind (neutral_cleanupTarget _) hst fun _ => hfail

/-- **One unpublish**, with nobody else at its target. -/
lemma keeps_unpublish (req : NodeUnpublishVolumeRequest) (hst : AllGuarded st) :
    Keeps cacheDir (.unpublish req) ((realNodeService cacheDir).nodeUnpublishVolume req) st := by
  have hend : ∀ {out st}, AllGuarded st → Keeps cacheDir (.unpublish req) (.pure out) st :=
    fun h => ⟨h, nofun⟩
  rw [NodeService.nodeUnpublishVolume]
  split
  · exact hend hst
  split
  · exact hend hst
  refine keeps_isMountpoint hst (fun mounted _ => ?_) _
  cases mounted with
  | false => exact Keeps.bind (neutral_cleanupTarget _) hst fun _ => hend hst
  | true =>
      change Keeps cacheDir _ (RealMountOps.unmount req.targetPath >>= _) st
      rw [RealMountOps.unmount]
      split
      · exact hend hst
      have htarget : ∀ t, some req.targetPath = some t → t = (NodeCall.unpublish req).target := by
        rintro t ⟨⟩
        rfl
      refine ⟨htarget, fun _ => hst, fun r st' hs _ => ?_⟩
      rcases r with e | ⟨⟩
      · cases hs
        exact hend hst
      · obtain ⟨m, rfl⟩ := hs
        have hst' : AllGuarded st' := (List.forall_mem_cons.mp hst).2
        change Keeps cacheDir _ (RealMountOps.cleanupTarget req.targetPath >>= _) st'
        exact Keeps.bind (neutral_cleanupTarget _) hst' fun _ => hend hst'

lemma keeps_handle (call : NodeCall) (hst : AllGuarded st) :
    Keeps cacheDir call ((realNodeService cacheDir).handle call) st := by
  cases call with
  | publish req => exact keeps_publish req hst
  | unpublish req => exact keeps_unpublish req hst

/-! ## Runs -/

variable {point : String → String}

/-- What holds in every state: the calls under way are at different mount points, each keeps what
is at its own, and everything else is guarded. -/
structure MountInv (c : (driverSystem cacheDir point).Config) : Prop where
  alone : ∀ p q (proc proc' : (driverSystem cacheDir point).Process), c.procs p = some proc →
    c.procs q = some proc' →
      point (NodeCall.target proc.call) = point (NodeCall.target proc'.call) → p = q
  keeps : ∀ p (proc : (driverSystem cacheDir point).Process), c.procs p = some proc →
    Keeps cacheDir proc.call proc.rest (c.world (point (NodeCall.target proc.call)))
  guarded : ∀ s, (∀ p (proc : (driverSystem cacheDir point).Process), c.procs p = some proc →
    s ≠ point (NodeCall.target proc.call)) → AllGuarded (c.world s)

lemma SysOp.stackSem_self {o : SysOp} (ho : o.target = none) (r : sysInterface.Answer o)
    (st : List Mount) : o.StackSem st r st := by
  cases o with
  | mount => cases ho
  | umount2 => cases ho
  | _ => rfl

/-- An operation on the own target: what it does there, and that it does nothing elsewhere. -/
lemma SysOp.Sem.own {o : SysOp} {w w' : MountTable} {r : sysInterface.Answer o} {target : String}
    (hs : o.Sem point w r w') (ho : ∀ t, o.target = some t → t = target) :
    o.StackSem (w (point target)) r (w' (point target)) ∧
      ∀ s, s ≠ point target → w' s = w s := by
  constructor
  · cases htarget : o.target with
    | none =>
        rw [hs.2 _ fun t ht => by rw [htarget] at ht; cases ht]
        exact SysOp.stackSem_self htarget r _
    | some t =>
        have h := hs.1 t htarget
        rwa [ho t htarget] at h
  · intro s hs'
    refine hs.2 s fun t ht => ?_
    rw [ho t ht]
    exact hs'

/-- A call begins where no other call is. -/
lemma MountInv.start {c : (driverSystem cacheDir point).Config} (hc : MountInv c) {p : ℕ}
    {call : NodeCall} (hp : c.procs p = none)
    (hfree : ∀ q (proc : (driverSystem cacheDir point).Process), c.procs q = some proc →
      point (NodeCall.target proc.call) ≠ point (NodeCall.target call)) :
    MountInv (c.set p (some { call, rest := (driverSystem cacheDir point).program call })) := by
  refine ⟨fun q q' proc proc' hq hq' heq => ?_, fun q proc hq => ?_, fun s hs => ?_⟩
  · rcases Config.set_eq_some hq with ⟨rfl, hproc⟩ | ⟨-, hold⟩
    · rcases Config.set_eq_some hq' with ⟨rfl, -⟩ | ⟨-, hold'⟩
      · rfl
      · cases hproc
        exact absurd heq.symm (hfree q' proc' hold')
    · rcases Config.set_eq_some hq' with ⟨rfl, hproc'⟩ | ⟨-, hold'⟩
      · cases hproc'
        exact absurd heq (hfree q proc hold)
      · exact hc.alone q q' proc proc' hold hold' heq
  · rcases Config.set_eq_some hq with ⟨rfl, hproc⟩ | ⟨-, hq⟩
    · cases hproc
      exact keeps_handle call (hc.guarded _ fun q' proc' hq' => (hfree q' proc' hq').symm)
    · exact hc.keeps q proc hq
  · exact hc.guarded s fun q proc hq => hs q proc (Config.set_of_eq_some _ hp hq)

/-- A call does something at its own mount point, and nothing at the others. -/
lemma MountInv.op {c : (driverSystem cacheDir point).Config} (hc : MountInv c) {p : ℕ}
    {call : NodeCall} {rest rest' : Prog sysInterface Reply} {w : MountTable}
    (hp : c.procs p = some { call, rest })
    (hnext : Keeps cacheDir call rest' (w (point (NodeCall.target call))))
    (helse : ∀ s, s ≠ point (NodeCall.target call) → w s = c.world s) :
    MountInv ({ c with world := w }.set p (some { call, rest := rest' }) :
      (driverSystem cacheDir point).Config) := by
  -- the calls are still the same
  have hproc : ∀ {q proc}, ({ c with world := w }.set p (some { call, rest := rest' }) :
      (driverSystem cacheDir point).Config).procs q = some proc →
        ∃ proc₀, c.procs q = some proc₀ ∧ proc₀.call = proc.call := by
    intro q proc hq
    rcases Config.set_eq_some hq with ⟨rfl, hsome⟩ | ⟨-, hq⟩
    · cases hsome
      exact ⟨_, hp, rfl⟩
    · exact ⟨proc, hq, rfl⟩
  refine ⟨fun q q' proc proc' hq hq' heq => ?_, fun q proc hq => ?_, fun s hs => ?_⟩
  · obtain ⟨proc₀, hq₀, hcall⟩ := hproc hq
    obtain ⟨proc₀', hq₀', hcall'⟩ := hproc hq'
    exact hc.alone q q' proc₀ proc₀' hq₀ hq₀' (by rw [hcall, hcall', heq])
  · rcases Config.set_eq_some hq with ⟨rfl, hsome⟩ | ⟨hqp, hq⟩
    · cases hsome
      exact hnext
    · have hne : point (NodeCall.target proc.call) ≠ point (NodeCall.target call) :=
        fun heq => hqp (hc.alone q p proc _ hq hp heq)
      have hkeep := hc.keeps q proc hq
      rw [← helse _ hne] at hkeep
      exact hkeep
  · have hne : s ≠ point (NodeCall.target call) := hs p _ (Config.set_self _ _ _)
    have hguard := hc.guarded s fun q proc hq => ?_
    · rw [← helse s hne] at hguard
      exact hguard
    · by_cases hqp : q = p
      · subst hqp
        cases hp.symm.trans hq
        exact hne
      · exact hs q proc ((Config.set_of_ne _ _ hqp).trans hq)

/-- A call is over, with nothing left to do. -/
lemma MountInv.ret {c : (driverSystem cacheDir point).Config} (hc : MountInv c) {p : ℕ}
    {call : NodeCall} {out : Reply} (hp : c.procs p = some { call, rest := .pure out }) :
    MountInv (c.set p none) := by
  have hother : ∀ {q proc}, (c.set p none).procs q = some proc → c.procs q = some proc := by
    intro q proc hq
    rcases Config.set_eq_some hq with ⟨-, hsome⟩ | ⟨-, hq⟩
    · cases hsome
    · exact hq
  refine ⟨fun q q' proc proc' hq hq' heq => ?_, fun q proc hq => ?_, fun s hs => ?_⟩
  · exact hc.alone q q' proc proc' (hother hq) (hother hq') heq
  · exact hc.keeps q proc (hother hq)
  · by_cases hsp : s = point (NodeCall.target call)
    · subst hsp
      exact (hc.keeps p _ hp).1
    · refine hc.guarded s fun q proc hq => ?_
      by_cases hqp : q = p
      · subst hqp
        cases hp.symm.trans hq
        exact hsp
      · exact hs q proc ((Config.set_of_ne _ _ hqp).trans hq)

/-- A crash leaves every mount guarded, as long as no call is halfway. -/
lemma MountInv.crash {c : (driverSystem cacheDir point).Config} (hc : MountInv c)
    (hwhole : ∀ p call o k, c.procs p = some { call, rest := .call o k } → ¬ Halfway call o) :
    @MountInv cacheDir point (Config.idle c.world) := by
  refine ⟨nofun, nofun, fun s _ => ?_⟩
  by_cases hs : ∀ p (proc : (driverSystem cacheDir point).Process), c.procs p = some proc →
      s ≠ point (NodeCall.target proc.call)
  · exact hc.guarded s hs
  · -- a call is at this point, but not halfway
    push Not at hs
    obtain ⟨p, ⟨call, rest⟩, hp, rfl⟩ := hs
    have hkeep := hc.keeps p _ hp
    cases rest with
    | pure out => exact hkeep.1
    | call o k => exact hkeep.2.1 (hwhole p call o k hp)

/-- One step. -/
lemma MountInv.step {c c' : (driverSystem cacheDir point).Config}
    {ev : (driverSystem cacheDir point).Event} (hc : MountInv c)
    (hP : Orderly cacheDir point c ev) (hs : Step (driverSystem cacheDir point) c ev c') :
    MountInv c' := by
  cases hs with
  | @start p call w hp hbegin =>
      cases hbegin
      exact hc.start hp (hP.alone p call rfl)
  | @op p call o k r w hp hsem =>
      obtain ⟨htarget, -, hkeeps⟩ := hc.keeps p _ hp
      obtain ⟨hown, helse⟩ := SysOp.Sem.own hsem htarget
      exact hc.op hp (hkeeps r _ hown (hP.honest p o r rfl _ hp)) helse
  | ret hp => exact hc.ret hp
  | env henv => exact henv.elim
  | crash hcrash =>
      cases hcrash
      exact hc.crash (hP.crash rfl)

/-- The latest mount is of the store path the request names, and it has the flags. -/
def MountedFor (cacheDir : String) (req : NodePublishVolumeRequest) (st : List Mount) : Prop :=
  ∀ storePath, req.volumeContext.lookup "storePath" = some storePath →
    ∃ m rest, st = m :: rest ∧ m.source = pathFor cacheDir storePath ∧ m.Guarded

/-- In every run whose steps meet `P`, a publish that returns OK does so with its target mounted as
requested. -/
def MountedAtReturn (cacheDir : String) (point : String → String)
    (P : (driverSystem cacheDir point).Config → (driverSystem cacheDir point).Event → Prop) :
    Prop :=
  ∀ evs c p req rest c', Run (driverSystem cacheDir point) P (Config.idle fun _ => []) evs c →
    c.procs p = some { call := NodeCall.publish req, rest } →
    Step (driverSystem cacheDir point) c (.ret p .ok) c' →
      MountedFor cacheDir req (c.world (point req.targetPath))

variable {Q : (driverSystem cacheDir point).OpCond} {p : ℕ}

lemma SysOp.Sem.of_neutral {o : SysOp} (ho : o.target = none) (r : sysInterface.Answer o)
    (w : MountTable) : o.Sem point w r w :=
  ⟨fun _ ht => (nomatch ho.symm.trans ht), fun _ _ => rfl⟩

lemma SysOp.Sem.of_stack {o : SysOp} {t : String} (ho : o.target = some t)
    {r : sysInterface.Answer o} {w : MountTable} {st' : List Mount}
    (hs : o.StackSem (w (point t)) r st') :
    o.Sem point w r (Function.update w (point t) st') := by
  constructor
  · intro t' ht'
    rw [ho, Option.some.injEq] at ht'
    subst ht'
    rwa [Function.update_self]
  · exact fun s hs' => Function.update_of_ne (hs' t ho) _ _

lemma solo_sysOp {o : SysOp} {r : sysInterface.Answer o} {w w' : MountTable}
    (hs : o.Sem point w r w') (hQ : Q p o r w) :
    Solo (driverSystem cacheDir point) Q p (sysOp o) w r w' := .call hs hQ .pure

/-- What a publish makes of the answer of the bind mount. -/
def bindReply : Except String Unit → Reply
  | .ok () => .ok
  | .error e => .status .internal ("bind mount failed: " ++ e)

/-- A publish that runs alone, on a target whose mounts cannot be read: it is decided by its bind
mount. -/
lemma solo_publish_bind (req : NodePublishVolumeRequest) {storePath closurePaths : String}
    {r : Except String Unit} {w w' : MountTable} (hid : req.volumeId ≠ "")
    (htarget : req.targetPath ≠ "") (hs : req.volumeContext.lookup "storePath" = some storePath)
    (hp : req.volumeContext.lookup "closurePaths" = some closurePaths)
    (hne : splitClosurePaths closurePaths ≠ [])
    (hQ : ∀ o r (w : MountTable),
      ¬ Misleading cacheDir (.publish req) (w (point req.targetPath)) o r → Q p o r w)
    (hbind : Solo (driverSystem cacheDir point) Q p
      (RealMountOps.bindMountReadonly (pathFor cacheDir storePath) req.targetPath) w r w') :
    Solo (driverSystem cacheDir point) Q p
      ((realNodeService cacheDir).nodePublishVolume req) w (bindReply r) w' := by
  have hneutral : ∀ {o : SysOp} (r : sysInterface.Answer o) (w : MountTable), o.target = none →
      ¬ Misleading cacheDir (.publish req) (w (point req.targetPath)) o r →
      Solo (driverSystem cacheDir point) Q p (sysOp o) w r w :=
    fun r w ho hm => solo_sysOp (.of_neutral ho r w) (hQ _ r w hm)
  have hcheck : Solo (driverSystem cacheDir point) Q p
      (RealMountOps.isMountpoint req.targetPath) w false w :=
    (hneutral (o := .probe req.targetPath) none w rfl not_false).bind .pure
  have hcache := hneutral (o := .ensureCached (splitClosurePaths closurePaths)) (.ok ()) w rfl
    not_false
  have hsetup : Solo (driverSystem cacheDir point) Q p
      (RealMountOps.setupTargetDir req.targetPath) w (.ok ()) w :=
    (hneutral (o := .exists req.targetPath) true w rfl not_false).bind .pure
  have hclean : Solo (driverSystem cacheDir point) Q p
      (RealMountOps.cleanupTarget req.targetPath) w' (.ok ()) w' :=
    (hneutral (o := .exists req.targetPath) false w' rfl not_false).bind .pure
  rw [NodeService.nodePublishVolume, if_neg hid, if_neg htarget]
  refine hcheck.bind ?_
  rw [if_neg Bool.false_ne_true, NodeService.publishContext, hs]
  simp only [hp, if_neg hne]
  refine hcache.bind (hsetup.bind (hbind.bind ?_))
  rcases r with e | ⟨⟩
  · exact hclean.bind .pure
  · exact .pure

/-- A mount call that runs alone, on a target with the mounts `st`. -/
lemma solo_mountOp {o : SysOp} {t : String} (ho : o.target = some t) {r : sysInterface.Answer o}
    {w : MountTable} {st st' : List Mount} (hs : o.StackSem st r st')
    (hQ : Q p o r (Function.update w (point t) st)) :
    Solo (driverSystem cacheDir point) Q p (sysOp o) (Function.update w (point t) st) r
      (Function.update w (point t) st') := by
  rw [← Function.update_idem (f := w) (a := point t) st st']
  refine solo_sysOp (.of_stack ho ?_) hQ
  rwa [Function.update_self]

/-- The request of the runs below. -/
def sampleRequest : NodePublishVolumeRequest :=
  { volumeId := "v", targetPath := "/t"
    volumeContext := [("storePath", "/nix/store/a"), ("closurePaths", "a")] }

lemma nulError_sample : RealMountOps.nulError (pathFor "/c" "/nix/store/a") = none ∧
    RealMountOps.nulError "/t" = none := by
  simp only [RealMountOps.nulError]
  exact ⟨if_neg (by decide), if_neg (by decide)⟩

end Niphas
