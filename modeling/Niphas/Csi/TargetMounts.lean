import Niphas.Csi.Node

/-!
# Concurrent calls on one target

`node_publish_volume` asks whether the target is mounted, then awaits the downloads, then mounts;
nothing keeps a second call from asking in the meantime.  Here the calls run in any interleaving of
their operations, and the world is the number of mounts stacked on each target.

The condition under which this does no harm is `ChecksAlone`.  It is about the answer to one call:
no publish is told that the target is unmounted while another one has been told so and may still
mount it.  "May still mount it" is a property of what is left of the other's program (`MayBind`), so
there is no need to say at which line it stands.

The mount operations do not fail here.  A mount that fails adds none, and an unmount that fails is
not answered with OK; what other harm failures do is the subject of `ReadOnlyMounts` and
`FailedPublish`.

* `targetMounts` — as long as no publish finds the target unmounted while another one has found so
  and may still mount it, at most one mount is ever on the target, and an unpublish that returns OK
  with no publish under way leaves none.
* `targetMounts_race` — two publishes that ask before either mounts leave two mounts, and an
  unpublish removes one of them.
-/

namespace Niphas

open System

/-! ## The system -/

/-- The calls of the service. -/
inductive NodeCall where
  | publish (req : NodePublishVolumeRequest)
  | unpublish (req : NodeUnpublishVolumeRequest)
  deriving DecidableEq

/-- A call that publishes the target `target`. -/
def NodeCall.Publishes (target : String) : NodeCall → Prop
  | publish req => req.targetPath = target
  | unpublish _ => False

/-- The handler of a call. -/
def NodeService.handle {I : Interface} (svc : NodeService I) : NodeCall → Prog I Reply
  | .publish req => svc.nodePublishVolume req
  | .unpublish req => svc.nodeUnpublishVolume req

/-- What the operations do to the number of mounts on each target, where none of the mount
operations fails.  A fetch may fail. -/
def NodeOp.CountSem : (o : NodeOp) → (String → ℕ) → nodeInterface.Answer o → (String → ℕ) → Prop
  | .isMountpoint path, w, r, w' => r = decide (0 < w path) ∧ w' = w
  | .setupTargetDir _, w, r, w' => r = .ok () ∧ w' = w
  | .bindMountReadonly _ target, w, r, w' =>
      r = .ok () ∧ w' = Function.update w target (w target + 1)
  | .unmount target, w, r, w' => r = .ok () ∧ w' = Function.update w target (w target - 1)
  | .cleanupTarget _, w, r, w' => r = .ok () ∧ w' = w
  | .ensureCached _, w, _, w' => w' = w

/-- The service on a node: any number of calls, interleaved at their operations. -/
def targetSystem (cacheDir : String) : System where
  iface := nodeInterface
  World := String → ℕ
  Call := NodeCall
  Out := Reply
  program := (nodeService cacheDir).handle
  sem _ := NodeOp.CountSem
  begins w _ _ _ w' := w' = w
  env _ _ := False
  crash _ _ := False

/-! ## Programs that may mount a target

These are properties of what is left of a program, so they make sense at any point of a call, and
every operation carries them on.
-/

/-- The operation that mounts `target`. -/
def Binds (target : String) (o : NodeOp) : Prop := ∃ source, o = .bindMountReadonly source target

/-- The program may mount `target` without asking first. -/
def MayBind (target : String) (prog : Prog nodeInterface Reply) : Prop :=
  prog.Reaches (Binds target) fun o => o = NodeOp.isMountpoint target

/-- The program never mounts `target`. -/
def NeverBinds (target : String) (prog : Prog nodeInterface Reply) : Prop :=
  prog.All fun o => ¬ Binds target o

/-- After it has mounted `target`, and after it has found it mounted, the program does not mount it
without asking again. -/
def Disciplined (target : String) : Prog nodeInterface Reply → Prop
  | .pure _ => True
  | .call (.isMountpoint path) k =>
      (path = target → ¬ MayBind target (k true)) ∧ ∀ r, Disciplined target (k r)
  | .call (.bindMountReadonly _ t) k =>
      (t = target → ∀ r, ¬ MayBind target (k r)) ∧ ∀ r, Disciplined target (k r)
  | .call _ k => ∀ r, Disciplined target (k r)

lemma NeverBinds.not_mayBind {target : String} {prog : Prog nodeInterface Reply}
    (h : NeverBinds target prog) : ¬ MayBind target prog := Prog.All.not_reaches h

lemma NeverBinds.disciplined {target : String} {prog : Prog nodeInterface Reply}
    (h : NeverBinds target prog) : Disciplined target prog := by
  induction prog with
  | pure a => trivial
  | call o k ih =>
      have hk : ∀ r, NeverBinds target (k r) := h.2
      cases o with
      | isMountpoint path => exact ⟨fun _ => (hk true).not_mayBind, fun r => ih r (hk r)⟩
      | bindMountReadonly source t =>
          exact ⟨fun _ r => (hk r).not_mayBind, fun r => ih r (hk r)⟩
      | _ => exact fun r => ih r (hk r)

/-! ## The handlers -/

variable {cacheDir target : String}

lemma neverBinds_op {o : NodeOp} (h : ¬ Binds target o) :
    (nodeOp o).All fun o => ¬ Binds target o := ⟨h, fun _ => trivial⟩

/-- An unpublish mounts nothing. -/
lemma neverBinds_unpublish (req : NodeUnpublishVolumeRequest) :
    NeverBinds target ((nodeService cacheDir).nodeUnpublishVolume req) := by
  rw [NodeService.nodeUnpublishVolume]
  split
  · trivial
  split
  · trivial
  refine Prog.All.bind (neverBinds_op (by rintro ⟨_, ⟨⟩⟩)) fun mounted => ?_
  split
  · refine Prog.All.bind (neverBinds_op (by rintro ⟨_, ⟨⟩⟩)) fun r => ?_
    split
    · trivial
    · exact Prog.All.bind (neverBinds_op (by rintro ⟨_, ⟨⟩⟩)) fun _ => trivial
  · exact Prog.All.bind (neverBinds_op (by rintro ⟨_, ⟨⟩⟩)) fun _ => trivial

/-- What is left of a publish once the mount call has answered mounts nothing. -/
lemma neverBinds_mounted (t : String) (r : Except String Unit) :
    NeverBinds target (match r with
      | .error e => do
          let _ ← (nodeService cacheDir).mount.cleanupTarget t
          return Reply.status .internal ("bind mount failed: " ++ e)
      | .ok () => return Reply.ok) := by
  rcases r with e | ⟨⟩
  · exact Prog.All.bind (neverBinds_op (by rintro ⟨_, ⟨⟩⟩)) fun _ => trivial
  · trivial

/-- The end of a publish mounts its own target only, and once. -/
lemma disciplined_mountStorePath (storePath t : String) :
    Disciplined target ((nodeService cacheDir).mountStorePath storePath t) ∧
      (t ≠ target → NeverBinds target ((nodeService cacheDir).mountStorePath storePath t)) := by
  have hrest := @neverBinds_mounted cacheDir target t
  constructor
  · rintro (e | ⟨⟩)
    · trivial
    · exact ⟨fun _ r => (hrest r).not_mayBind, fun r => (hrest r).disciplined⟩
  · intro ht
    refine Prog.All.bind (neverBinds_op (by rintro ⟨_, ⟨⟩⟩)) fun r => ?_
    rcases r with e | ⟨⟩
    · trivial
    · refine Prog.All.bind (neverBinds_op ?_) hrest
      rintro ⟨_, h⟩
      cases h
      exact ht rfl

/-- A publish mounts its own target only, and only after it has found it unmounted. -/
lemma disciplined_publish (req : NodePublishVolumeRequest) :
    Disciplined target ((nodeService cacheDir).nodePublishVolume req) ∧
      ¬ MayBind target ((nodeService cacheDir).nodePublishVolume req) ∧
      (req.targetPath ≠ target →
        NeverBinds target ((nodeService cacheDir).nodePublishVolume req)) := by
  -- what is left once the target has been found unmounted
  have hctx : Disciplined target
        ((nodeService cacheDir).publishContext req.volumeContext req.targetPath) ∧
      (req.targetPath ≠ target → NeverBinds target
        ((nodeService cacheDir).publishContext req.volumeContext req.targetPath)) := by
    rw [NodeService.publishContext]
    split
    · exact ⟨trivial, fun _ => trivial⟩
    next storePath _ =>
    split
    · exact ⟨trivial, fun _ => trivial⟩
    split
    · exact ⟨trivial, fun _ => trivial⟩
    obtain ⟨hd, hn⟩ := @disciplined_mountStorePath cacheDir target storePath req.targetPath
    constructor
    · rintro ((_ | e) | ⟨⟩)
      · trivial
      · trivial
      · exact hd
    · intro ht
      refine Prog.All.bind (neverBinds_op (by rintro ⟨_, ⟨⟩⟩)) fun r => ?_
      rcases r with (_ | e) | ⟨⟩
      · trivial
      · trivial
      · exact hn ht
  rw [NodeService.nodePublishVolume]
  split
  · exact ⟨trivial, not_false, fun _ => trivial⟩
  split
  · exact ⟨trivial, not_false, fun _ => trivial⟩
  refine ⟨⟨fun _ => not_false, ?_⟩, ?_, fun ht => ?_⟩
  · rintro (_ | _)
    · exact hctx.1
    · trivial
  · rintro (⟨_, h⟩ | ⟨hne, r, hr⟩)
    · cases h
    · cases r with
      | true => exact hr
      | false =>
          refine (hctx.2 fun ht => hne ?_).not_mayBind hr
          rw [ht]
  · refine Prog.All.bind (neverBinds_op (by rintro ⟨_, ⟨⟩⟩)) fun r => ?_
    cases r with
    | true => trivial
    | false => exact hctx.2 ht

/-! ## One operation -/

/-- What an operation of a disciplined program can do: it mounts the target and is done with it, it
finds the target unmounted, or it mounts nothing and leaves the program where it was. -/
lemma Disciplined.op {o : NodeOp} {k : nodeInterface.Answer o → Prog nodeInterface Reply}
    {r : nodeInterface.Answer o} {w w' : String → ℕ} (hd : Disciplined target (.call o k))
    (hs : o.CountSem w r w') :
    Disciplined target (k r) ∧
      ((Binds target o ∧ w' target = w target + 1 ∧ ¬ MayBind target (k r)) ∨
        (w' = w ∧ w target = 0 ∧
          (⟨o, r⟩ : Σ o, nodeInterface.Answer o) = ⟨.isMountpoint target, false⟩) ∨
        (w' target ≤ w target ∧ (MayBind target (k r) → MayBind target (.call o k)))) := by
  have hskip : o ≠ .isMountpoint target → MayBind target (k r) → MayBind target (.call o k) :=
    fun hne h => .inr ⟨hne, r, h⟩
  cases o with
  | isMountpoint path =>
      obtain ⟨rfl, rfl⟩ := hs
      refine ⟨hd.2 _, .inr ?_⟩
      by_cases hpath : path = target
      · subst hpath
        by_cases hw : 0 < w' path
        · rw [decide_eq_true hw]
          exact .inr ⟨le_refl _, fun h => absurd h (hd.1 rfl)⟩
        · exact .inl ⟨rfl, Nat.eq_zero_of_not_pos hw, by rw [decide_eq_false hw]⟩
      · refine .inr ⟨le_refl _, hskip ?_⟩
        rintro ⟨⟩
        exact hpath rfl
  | bindMountReadonly source t =>
      obtain ⟨rfl, rfl⟩ := hs
      refine ⟨hd.2 _, ?_⟩
      by_cases ht : t = target
      · subst ht
        exact .inl ⟨⟨source, rfl⟩, Function.update_self _ _ _, hd.1 rfl _⟩
      · refine .inr (.inr ⟨?_, hskip nofun⟩)
        rw [Function.update_of_ne (Ne.symm ht)]
  | unmount t =>
      obtain ⟨rfl, rfl⟩ := hs
      refine ⟨hd _, .inr (.inr ⟨?_, hskip nofun⟩)⟩
      by_cases ht : t = target
      · subst ht
        rw [Function.update_self]
        exact Nat.sub_le _ _
      · rw [Function.update_of_ne (Ne.symm ht)]
  | setupTargetDir path =>
      obtain ⟨rfl, rfl⟩ := hs
      exact ⟨hd _, .inr (.inr ⟨le_refl _, hskip nofun⟩)⟩
  | cleanupTarget path =>
      obtain ⟨rfl, rfl⟩ := hs
      exact ⟨hd _, .inr (.inr ⟨le_refl _, hskip nofun⟩)⟩
  | ensureCached closurePaths =>
      cases hs
      exact ⟨hd _, .inr (.inr ⟨le_refl _, hskip nofun⟩)⟩

/-! ## The invariant -/

/-- Process `p` has found `target` unmounted and may still mount it. -/
def Config.Binder (target : String) (c : (targetSystem cacheDir).Config) (p : ℕ) : Prop :=
  ∃ proc, c.procs p = some proc ∧ MayBind target proc.rest

/-- No publish finds `target` unmounted while another process has found so and may still mount
it. -/
def ChecksAlone (cacheDir target : String) (c : (targetSystem cacheDir).Config)
    (ev : (targetSystem cacheDir).Event) : Prop :=
  ∀ p, ev = .op p (NodeOp.isMountpoint target) false →
    (∃ proc, c.procs p = some proc ∧ proc.call.Publishes target) →
      ∀ q, q ≠ p → ¬ Config.Binder target c q

/-- What holds of one target in every state: at most one process may mount it, and while one may,
nothing is mounted there. -/
structure TargetInv (target : String) (c : (targetSystem cacheDir).Config) : Prop where
  disciplined : ∀ p proc, c.procs p = some proc → Disciplined target proc.rest
  confined : ∀ p proc, c.procs p = some proc → ¬ proc.call.Publishes target →
    NeverBinds target proc.rest
  alone : ∀ p q, Config.Binder target c p → Config.Binder target c q → p = q
  unmounted : ∀ p, Config.Binder target c p → c.world target = 0
  single : c.world target ≤ 1

/-- Every program begins disciplined. -/
lemma handle_start (call : NodeCall) :
    Disciplined target ((nodeService cacheDir).handle call) ∧
      ¬ MayBind target ((nodeService cacheDir).handle call) ∧
      (¬ call.Publishes target → NeverBinds target ((nodeService cacheDir).handle call)) := by
  cases call with
  | publish req => exact disciplined_publish req
  | unpublish req =>
      have h := @neverBinds_unpublish cacheDir target req
      exact ⟨h.disciplined, h.not_mayBind, fun _ => h⟩

/-- A process moves: what has to be known of it for the invariant to hold afterwards. -/
lemma TargetInv.move {c : (targetSystem cacheDir).Config} (hc : TargetInv target c) {p : ℕ}
    {proc' : Option (targetSystem cacheDir).Process} {w : String → ℕ}
    (hproc : ∀ proc, proc' = some proc → Disciplined target proc.rest ∧
      (¬ proc.call.Publishes target → NeverBinds target proc.rest))
    (hbinder : ∀ proc, proc' = some proc → MayBind target proc.rest →
      (∀ q, q ≠ p → ¬ Config.Binder target c q) ∧ w target = 0)
    (hothers : ∀ q, q ≠ p → Config.Binder target c q → w target = 0)
    (hsingle : w target ≤ 1) : TargetInv target ({ c with world := w }.set p proc') := by
  have hbinds : ∀ q, q ≠ p → Config.Binder target ({ c with world := w }.set p proc') q →
      Config.Binder target c q := by
    rintro q hqp ⟨proc, hp, hm⟩
    exact ⟨proc, by rwa [Config.set_of_ne _ _ hqp] at hp, hm⟩
  have hbind : Config.Binder target ({ c with world := w }.set p proc') p →
      (∀ q, q ≠ p → ¬ Config.Binder target c q) ∧ w target = 0 := by
    rintro ⟨proc, hp, hm⟩
    exact hbinder proc (by rwa [Config.set_self] at hp) hm
  refine ⟨fun q proc hq => ?_, fun q proc hq => ?_, fun q q' hb hb' => ?_, fun q hb => ?_, hsingle⟩
  · rcases Config.set_eq_some hq with ⟨-, hmoved⟩ | ⟨-, hold⟩
    · exact (hproc proc hmoved).1
    · exact hc.disciplined q proc hold
  · rcases Config.set_eq_some hq with ⟨-, hmoved⟩ | ⟨-, hold⟩
    · exact (hproc proc hmoved).2
    · exact hc.confined q proc hold
  · by_cases hqp : q = p
    · subst hqp
      by_contra hne'
      exact (hbind hb).1 q' (Ne.symm hne') (hbinds q' (Ne.symm hne') hb')
    · by_cases hqp' : q' = p
      · subst hqp'
        exact absurd (hbinds q hqp hb) ((hbind hb').1 q hqp)
      · exact hc.alone q q' (hbinds q hqp hb) (hbinds q' hqp' hb')
  · by_cases hqp : q = p
    · subst hqp
      exact (hbind hb).2
    · exact hothers q hqp (hbinds q hqp hb)

/-- One step. -/
lemma TargetInv.step {c c' : (targetSystem cacheDir).Config} {ev : (targetSystem cacheDir).Event}
    (hc : TargetInv target c) (hP : ChecksAlone cacheDir target c ev)
    (hs : Step (targetSystem cacheDir) c ev c') : TargetInv target c' := by
  cases hs with
  | @start p call w hp hbegin =>
      cases hbegin
      obtain ⟨hd, hm, hn⟩ := @handle_start cacheDir target call
      refine hc.move ?_ ?_ (fun q _ hb => hc.unmounted q hb) hc.single
      · rintro _ ⟨⟩
        exact ⟨hd, hn⟩
      · rintro _ ⟨⟩ h
        exact absurd h hm
  | @op p call o k r w hp hsem =>
      obtain ⟨hd, hcases⟩ := (hc.disciplined p _ hp).op hsem
      have hn : ¬ call.Publishes target → NeverBinds target (k r) :=
        fun h => (hc.confined p _ hp h).2 r
      have hproc : ∀ proc : (targetSystem cacheDir).Process,
          some { call, rest := k r } = some proc →
          Disciplined target proc.rest ∧
            (¬ proc.call.Publishes target → NeverBinds target proc.rest) := by
        rintro _ ⟨⟩
        exact ⟨hd, hn⟩
      obtain ⟨hbind, hw, hm⟩ | ⟨rfl, hw, hcheck⟩ | ⟨hw, hm⟩ := hcases
      · -- the target is mounted: it was not mounted before, and nobody else may mount it
        have hp' : Config.Binder target c p := ⟨_, hp, .inl hbind⟩
        have hzero := hc.unmounted p hp'
        refine hc.move hproc ?_ (fun q hq hb => absurd (hc.alone q p hb hp') hq) (by omega)
        rintro _ ⟨⟩ h
        exact absurd h hm
      · -- the target is found unmounted
        refine hc.move hproc ?_ (fun q _ hb => hc.unmounted q hb) hc.single
        rintro _ ⟨⟩ h
        refine ⟨hP p ?_ ⟨_, hp, ?_⟩, hw⟩
        · cases hcheck
          rfl
        · by_contra hpub
          exact (hn hpub).not_mayBind h
      · refine hc.move hproc ?_ ?_ (le_trans hw hc.single)
        · rintro _ ⟨⟩ h
          have hp' : Config.Binder target c p := ⟨_, hp, hm h⟩
          have hzero := hc.unmounted p hp'
          exact ⟨fun q hq hb => hq (hc.alone q p hb hp'), by omega⟩
        · intro q _ hb
          have hzero := hc.unmounted q hb
          omega
  | @ret p call out hp =>
      exact hc.move (w := c.world) nofun nofun (fun q _ hb => hc.unmounted q hb) hc.single
  | env henv => exact henv.elim
  | crash hcrash => exact hcrash.elim

/-- The invariant holds where nothing is mounted and nothing is under way. -/
lemma targetInv_idle {w : String → ℕ} (hw : w target ≤ 1) :
    TargetInv target (Config.idle w : (targetSystem cacheDir).Config) where
  disciplined _ _ h := nomatch h
  confined _ _ h := nomatch h
  alone _ _ h := nomatch h.choose_spec.1
  unmounted _ h := nomatch h.choose_spec.1
  single := hw

/-! ## Unpublishing -/

/-- An operation that does not mount the target adds no mount to it. -/
lemma NodeOp.CountSem.le {o : NodeOp} {r : nodeInterface.Answer o} {w w' : String → ℕ}
    (hs : o.CountSem w r w') (ho : ¬ Binds target o) : w' target ≤ w target := by
  cases o with
  | bindMountReadonly source t =>
      obtain ⟨-, rfl⟩ := hs
      rw [Function.update_of_ne]
      rintro rfl
      exact ho ⟨source, rfl⟩
  | unmount t =>
      obtain ⟨-, rfl⟩ := hs
      by_cases ht : t = target
      · subst ht
        rw [Function.update_self]
        exact Nat.sub_le _ _
      · rw [Function.update_of_ne (Ne.symm ht)]
  | ensureCached closurePaths => exact le_of_eq (congrFun hs target)
  | _ =>
      obtain ⟨-, rfl⟩ := hs
      exact le_refl _

/-- While no publish of the target is under way, its mounts only become fewer. -/
def shrinking (cacheDir target : String) : RelyGuarantee (targetSystem cacheDir) where
  inv w := w target ≤ 1
  allowed _ _ _ _ := True
  rely _ w w' := w' target ≤ w target
  guar _ w w' := w' target ≤ w target
  rely_refl _ _ := le_refl _
  rely_trans h h' := le_trans h' h
  guar_rely _ _ h := h
  env_ok _ h := h.elim
  crash_ok _ h := h.elim

/-- A program that does not mount the target does its part. -/
lemma NeverBinds.safe {prog : Prog nodeInterface Reply} {p : ℕ} {w : String → ℕ}
    (h : NeverBinds target prog) :
    (shrinking cacheDir target).Safe p prog (fun _ _ => True) w := by
  induction prog generalizing w with
  | pure a => exact fun _ _ _ => trivial
  | call o k ih =>
      intro w' _ hi r w'' hs _
      have hle := NodeOp.CountSem.le hs h.1
      exact ⟨le_trans hle hi, hle, ih r (h.2 r)⟩

/-- **One unpublish.**  While no publish of the target is under way, an unpublish that returns OK
leaves the target unmounted. -/
lemma safe_unpublish {p : ℕ} {w : String → ℕ} (req : NodeUnpublishVolumeRequest) :
    (shrinking cacheDir req.targetPath).Safe p ((nodeService cacheDir).nodeUnpublishVolume req)
      (fun out w => out = .ok → w req.targetPath = 0) w := by
  -- once the target is unmounted, cleaning up leaves it so
  have hclean : ∀ w : String → ℕ, w req.targetPath = 0 →
      (shrinking cacheDir req.targetPath).Safe p
        (do
          let _ ← (nodeService cacheDir).mount.cleanupTarget req.targetPath
          return Reply.ok)
        (fun out w => out = .ok → w req.targetPath = 0) w := by
    intro w hw w₁ hr₁ hi₁ r w₂ hs _
    obtain ⟨rfl, rfl⟩ := hs
    exact ⟨hi₁, le_refl _, fun w₃ hr₃ _ _ => Nat.le_zero.mp (hw ▸ le_trans hr₃ hr₁)⟩
  rw [NodeService.nodeUnpublishVolume]
  split
  · exact fun _ _ _ h => nomatch h
  split
  · exact fun _ _ _ h => nomatch h
  intro w₁ _ hi₁ mounted w₂ hs _
  obtain ⟨rfl, rfl⟩ := hs
  refine ⟨hi₁, le_refl _, ?_⟩
  by_cases hmounted : 0 < w₂ req.targetPath
  · simp only [hmounted, decide_true]
    intro w₃ _ hi₃ r w₄ hs _
    have hunmount : NodeOp.CountSem (.unmount req.targetPath) w₃ r w₄ := hs
    have hle : w₄ req.targetPath ≤ w₃ req.targetPath := hunmount.le (by rintro ⟨_, ⟨⟩⟩)
    obtain ⟨rfl, rfl⟩ := hunmount
    refine ⟨le_trans hle hi₃, hle, hclean _ ?_⟩
    have hone : w₃ req.targetPath ≤ 1 := hi₃
    exact (Function.update_self _ _ _).trans (Nat.sub_eq_zero_of_le hone)
  · simp only [hmounted, decide_false]
    exact hclean _ (Nat.eq_zero_of_not_pos hmounted)

/-- Nothing begins that publishes `target`, and process `p` does not return. -/
def Quiet (cacheDir target : String) (p : ℕ) (ev : (targetSystem cacheDir).Event) : Prop :=
  (∀ q call, ev = .start q call → ¬ NodeCall.Publishes target call) ∧ ∀ out, ev ≠ .ret p out

/-- No publish of `target` is under way. -/
def NoPublish (target : String) (c : (targetSystem cacheDir).Config) : Prop :=
  ∀ p proc, c.procs p = some proc → ¬ proc.call.Publishes target

/-- An unpublish during which no publish of the target is under way. -/
lemma unpublish_unmounts {c c₁ c₂ c₃ : (targetSystem cacheDir).Config} {p : ℕ}
    {req : NodeUnpublishVolumeRequest} {evs : List (targetSystem cacheDir).Event}
    (hc : TargetInv req.targetPath c) (hquiet : NoPublish req.targetPath c)
    (hstart : Step (targetSystem cacheDir) c (.start p (.unpublish req)) c₁)
    (hrun : Run (targetSystem cacheDir) (fun _ => Quiet cacheDir req.targetPath p) c₁ evs c₂)
    (hret : Step (targetSystem cacheDir) c₂ (.ret p .ok) c₃) : c₃.world req.targetPath = 0 := by
  let post (q : ℕ) (call : NodeCall) (out : Reply) (w : String → ℕ) : Prop :=
    q = p → call = .unpublish req → out = .ok → w req.targetPath = 0
  have hsafe : ∀ q call w, ¬ NodeCall.Publishes req.targetPath call →
      (shrinking cacheDir req.targetPath).Safe q ((nodeService cacheDir).handle call) (post q call)
        w := by
    intro q call w hpub
    by_cases hcall : call = .unpublish req
    · subst hcall
      exact (safe_unpublish req).mono fun _ _ _ h _ _ => h
    · refine ((handle_start call).2.2 hpub).safe.mono fun _ _ _ _ _ h => absurd h hcall
  have hcovers : (shrinking cacheDir req.targetPath).Covers post
      fun _ => Quiet cacheDir req.targetPath p :=
    { op := fun _ => trivial
      start := fun {c q call w'} hq hi hbegin => by
        cases hbegin
        exact ⟨hi, le_refl _, hsafe q call _ (hq.1 q call rfl)⟩ }
  -- the invariant at the begin of the unpublish
  have hholds : (shrinking cacheDir req.targetPath).Holds post c₁ := by
    cases hstart with
    | start hp hbegin =>
        cases hbegin
        refine ⟨hc.single, fun q proc hq => ?_⟩
        rcases Config.set_eq_some hq with ⟨rfl, hmoved⟩ | ⟨hqp, hold⟩
        · cases hmoved
          exact hsafe q (.unpublish req) _ not_false
        · exact (hc.confined q proc hold (hquiet q proc hold)).safe.mono
            fun _ _ _ _ h => absurd h hqp
  have hend := RelyGuarantee.Holds.run hcovers hrun hholds
  -- process `p` is still at the same call
  let AtCall (c : (targetSystem cacheDir).Config) : Prop :=
    ∃ proc, c.procs p = some proc ∧ proc.call = NodeCall.unpublish req
  have hbegun : AtCall c₁ := by
    cases hstart with
    | start hp hbegin => exact ⟨_, Config.set_self _ _ _, rfl⟩
  have hstay : ∀ {c ev c'}, AtCall c → Quiet cacheDir req.targetPath p ev →
      Step (targetSystem cacheDir) c ev c' → AtCall c' := by
    rintro c ev c' ⟨proc, hp, hcall⟩ hq hs
    have hcrash : ev ≠ .crash := by
      rintro rfl
      cases hs with
      | crash h => exact h
    obtain ⟨proc', hp', hcall'⟩ := hs.call_eq hp hq.2 hcrash
    exact ⟨proc', hp', hcall'.trans hcall⟩
  obtain ⟨proc, hp, hcall⟩ := hrun.invariant hstay hbegun
  cases hret with
  | @ret _ call out hp' =>
      rw [hp, Option.some.injEq] at hp'
      subst hp'
      exact hend.of_pure hp rfl hcall rfl

/-! ## Calls that run alone -/

variable {Q : (targetSystem cacheDir).OpCond} {p : ℕ}

lemma solo_op {o : NodeOp} {r : nodeInterface.Answer o} {w w' : String → ℕ}
    (hs : o.CountSem w r w') (hQ : Q p o r w) :
    Solo (targetSystem cacheDir) Q p (nodeOp o) w r w' := .call hs hQ .pure

/-- A publish past its mount check that runs alone mounts the target. -/
lemma solo_publishContext (hQ : ∀ o r w, Q p o r w) {ctx : List (String × String)}
    {storePath closurePaths : String} (hs : ctx.lookup "storePath" = some storePath)
    (hp : ctx.lookup "closurePaths" = some closurePaths) (hne : splitClosurePaths closurePaths ≠ [])
    (w : String → ℕ) :
    Solo (targetSystem cacheDir) Q p ((nodeService cacheDir).publishContext ctx target) w .ok
      (Function.update w target (w target + 1)) := by
  simp only [NodeService.publishContext, hs, hp, if_neg hne]
  have hcache : NodeOp.CountSem (.ensureCached (splitClosurePaths closurePaths)) w (.ok ()) w := rfl
  have hsetup : NodeOp.CountSem (.setupTargetDir target) w (.ok ()) w := ⟨rfl, rfl⟩
  have hbind : NodeOp.CountSem (.bindMountReadonly (pathFor cacheDir storePath) target) w (.ok ())
    (Function.update w target (w target + 1)) := ⟨rfl, rfl⟩
  exact (solo_op hcache (hQ _ _ _)).bind ((solo_op hsetup (hQ _ _ _)).bind
    ((solo_op hbind (hQ _ _ _)).bind .pure))

/-- A publish of an unmounted target that runs alone mounts it. -/
lemma solo_publish (hQ : ∀ o r w, Q p o r w) (req : NodePublishVolumeRequest)
    (hid : req.volumeId ≠ "") (htarget : req.targetPath ≠ "") {storePath closurePaths : String}
    (hs : req.volumeContext.lookup "storePath" = some storePath)
    (hp : req.volumeContext.lookup "closurePaths" = some closurePaths)
    (hne : splitClosurePaths closurePaths ≠ []) {w : String → ℕ} (hw : w req.targetPath = 0) :
    Solo (targetSystem cacheDir) Q p ((nodeService cacheDir).nodePublishVolume req) w .ok
      (Function.update w req.targetPath (w req.targetPath + 1)) := by
  have hcheck : NodeOp.CountSem (.isMountpoint req.targetPath) w false w :=
    ⟨(decide_eq_false (by rw [hw]; exact Nat.not_lt_zero 0)).symm, rfl⟩
  rw [NodeService.nodePublishVolume, if_neg hid, if_neg htarget]
  exact (solo_op hcheck (hQ _ _ _)).bind (solo_publishContext hQ hs hp hne w)

/-- An unpublish of a mounted target that runs alone removes one mount. -/
lemma solo_unpublish (hQ : ∀ o r w, Q p o r w) {req : NodeUnpublishVolumeRequest}
    (hid : req.volumeId ≠ "") (htarget : req.targetPath ≠ "") {w : String → ℕ}
    (hw : 0 < w req.targetPath) :
    Solo (targetSystem cacheDir) Q p ((nodeService cacheDir).nodeUnpublishVolume req) w .ok
      (Function.update w req.targetPath (w req.targetPath - 1)) := by
  have hcheck : NodeOp.CountSem (.isMountpoint req.targetPath) w true w :=
    ⟨(decide_eq_true hw).symm, rfl⟩
  have hunmount : NodeOp.CountSem (.unmount req.targetPath) w (.ok ())
    (Function.update w req.targetPath (w req.targetPath - 1)) := ⟨rfl, rfl⟩
  have hclean : ∀ w, NodeOp.CountSem (.cleanupTarget req.targetPath) w (.ok ()) w :=
    fun w => ⟨rfl, rfl⟩
  rw [NodeService.nodeUnpublishVolume, if_neg hid, if_neg htarget]
  exact (solo_op hcheck (hQ _ _ _)).bind ((solo_op hunmount (hQ _ _ _)).bind
    ((solo_op (hclean _) (hQ _ _ _)).bind .pure))

/-- A process that is alone meets `ChecksAlone`. -/
lemma checksAlone_of_alone {c : (targetSystem cacheDir).Config}
    (h : ∀ q, q ≠ p → c.procs q = none) (ev : (targetSystem cacheDir).Event) :
    ChecksAlone cacheDir target c ev := by
  rintro q - ⟨proc, hq, -⟩ q' hne ⟨proc', hq', -⟩
  have hp : ∀ {q proc}, c.procs q = some proc → q = p := by
    intro q proc hq
    by_contra hqp
    rw [h q hqp] at hq
    cases hq
  exact hne ((hp hq').trans (hp hq).symm)

/-- An unpublish of a mounted target, from its begin to its end. -/
lemma unpublish_window (req : NodeUnpublishVolumeRequest) {w : String → ℕ}
    (hid : req.volumeId ≠ "") (htarget : req.targetPath ≠ "") (hw : 0 < w req.targetPath) :
    ∃ c₁ evs c₂ c₃, Step (targetSystem cacheDir) (Config.idle w) (.start p (.unpublish req)) c₁ ∧
      Run (targetSystem cacheDir) (fun _ => Quiet cacheDir req.targetPath p) c₁ evs c₂ ∧
      Step (targetSystem cacheDir) c₂ (.ret p .ok) c₃ ∧
      c₃.world req.targetPath = w req.targetPath - 1 := by
  have hsolo := @solo_unpublish cacheDir (fun _ _ _ _ => True) p (fun _ _ _ => trivial) req hid
    htarget w hw
  let c₁ : (targetSystem cacheDir).Config := (Config.idle w).set p
    (some { call := .unpublish req, rest := (nodeService cacheDir).nodeUnpublishVolume req })
  obtain ⟨evs, hrun⟩ := hsolo.steps (P := fun _ => Quiet cacheDir req.targetPath p) (c := c₁)
    (fun _ _ _ _ _ => ⟨fun _ _ => nofun, nofun⟩) rfl (Config.set_self _ _ _)
  exact ⟨c₁, evs, _, _, .start rfl rfl, hrun, .ret (Config.set_self _ _ _),
    Function.update_self _ _ _⟩

/-! ## Runs -/

/-- In every run whose steps meet `P`, at most one mount is ever stacked on the target. -/
def AtMostOneMount (cacheDir target : String)
    (P : (targetSystem cacheDir).Config → (targetSystem cacheDir).Event → Prop) : Prop :=
  ∀ evs c, Run (targetSystem cacheDir) P (Config.idle fun _ => 0) evs c → c.world target ≤ 1

/-- After a run whose steps meet `P`, an unpublish that begins with no publish of the target under
way, during which none begins, and that returns OK leaves the target unmounted. -/
def UnpublishClears (cacheDir target : String)
    (P : (targetSystem cacheDir).Config → (targetSystem cacheDir).Event → Prop) : Prop :=
  ∀ evs c, Run (targetSystem cacheDir) P (Config.idle fun _ => 0) evs c →
    ∀ p (req : NodeUnpublishVolumeRequest) c₁ evs' c₂ c₃, req.targetPath = target →
      NoPublish target c → Step (targetSystem cacheDir) c (.start p (.unpublish req)) c₁ →
      Run (targetSystem cacheDir) (fun _ => Quiet cacheDir target p) c₁ evs' c₂ →
      Step (targetSystem cacheDir) c₂ (.ret p .ok) c₃ → c₃.world target = 0

/-- **One mount at most.**  In a run in which no publish finds the target unmounted while another
one may still mount it, the target never has more than one mount, and an unpublish that returns
OK with no publish of the target under way leaves it unmounted. -/
theorem targetMounts (cacheDir target : String) :
    AtMostOneMount cacheDir target (ChecksAlone cacheDir target) ∧
      UnpublishClears cacheDir target (ChecksAlone cacheDir target) := by
  have hinv : ∀ evs c, Run (targetSystem cacheDir) (ChecksAlone cacheDir target)
      (Config.idle fun _ => 0) evs c → TargetInv target c :=
    fun evs c hrun => hrun.invariant TargetInv.step (targetInv_idle (Nat.zero_le 1))
  refine ⟨fun evs c hrun => (hinv evs c hrun).single, ?_⟩
  rintro evs c hrun p req c₁ evs' c₂ c₃ rfl hquiet hstart hrun' hret
  exact unpublish_unmounts (hinv evs c hrun) hquiet hstart hrun' hret

/-- A publish and then an unpublish. -/
theorem targetMounts_sequential :
    ∃ evs c c₁ evs' c₂ c₃, Run (targetSystem "/c") (ChecksAlone "/c" "/t") (Config.idle fun _ => 0)
        evs c ∧ c.world "/t" = 1 ∧ c.world "/t" ≤ 1 ∧
      Step (targetSystem "/c") c (.start 0 (.unpublish ⟨"v", "/t"⟩)) c₁ ∧
      Run (targetSystem "/c") (fun _ => Quiet "/c" "/t" 0) c₁ evs' c₂ ∧
      Step (targetSystem "/c") c₂ (.ret 0 .ok) c₃ ∧ c₃.world "/t" = 0 := by
  let req : NodePublishVolumeRequest :=
    ⟨"v", "/t", [("storePath", "/nix/store/a"), ("closurePaths", "a")]⟩
  have hsolo : Solo (targetSystem "/c") (fun _ _ _ _ => True) 0
      ((targetSystem "/c").program (.publish req)) (fun _ => 0) .ok
      (Function.update (fun _ => 0) "/t" 1) :=
    solo_publish (fun _ _ _ => trivial) req (by decide) (by decide) rfl rfl (by decide) rfl
  obtain ⟨evs, hrun⟩ := Solo.run (P := ChecksAlone "/c" "/t") hsolo rfl
    (checksAlone_of_alone (p := 0) (fun _ _ => rfl) _)
    (fun w rest o r _ => checksAlone_of_alone (fun q hq => Config.set_of_ne _ _ hq) _)
    (checksAlone_of_alone (fun q hq => Config.set_of_ne _ _ hq) _)
  have hone : Function.update (fun _ => 0) "/t" 1 "/t" = 1 := Function.update_self _ _ _
  obtain ⟨c₁, evs', c₂, c₃, hstart, hrun', hret, -⟩ :=
    unpublish_window ⟨"v", "/t"⟩ (p := 0) (w := Function.update (fun _ => 0) "/t" 1) (by decide)
      (by decide) (hone ▸ Nat.zero_lt_one)
  exact ⟨evs, _, c₁, evs', c₂, c₃, hrun, hone, (targetMounts "/c" "/t").1 _ _ hrun, hstart, hrun',
    hret, (targetMounts "/c" "/t").2 _ _ hrun 0 ⟨"v", "/t"⟩ c₁ evs' c₂ c₃ rfl
      (fun _ _ h => nomatch h)
      hstart hrun' hret⟩

/-- Two publishes of one target that both ask before either of them mounts: they leave two mounts,
and an unpublish leaves one. -/
theorem targetMounts_race :
    ¬ AtMostOneMount "/c" "/t" (AnyStep (targetSystem "/c")) ∧
      ¬ UnpublishClears "/c" "/t" (AnyStep (targetSystem "/c")) := by
  let S := targetSystem "/c"
  let ctx := [("storePath", "/nix/store/a"), ("closurePaths", "a")]
  let req : NodePublishVolumeRequest := ⟨"v", "/t", ctx⟩
  let rest : Prog nodeInterface Reply := (nodeService "/c").publishContext ctx "/t"
  let w₀ : String → ℕ := fun _ => 0
  let w₁ := Function.update w₀ "/t" 1
  let w₂ := Function.update w₁ "/t" (w₁ "/t" + 1)
  have hprog : (nodeService "/c").handle (.publish req)
      = .call (.isMountpoint "/t") fun r => if r = true then .pure .ok else rest := by
    rw [NodeService.handle, NodeService.nodePublishVolume, if_neg (by decide), if_neg (by decide)]
    rfl
  -- both begin, and the first one asks
  let c₁ : S.Config := (Config.idle w₀).set 0 (some ⟨.publish req, S.program (.publish req)⟩)
  let c₂ : S.Config := c₁.set 1 (some ⟨.publish req, S.program (.publish req)⟩)
  let c₃ : S.Config := c₂.set 0 (some ⟨.publish req, rest⟩)
  have hrun₁ : Run S (AnyStep S) (Config.idle w₀) [.start 0 (.publish req)] c₁ :=
    .snoc .nil trivial (.start rfl rfl)
  have hrun₂ : Run S (AnyStep S) c₁ [.start 1 (.publish req)] c₂ :=
    .snoc .nil trivial (.start (Config.set_of_ne _ _ (by decide)) rfl)
  have hrun₃ : Run S (AnyStep S) c₂ [.op 0 (NodeOp.isMountpoint "/t") false] c₃ := by
    have hproc : c₂.procs 0 = some ⟨.publish req, (nodeService "/c").handle (.publish req)⟩ :=
      (Config.set_of_ne _ _ (by decide)).trans (Config.set_self _ _ _)
    rw [hprog] at hproc
    exact .snoc .nil trivial (.op hproc ⟨rfl, rfl⟩)
  -- the second one runs to its end, and then the first one
  have hsolo₁ : Solo S (fun _ _ _ _ => True) 1 (S.program (.publish req)) w₀ .ok w₁ :=
    solo_publish (fun _ _ _ => trivial) req (by decide) (by decide) rfl rfl (by decide) rfl
  obtain ⟨evs₄, hrun₄⟩ := hsolo₁.steps (P := AnyStep S) (c := c₃) (fun _ _ _ _ _ => trivial) rfl
    ((Config.set_of_ne _ _ (by decide)).trans (Config.set_self _ _ _))
  have hrun₅ := @Run.ret S (AnyStep S) 1 c₃ (.publish req) .ok w₁ trivial
  let c₅ : S.Config := { c₃ with world := w₁ }.set 1 none
  have hsolo₂ : Solo S (fun _ _ _ _ => True) 0 rest w₁ .ok w₂ :=
    solo_publishContext (fun _ _ _ => trivial) rfl rfl (by decide) w₁
  have hproc₅ : c₅.procs 0 = some ⟨.publish req, rest⟩ :=
    (Config.set_of_ne _ _ (by decide)).trans (Config.set_self c₂ 0 _)
  obtain ⟨evs₆, hrun₆⟩ := hsolo₂.steps (P := AnyStep S) (fun _ _ _ _ _ => trivial) rfl hproc₅
  have hrun₇ := @Run.ret S (AnyStep S) 0 c₅ (.publish req) .ok w₂ trivial
  have hrun := (((((hrun₁.append hrun₂).append hrun₃).append hrun₄).append hrun₅).append
    hrun₆).append hrun₇
  have hidle : { c₅ with world := w₂ }.set 0 none = (Config.idle w₂ : S.Config) := by
    refine Config.eq_idle (c := { c₅ with world := w₂ }.set 0 none) fun p => ?_
    by_cases h0 : p = 0
    · subst h0
      exact Config.set_self _ _ _
    rw [Config.set_of_ne _ _ h0]
    by_cases h1 : p = 1
    · subst h1
      exact Config.set_self { c₃ with world := w₁ } 1 none
    have h₅ : c₅.procs p = c₃.procs p := Config.set_of_ne _ _ h1
    have h₃ : c₃.procs p = c₂.procs p := Config.set_of_ne _ _ h0
    have h₂ : c₂.procs p = c₁.procs p := Config.set_of_ne _ _ h1
    have h₁ : c₁.procs p = none := Config.set_of_ne _ _ h0
    exact h₅.trans (h₃.trans (h₂.trans h₁))
  rw [hidle] at hrun
  have htwo : w₂ "/t" = 2 := by decide
  constructor
  · intro h
    have hle : w₂ "/t" ≤ 1 := h _ _ hrun
    omega
  · intro h
    obtain ⟨d₁, evs', d₂, d₃, hstart, hrun', hret, hworld⟩ :=
      unpublish_window ⟨"v", "/t"⟩ (p := 0) (w := w₂) (by decide) (by decide)
        (htwo ▸ Nat.zero_lt_two)
    have hzero := h _ _ hrun 0 ⟨"v", "/t"⟩ d₁ evs' d₂ d₃ rfl (fun _ _ h => nomatch h) hstart hrun'
      hret
    rw [hzero] at hworld
    exact absurd (hworld.trans (congrArg (· - 1) htwo)) (by decide)

end Niphas
