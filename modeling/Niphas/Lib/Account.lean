import Niphas.Lib.Monitor

/-!
# Accounts of a run

A monitor tells of a program what it may call when, from the notes of its own calls.  What these
notes say of the world is another matter, and depends on what the other processes do to it.  An
account puts the two together: an invariant of the world, and what is known of the world from the
notes of a process.  The world need not keep the notes itself.

Whoever gives an account proves something of each kind of step: that the invariant survives it, what
the process that makes it knows then, and that the others still know what they knew.  What a process
may call is not among this; it is shown of the program alone (`Monitor.Shows`), and is a hypothesis
here.  Only steps that are looked at count (`Monitor.Terms`), in the configurations that are looked
at, so an account may be about runs in which calls do not overlap, or in which certain calls do not
fail.

* `Monitor.Account` — an invariant, what a process knows, and that every step keeps both.
* `Monitor.Account.run` — they hold in every state of a run.
* `System.Serial`, `System.Config.Single` — runs in which calls do not overlap, so that no process
  has to put up with another one.
-/

open System

namespace Monitor

variable {S : System}

/-- What is shown of the calls of a process, and the runs that are looked at. -/
structure Terms (S : System) (M : Monitor S.iface) where
  ok : S.Call → M.Notes → S.iface.Op → Prop
  post : S.Call → S.Out → M.Notes → Prop
  /-- What holds of every configuration of the runs. -/
  config : S.Config → Prop
  step : S.Config → S.Event → Prop

/-- What the others know stays so. -/
def Spares {M : Monitor S.iface} (knows : S.World → ℕ → S.Call → M.Notes → Prop) (c : S.Config)
    (p : ℕ) (w : S.World) : Prop :=
  ∀ q proc s, q ≠ p → c.procs q = some proc → knows c.world q proc.call s → knows w q proc.call s

/-- An invariant of the world, and what a process knows of the world by its notes. -/
structure Account (M : Monitor S.iface) (T : Terms S M) where
  inv : S.World → Prop
  knows : S.World → ℕ → S.Call → M.Notes → Prop
  start : ∀ {c : S.Config} {p call w}, T.config c → T.step c (.start p call) →
    c.procs p = none → inv c.world → S.begins c.world c.calls p call w →
      inv w ∧ knows w p call M.start ∧ Spares knows c p w
  op : ∀ {c : S.Config} {p call o k r w s}, T.config c → T.step c (.op p o r) →
    c.procs p = some { call, rest := .call o k } → inv c.world → knows c.world p call s →
      T.ok call s o → S.sem p o c.world r w →
        inv w ∧ knows w p call (M.note s o r) ∧ Spares knows c p w
  env : ∀ {w w'}, inv w → S.env w w' →
    inv w' ∧ ∀ p call s, knows w p call s → knows w' p call s
  crash : ∀ {w w'}, inv w → S.crash w w' → inv w'

namespace Account

variable {M : Monitor S.iface} {T : Terms S M} (A : Account M T)

/-- A process shows what its call shows from some notes on, and knows what it does by them. -/
def Knows (w : S.World) (p : ℕ) (proc : S.Process) : Prop :=
  ∃ s, M.Shows (T.ok proc.call) (T.post proc.call) proc.rest s ∧ A.knows w p proc.call s

/-- The account is right. -/
structure Holds (c : S.Config) : Prop where
  config : T.config c
  inv : A.inv c.world
  knows : ∀ p proc, c.procs p = some proc → A.Knows c.world p proc

variable {A}

/-- **Step lemma.** -/
lemma Holds.step (hconfig : ∀ {c ev c'}, T.config c → T.step c ev → Step S c ev c' → T.config c')
    (hshows : ∀ call, M.Shows (T.ok call) (T.post call) (S.program call) M.start)
    {c c' : S.Config} {ev : S.Event} (hc : A.Holds c) (hev : T.step c ev) (hs : Step S c ev c') :
    A.Holds c' := by
  have hconfig' := hconfig hc.config hev hs
  -- the process that moves, and the others
  have key : ∀ (w : S.World) p proc', A.inv w → Spares A.knows c p w →
      (∀ proc, proc' = some proc → A.Knows w p proc) →
      T.config ({ c with world := w }.set p proc') →
        A.Holds ({ c with world := w }.set p proc') := by
    intro w p proc' hinv hspares hself hcfg
    refine ⟨hcfg, hinv, fun q proc hq => ?_⟩
    rcases Config.set_eq_some hq with ⟨rfl, hmoved⟩ | ⟨hqp, hold⟩
    · exact hself proc hmoved
    · obtain ⟨s, hshows', hknows⟩ := hc.knows q proc hold
      exact ⟨s, hshows', hspares q proc s hqp hold hknows⟩
  cases hs with
  | @start p call w hp hbegin =>
      obtain ⟨hinv, hknows, hspares⟩ := A.start hc.config hev hp hc.inv hbegin
      refine key w p _ hinv hspares (fun proc hproc => ?_) hconfig'
      cases hproc
      exact ⟨M.start, hshows call, hknows⟩
  | @op p call o k r w hp hsem =>
      obtain ⟨s, hshows', hknows⟩ := hc.knows p _ hp
      obtain ⟨hinv, hknows', hspares⟩ := A.op hc.config hev hp hc.inv hknows hshows'.1 hsem
      refine key w p _ hinv hspares (fun proc hproc => ?_) hconfig'
      cases hproc
      exact ⟨_, hshows'.2 r, hknows'⟩
  | @ret p call out hp =>
      exact key c.world p none hc.inv (fun _ _ _ _ _ h => h) (fun _ h => by cases h) hconfig'
  | @env w henv =>
      obtain ⟨hinv, hknows⟩ := A.env hc.inv henv
      refine ⟨hconfig', hinv, fun p proc hp => ?_⟩
      obtain ⟨s, hshows', hs⟩ := hc.knows p proc hp
      exact ⟨s, hshows', hknows p _ s hs⟩
  | crash hcrash => exact ⟨hconfig', A.crash hc.inv hcrash, fun _ _ h => by cases h⟩

/-- **Run lemma.** -/
theorem run (hconfig : ∀ {c ev c'}, T.config c → T.step c ev → Step S c ev c' → T.config c')
    (hshows : ∀ call, M.Shows (T.ok call) (T.post call) (S.program call) M.start)
    {w : S.World} (hidle : T.config (Config.idle w)) (hw : A.inv w) {evs : List S.Event}
    {c : S.Config} (hrun : Run S T.step (Config.idle w) evs c) : A.Holds c :=
  hrun.invariant (fun hc hev hs => hc.step hconfig hshows hev hs)
    ⟨hidle, hw, fun _ _ h => by cases h⟩

/-- What a process is about to call is as its notes say. -/
lemma Holds.ok {c : S.Config} (h : A.Holds c) {p : ℕ} {call : S.Call} {o : S.iface.Op}
    {k : S.iface.Answer o → Prog S.iface S.Out}
    (hp : c.procs p = some { call, rest := .call o k }) :
    ∃ s, T.ok call s o ∧ A.knows c.world p call s := by
  obtain ⟨s, hshows, hknows⟩ := h.knows p _ hp
  exact ⟨s, hshows.1, hknows⟩

/-- So is what it returns. -/
lemma Holds.post {c : S.Config} (h : A.Holds c) {p : ℕ} {call : S.Call} {out : S.Out}
    (hp : c.procs p = some { call, rest := .pure out }) :
    ∃ s, T.post call out s ∧ A.knows c.world p call s := by
  obtain ⟨s, hshows, hknows⟩ := h.knows p _ hp
  exact ⟨s, hshows, hknows⟩

end Account

end Monitor

/-! ## Calls that do not overlap -/

namespace System

variable {S : System}

/-- At most one call is under way. -/
def Config.Single (c : S.Config) : Prop :=
  ∀ p q proc proc', c.procs p = some proc → c.procs q = some proc' → p = q

/-- A call begins only where none is under way. -/
def Serial (S : System) (c : S.Config) : S.Event → Prop
  | .start _ _ => ∀ q, c.procs q = none
  | _ => True

lemma Config.single_idle (w : S.World) : (Config.idle w).Single := fun _ _ _ _ h => by cases h

lemma Config.Single.step {c c' : S.Config} {ev : S.Event} (hc : c.Single) (hev : Serial S c ev)
    (hs : Step S c ev c') : c'.Single := by
  -- only the process that moves can be there
  have key : ∀ (w : S.World) p proc, (∀ q proc', c.procs q = some proc' → q = p) →
      ({ c with world := w }.set p proc).Single := by
    have hself : ∀ (w : S.World) p proc, (∀ q proc', c.procs q = some proc' → q = p) →
        ∀ q proc', ({ c with world := w }.set p proc).procs q = some proc' → q = p := by
      intro w p proc honly q proc' hq
      rcases Config.set_eq_some hq with ⟨rfl, -⟩ | ⟨-, hold⟩
      · rfl
      · exact honly q proc' hold
    intro w p proc honly q q' proc' proc'' hq hq'
    exact (hself w p proc honly q proc' hq).trans (hself w p proc honly q' proc'' hq').symm
  cases hs with
  | start _ _ =>
      refine key _ _ _ fun q proc' hq => ?_
      rw [hev q] at hq
      cases hq
  | op hp _ => exact key _ _ _ fun q proc' hq => hc q _ _ _ hq hp
  | ret hp => exact key c.world _ none fun q proc' hq => hc q _ _ _ hq hp
  | env _ => exact hc
  | crash _ => exact Config.single_idle _

/-- No other process is there to be spared. -/
lemma Config.Single.spares {c : S.Config} (hc : c.Single) {M : Monitor S.iface}
    {knows : S.World → ℕ → S.Call → M.Notes → Prop} {p : ℕ} {proc : S.Process}
    (hp : c.procs p = some proc) (w : S.World) : Monitor.Spares knows c p w :=
  fun q _ _ hqp hq _ => absurd (hc q p _ _ hq hp) hqp

end System
