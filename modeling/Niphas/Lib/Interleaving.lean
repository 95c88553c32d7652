import Mathlib.Data.Nat.Notation
import Mathlib.Logic.Function.Basic
import Mathlib.Logic.Relation
import Niphas.Lib.Prog

/-!
# Interleaved runs of programs

A system is a world that any number of processes work on.  Each process runs one call of the
system's program; a step of the system is a step of one process, the begin or the end of a call, a
step of the surroundings, or a crash, which ends all processes at once and leaves the world.

The program of a call is a `Prog`, so "what is left of a process" is a value, and a property of
processes can be one of the programs that are left.  An operation is one step.  What it may answer
and leave is a relation, which says at the same time when it blocks: an operation without an answer
cannot be carried out, and its process waits.

There are two ways to prove something of all runs.  A property of the configuration that every step
keeps holds by `Run.invariant`.  Where the steps of one process are to be looked at one after the
other, they are given a contract with the rest: what the process relies on, and what it guarantees
(`RelyGuarantee`).  Then each program is shown to be `Safe` on its own, and `sound` puts them
together, once and for all.  Runs are put together from calls that run alone, in whole or in part.

* `System.Run P` — the runs whose steps all meet the condition `P`.
* `System.Run.invariant` — what every step keeps holds in every state of a run.
* `System.Solo`, `System.Goes` — calls that nothing comes between, whole or in part; `Reaches` puts
  them together to runs.
* `RelyGuarantee.Safe` — a program does its part of an invariant, and reaches its postcondition, as
  long as the other processes only do what it relies on.
* `RelyGuarantee.sound` — when every call is safe, the invariant holds throughout every run and
  every process is where its program says.
-/

/-- A world, the calls that may be made on it, and what their operations do to it. -/
structure System where
  iface : Interface
  World : Type
  Call : Type
  Out : Type
  /-- The program of a call. -/
  program : Call → Prog iface Out
  /-- `sem p o w r w'`: in the world `w`, the operation `o` of process `p` may answer `r` and
  leave `w'`. -/
  sem : ℕ → (o : iface.Op) → World → iface.Answer o → World → Prop
  /-- `begins w calls p call w'`: in the world `w`, with `calls` under way, the process `p` may
  begin `call`, which makes the world `w'`. -/
  begins : World → (ℕ → Option Call) → ℕ → Call → World → Prop
  /-- What the surroundings may do by themselves. -/
  env : World → World → Prop
  /-- What a crash leaves. -/
  crash : World → World → Prop

namespace System

/-- A call under way, and what is left of its program. -/
structure Process (S : System) where
  call : S.Call
  rest : Prog S.iface S.Out

/-- The world and the processes working on it. -/
structure Config (S : System) where
  world : S.World
  procs : ℕ → Option S.Process

/-- The calls under way. -/
def Config.calls {S : System} (c : S.Config) (p : ℕ) : Option S.Call :=
  (c.procs p).map Process.call

/-- Nothing is under way. -/
def Config.idle {S : System} (w : S.World) : S.Config := { world := w, procs := fun _ => none }

/-- Process `p` is now at `proc`, or gone. -/
def Config.set {S : System} (c : S.Config) (p : ℕ) (proc : Option S.Process) : S.Config :=
  { c with procs := Function.update c.procs p proc }

@[simp] lemma Config.set_world {S : System} (c : S.Config) (p : ℕ) (proc : Option S.Process) :
    (c.set p proc).world = c.world := rfl

@[simp] lemma Config.set_self {S : System} (c : S.Config) (p : ℕ) (proc : Option S.Process) :
    (c.set p proc).procs p = proc := Function.update_self _ _ _

lemma Config.set_of_ne {S : System} (c : S.Config) {p q : ℕ} (proc : Option S.Process)
    (h : q ≠ p) : (c.set p proc).procs q = c.procs q := Function.update_of_ne h _ _

/-- A process after `p` has moved: it is `p`, or it is where it was. -/
lemma Config.set_eq_some {S : System} {c : S.Config} {p q : ℕ} {proc' : Option S.Process}
    {proc : S.Process} (h : (c.set p proc').procs q = some proc) :
    (q = p ∧ proc' = some proc) ∨ (q ≠ p ∧ c.procs q = some proc) := by
  by_cases hqp : q = p
  · subst hqp
    exact .inl ⟨rfl, by rwa [Config.set_self] at h⟩
  · exact .inr ⟨hqp, by rwa [Config.set_of_ne _ _ hqp] at h⟩

/-- A process is still under way when another one has moved. -/
lemma Config.set_of_eq_some {S : System} {c : S.Config} {p q : ℕ} {proc : S.Process}
    (proc' : Option S.Process) (hp : c.procs p = none) (hq : c.procs q = some proc) :
    (c.set p proc').procs q = some proc := by
  rw [Config.set_of_ne]
  · exact hq
  · rintro rfl
    cases hp.symm.trans hq

/-- Only where a process is last counts. -/
lemma Config.set_set {S : System} (c : S.Config) (w : S.World) (p : ℕ)
    (proc proc' : Option S.Process) :
    { c.set p proc with world := w }.set p proc' = { c with world := w }.set p proc' := by
  simp only [Config.set, Function.update_idem]

lemma Config.set_idem {S : System} (c : S.Config) (p : ℕ) (proc proc' : Option S.Process) :
    (c.set p proc).set p proc' = c.set p proc' := Config.set_set c c.world p proc proc'

lemma Config.set_eq_self {S : System} {c : S.Config} {p : ℕ} {proc : Option S.Process}
    (h : c.procs p = proc) : c.set p proc = c := by
  rw [Config.set, ← h, Function.update_eq_self]

/-- A configuration with nothing under way. -/
lemma Config.eq_idle {S : System} {c : S.Config} (h : ∀ p, c.procs p = none) :
    c = Config.idle c.world := congrArg (Config.mk c.world) (funext h)

/-- A configuration with one process under way. -/
lemma Config.eq_lone {S : System} {c : S.Config} {p : ℕ} (h : ∀ q, q ≠ p → c.procs q = none) :
    c = (Config.idle c.world).set p (c.procs p) := by
  refine congrArg (Config.mk c.world) (funext fun q => ?_)
  by_cases hq : q = p
  · subst hq
    exact (Config.set_self (Config.idle c.world) q (c.procs q)).symm
  · exact (h q hq).trans (Config.set_of_ne (Config.idle c.world) (c.procs p) hq).symm

/-- What happens in one step. -/
inductive Event (S : System) where
  | start (p : ℕ) (call : S.Call)
  | op (p : ℕ) (o : S.iface.Op) (r : S.iface.Answer o)
  | ret (p : ℕ) (out : S.Out)
  | env
  | crash

/-- One step of a system. -/
inductive Step (S : System) : S.Config → S.Event → S.Config → Prop
  | start {c : S.Config} {p : ℕ} {call : S.Call} {w : S.World} :
      c.procs p = none → S.begins c.world c.calls p call w →
        Step S c (.start p call)
          ({ c with world := w }.set p (some { call, rest := S.program call }))
  | op {c : S.Config} {p : ℕ} {call : S.Call} {o : S.iface.Op}
      {k : S.iface.Answer o → Prog S.iface S.Out} {r : S.iface.Answer o} {w : S.World} :
      c.procs p = some { call, rest := .call o k } → S.sem p o c.world r w →
        Step S c (.op p o r) ({ c with world := w }.set p (some { call, rest := k r }))
  | ret {c : S.Config} {p : ℕ} {call : S.Call} {out : S.Out} :
      c.procs p = some { call, rest := .pure out } →
        Step S c (.ret p out) (c.set p none)
  | env {c : S.Config} {w : S.World} :
      S.env c.world w → Step S c .env { c with world := w }
  | crash {c : S.Config} {w : S.World} :
      S.crash c.world w → Step S c .crash (Config.idle w)

/-- A run from `c` to `c'` with the events `evs`, each of which meets the condition `P` in the
state it happens in. -/
inductive Run (S : System) (P : S.Config → S.Event → Prop) :
    S.Config → List S.Event → S.Config → Prop
  | nil {c : S.Config} : Run S P c [] c
  | snoc {c c' c'' : S.Config} {evs : List S.Event} {ev : S.Event} :
      Run S P c evs c' → P c' ev → Step S c' ev c'' → Run S P c (evs ++ [ev]) c''

variable {S : System} {P : S.Config → S.Event → Prop}

/-- The condition every step meets. -/
abbrev AnyStep (S : System) : S.Config → S.Event → Prop := fun _ _ => True

/-- **What every step keeps holds in every state of a run.** -/
theorem Run.invariant {Inv : S.Config → Prop}
    (hstep : ∀ {c ev c'}, Inv c → P c ev → Step S c ev c' → Inv c')
    {c c' : S.Config} {evs : List S.Event} (hrun : Run S P c evs c') (hc : Inv c) : Inv c' := by
  induction hrun with
  | nil => exact hc
  | snoc _ hP hs ih => exact hstep ih hP hs

lemma Run.imp {Q : S.Config → S.Event → Prop} (h : ∀ c ev, P c ev → Q c ev) {c c' : S.Config}
    {evs : List S.Event} (hrun : Run S P c evs c') : Run S Q c evs c' := by
  induction hrun with
  | nil => exact .nil
  | snoc _ hP hs ih => exact .snoc ih (h _ _ hP) hs

lemma Run.append {c c' c'' : S.Config} {evs evs' : List S.Event} (h : Run S P c evs c')
    (h' : Run S P c' evs' c'') : Run S P c (evs ++ evs') c'' := by
  induction h' with
  | nil => rwa [List.append_nil]
  | snoc _ hP hs ih =>
      rw [← List.append_assoc]
      exact .snoc ih hP hs

/-- What a step of a process is. -/
lemma Step.of_op {c c' : S.Config} {p : ℕ} {o : S.iface.Op} {r : S.iface.Answer o}
    (hs : Step S c (.op p o r) c') : ∃ call k w, c.procs p = some { call, rest := .call o k } ∧
      S.sem p o c.world r w ∧
        c' = { c with world := w }.set p (some { call, rest := k r }) := by
  cases hs with
  | op hp hsem => exact ⟨_, _, _, hp, hsem, rfl⟩

/-- A call goes on until it returns. -/
lemma Step.call_eq {c c' : S.Config} {ev : S.Event} (hs : Step S c ev c') {p : ℕ}
    {proc : S.Process} (hp : c.procs p = some proc) (hret : ∀ out, ev ≠ .ret p out)
    (hcrash : ev ≠ .crash) : ∃ proc', c'.procs p = some proc' ∧ proc'.call = proc.call := by
  cases hs with
  | @start q call w hq =>
      exact ⟨proc, Config.set_of_eq_some _ hq hp, rfl⟩
  | @op q call o k r w hq =>
      by_cases hpq : p = q
      · subst hpq
        rw [hq, Option.some.injEq] at hp
        subst hp
        exact ⟨_, Config.set_self _ _ _, rfl⟩
      · exact ⟨proc, (Config.set_of_ne _ _ hpq).trans hp, rfl⟩
  | @ret q call out hq =>
      have hne : p ≠ q := by
        rintro rfl
        exact hret out rfl
      exact ⟨proc, (Config.set_of_ne _ _ hne).trans hp, rfl⟩
  | env => exact ⟨proc, hp, rfl⟩
  | crash => exact absurd rfl hcrash

/-- What is so of every process stays so, if it is so of a process that begins, and no step, whoever
makes it, breaks it. -/
lemma Step.each {R : ℕ → S.Process → S.World → Prop} {c c' : S.Config} {ev : S.Event}
    (hs : Step S c ev c') (hc : ∀ p proc, c.procs p = some proc → R p proc c.world)
    (hstart : ∀ p call w, ev = .start p call → S.begins c.world c.calls p call w →
      R p { call, rest := S.program call } w ∧
        ∀ q proc, q ≠ p → R q proc c.world → R q proc w)
    (hop : ∀ p call o k r w, ev = .op p o r → c.procs p = some { call, rest := .call o k } →
      S.sem p o c.world r w → R p { call, rest := k r } w ∧
        ∀ q proc, q ≠ p → R q proc c.world → R q proc w)
    (henv : ∀ w, S.env c.world w → ∀ q proc, R q proc c.world → R q proc w) :
    ∀ p proc, c'.procs p = some proc → R p proc c'.world := by
  -- only the process that moves is at another place
  have key : ∀ (w : S.World) q proc', (∀ proc, proc' = some proc → R q proc w) →
      (∀ p proc, p ≠ q → R p proc c.world → R p proc w) →
      ∀ p proc, ({ c with world := w }.set q proc').procs p = some proc → R p proc w := by
    intro w q proc' hself hothers p proc hp
    rcases Config.set_eq_some hp with ⟨rfl, hmoved⟩ | ⟨hpq, hold⟩
    · exact hself proc hmoved
    · exact hothers p proc hpq (hc p proc hold)
  cases hs with
  | start _ hbegin =>
      refine key _ _ _ (fun proc hproc => ?_) (hstart _ _ _ rfl hbegin).2
      cases hproc
      exact (hstart _ _ _ rfl hbegin).1
  | op hp hsem =>
      refine key _ _ _ (fun proc hproc => ?_) (hop _ _ _ _ _ _ rfl hp hsem).2
      cases hproc
      exact (hop _ _ _ _ _ _ rfl hp hsem).1
  | ret _ => exact key c.world _ none (fun proc hproc => by cases hproc) fun _ _ _ h => h
  | env hw => exact fun p proc hp => henv _ hw p proc (hc p proc hp)
  | crash _ => exact fun p proc hp => by cases hp

/-- What is so of the program of every call when it begins, and stays so with every answer, is so of
what is left of every process. -/
lemma Run.rest {R : S.Call → Prog S.iface S.Out → Prop} (hstart : ∀ call, R call (S.program call))
    (hop : ∀ {call o k} r, R call (.call o k) → R call (k r)) {w : S.World} {c : S.Config}
    {evs : List S.Event} (hrun : Run S P (Config.idle w) evs c) :
    ∀ p proc, c.procs p = some proc → R proc.call proc.rest := by
  refine hrun.invariant
    (fun hc _ hs => hs.each (R := fun _ proc _ => R proc.call proc.rest) hc ?_ ?_
    fun _ _ _ _ h => h) fun p proc hp => by cases hp
  · exact fun _ call _ _ _ => ⟨hstart call, fun _ _ _ h => h⟩
  · exact fun _ _ _ _ r _ _ hp _ => ⟨hop r (hc _ _ hp), fun _ _ _ h => h⟩

/-- What the program of a call may do at all. -/
lemma Run.rest_all {Q : S.Call → S.iface.Op → Prop} (hQ : ∀ call, (S.program call).All (Q call))
    {w : S.World} {c : S.Config} {evs : List S.Event} (hrun : Run S P (Config.idle w) evs c) {p : ℕ}
    {proc : S.Process} (hp : c.procs p = some proc) : proc.rest.All (Q proc.call) :=
  hrun.rest (R := fun call rest => rest.All (Q call)) hQ (fun r h => h.2 r) p proc hp

/-! ## Calls that run alone

These are not a restriction of what a system can do, but a way to exhibit some of its runs.
-/

/-- Which operations with which answers are considered, in which worlds. -/
abbrev OpCond (S : System) := ℕ → (o : S.iface.Op) → S.iface.Answer o → S.World → Prop

/-- Process `p` runs a program from `w` to its end with nothing in between, and every operation
meets the condition `Q`. -/
inductive Solo (S : System) (Q : S.OpCond) (p : ℕ) {α : Type} :
    Prog S.iface α → S.World → α → S.World → Prop
  | pure {a : α} {w : S.World} : Solo S Q p (.pure a) w a w
  | call {o : S.iface.Op} {k : S.iface.Answer o → Prog S.iface α} {r : S.iface.Answer o}
      {a : α} {w w' w'' : S.World} :
      S.sem p o w r w' → Q p o r w → Solo S Q p (k r) w' a w'' → Solo S Q p (.call o k) w a w''

variable {Q : S.OpCond} {p : ℕ}

lemma Solo.bind {α β : Type} {prog : Prog S.iface α} {f : α → Prog S.iface β} {a : α}
    {b : β} {w w' w'' : S.World} (h : Solo S Q p prog w a w') (h' : Solo S Q p (f a) w' b w'') :
    Solo S Q p (prog >>= f) w b w'' := by
  induction h with
  | pure => exact h'
  | call hs hq _ ih => exact .call hs hq (ih h')

/-- Fewer conditions on the operations. -/
lemma Solo.imp {Q' : S.OpCond} (hQ : ∀ o r w, Q p o r w → Q' p o r w) {α : Type}
    {prog : Prog S.iface α} {a : α} {w w' : S.World} (h : Solo S Q p prog w a w') :
    Solo S Q' p prog w a w' := by
  induction h with
  | pure => exact .pure
  | call hs hq _ ih => exact .call hs (hQ _ _ _ hq) ih

/-- A program that may return early, and does not. -/
lemma Solo.bindExcept {ε α β : Type} {prog : ExceptT ε (Prog S.iface) α}
    {f : α → ExceptT ε (Prog S.iface) β} {a : α} {r : Except ε β} {w w' w'' : S.World}
    (h : Solo S Q p prog.run w (.ok a) w') (h' : Solo S Q p (f a).run w' r w'') :
    Solo S Q p (prog >>= f).run w r w'' := by
  rw [ExceptT.run_bind]
  exact h.bind h'

/-- A program that returns early. -/
lemma Solo.bindError {ε α β : Type} {prog : ExceptT ε (Prog S.iface) α}
    {f : α → ExceptT ε (Prog S.iface) β} {e : ε} {w w' : S.World}
    (h : Solo S Q p prog.run w (.error e) w') : Solo S Q p (prog >>= f).run w (.error e) w' := by
  rw [ExceptT.run_bind]
  exact h.bind .pure

lemma Solo.liftExcept {ε : Type} {o : S.iface.Op} {r : S.iface.Answer o} {w w' : S.World}
    (hs : S.sem p o w r w') (hq : Q p o r w) :
    Solo S Q p (ExceptT.lift (Prog.op o) : ExceptT ε (Prog S.iface) _).run w (.ok r) w' :=
  .call hs hq .pure

lemma Solo.of_pure {α : Type} {a b : α} {w w' : S.World} (h : Solo S Q p (.pure a) w b w') :
    b = a ∧ w' = w := by
  cases h
  exact ⟨rfl, rfl⟩

lemma Solo.of_op {o : S.iface.Op} {r : S.iface.Answer o} {w w' : S.World}
    (h : Solo S Q p (Prog.op o) w r w') : S.sem p o w r w' := by
  cases h with
  | call hs _ h =>
      obtain ⟨rfl, rfl⟩ := Solo.of_pure h
      exact hs

/-- The calls it makes. -/
lemma Solo.runs {α : Type} {prog : Prog S.iface α} {a : α} {w w' : S.World}
    (h : Solo S Q p prog w a w') : ∃ log, prog.Runs (S.sem p) w log a w' := by
  induction h with
  | pure => exact ⟨[], .pure _ _⟩
  | call hs _ _ ih =>
      obtain ⟨log, hrun⟩ := ih
      exact ⟨_, .call hs hrun⟩

/-- A sequence runs one part after the other. -/
lemma Solo.of_bind {α β : Type} {prog : Prog S.iface α} {f : α → Prog S.iface β} {b : β}
    {w w'' : S.World} (h : Solo S Q p (prog >>= f) w b w'') :
    ∃ a w', Solo S Q p prog w a w' ∧ Solo S Q p (f a) w' b w'' := by
  induction prog generalizing w with
  | pure a => exact ⟨a, w, .pure, h⟩
  | call o k ih =>
      cases h with
      | call hs hq h =>
          obtain ⟨a, w', h₁, h₂⟩ := ih _ h
          exact ⟨a, w', .call hs hq h₁, h₂⟩

/-- Process `p` goes on from one program to another with nothing in between, and every operation
meets the condition `Q`. -/
inductive Goes (S : System) (Q : S.OpCond) (p : ℕ) {α : Type} :
    Prog S.iface α → S.World → Prog S.iface α → S.World → Prop
  | refl {prog : Prog S.iface α} {w : S.World} : Goes S Q p prog w prog w
  | call {o : S.iface.Op} {k : S.iface.Answer o → Prog S.iface α} {r : S.iface.Answer o}
      {prog : Prog S.iface α} {w w' w'' : S.World} :
      S.sem p o w r w' → Q p o r w → Goes S Q p (k r) w' prog w'' →
        Goes S Q p (.call o k) w prog w''

lemma Solo.goes {α : Type} {prog : Prog S.iface α} {a : α} {w w' : S.World}
    (h : Solo S Q p prog w a w') : Goes S Q p prog w (.pure a) w' := by
  induction h with
  | pure => exact .refl
  | call hs hq _ ih => exact .call hs hq ih

lemma Goes.solo {α : Type} {prog prog' : Prog S.iface α} {a : α} {w w' : S.World}
    (h : Goes S Q p prog w prog' w') (hend : prog' = .pure a) : Solo S Q p prog w a w' := by
  induction h with
  | refl =>
      subst hend
      exact .pure
  | call hs hq _ ih => exact .call hs hq (ih hend)

lemma Goes.trans {α : Type} {prog prog' prog'' : Prog S.iface α} {w w' w'' : S.World}
    (h : Goes S Q p prog w prog' w') (h' : Goes S Q p prog' w' prog'' w'') :
    Goes S Q p prog w prog'' w'' := by
  induction h with
  | refl => exact h'
  | call hs hq _ ih => exact .call hs hq (ih h')

/-- The first part of a sequence goes on. -/
lemma Goes.bind {α β : Type} {prog prog' : Prog S.iface α} {f : α → Prog S.iface β}
    {w w' : S.World} (h : Goes S Q p prog w prog' w') :
    Goes S Q p (prog >>= f) w (prog' >>= f) w' := by
  induction h with
  | refl => exact .refl
  | call hs hq _ ih => exact .call hs hq ih

/-- The first part of a sequence is run, and the rest goes on. -/
lemma Solo.then {α β : Type} {prog : Prog S.iface α} {f : α → Prog S.iface β} {a : α}
    {prog' : Prog S.iface β} {w w' w'' : S.World} (h : Solo S Q p prog w a w')
    (h' : Goes S Q p (f a) w' prog' w'') : Goes S Q p (prog >>= f) w prog' w'' := by
  induction h with
  | pure => exact h'
  | call hs hq _ ih => exact .call hs hq (ih h')

lemma Solo.thenExcept {ε α β : Type} {prog : ExceptT ε (Prog S.iface) α}
    {f : α → ExceptT ε (Prog S.iface) β} {a : α} {prog' : ExceptT ε (Prog S.iface) β}
    {w w' w'' : S.World} (h : Solo S Q p prog.run w (.ok a) w')
    (h' : Goes S Q p (f a).run w' prog'.run w'') :
    Goes S Q p (prog >>= f).run w prog'.run w'' := by
  rw [ExceptT.run_bind]
  exact h.then h'

/-- The steps of a process that nothing comes between. -/
lemma Goes.steps {call : S.Call} {prog prog' : Prog S.iface S.Out} {w w' : S.World}
    (h : Goes S Q p prog w prog' w') :
    ∀ {c : S.Config},
      (∀ w rest o r, Q p o r w →
        P ({ c with world := w }.set p (some { call, rest })) (.op p o r)) → c.world = w →
        c.procs p = some { call, rest := prog } →
        ∃ evs, Run S P c evs ({ c with world := w' }.set p (some { call, rest := prog' })) := by
  induction h with
  | refl =>
      intro c _ hw hp
      subst hw
      rw [Config.set_eq_self hp]
      exact ⟨[], .nil⟩
  | @call o k r prog' w w₁ w' hs hq _ ih =>
      intro c hP hw hp
      subst hw
      have hPc : P c (.op p o r) := by
        have hc := hP c.world (.call o k) o r hq
        rwa [Config.set_eq_self (c := { c with world := c.world }) hp] at hc
      have hstep : Run S P c [.op p o r]
          ({ c with world := w₁ }.set p (some { call, rest := k r })) :=
        .snoc .nil hPc (.op hp hs)
      obtain ⟨evs, hrun⟩ := ih (c := { c with world := w₁ }.set p (some { call, rest := k r }))
        (fun w rest o r hq => by rw [Config.set_set]; exact hP w rest o r hq) rfl
        (Config.set_self _ _ _)
      rw [Config.set_set] at hrun
      exact ⟨_, hstep.append hrun⟩

/-- The steps of a call from its begin to its end. -/
lemma Solo.steps {call : S.Call} {prog : Prog S.iface S.Out} {out : S.Out} {w w' : S.World}
    (h : Solo S Q p prog w out w') {c : S.Config}
    (hP : ∀ w rest o r, Q p o r w →
      P ({ c with world := w }.set p (some { call, rest })) (.op p o r)) (hw : c.world = w)
    (hp : c.procs p = some { call, rest := prog }) :
    ∃ evs, Run S P c evs ({ c with world := w' }.set p (some { call, rest := .pure out })) :=
  h.goes.steps hP hw hp

/-- A process at its end returns. -/
lemma Run.ret {c : S.Config} {call : S.Call} {out : S.Out} {w : S.World}
    (hP : P ({ c with world := w }.set p (some { call, rest := .pure out })) (.ret p out)) :
    Run S P ({ c with world := w }.set p (some { call, rest := .pure out })) [.ret p out]
      ({ c with world := w }.set p none) := by
  have hret := Step.ret
    (Config.set_self { c with world := w } p (some { call, rest := .pure out }))
  rw [Config.set_idem] at hret
  exact .snoc .nil hP hret

/-- **A call that runs alone is a run**, from its begin to its end. -/
theorem Solo.run {call : S.Call} {out : S.Out} {w w₀ w' : S.World}
    (h : Solo S Q p (S.program call) w₀ out w')
    (hbegin : S.begins w (Config.idle w).calls p call w₀)
    (hstart : P (Config.idle w) (.start p call))
    (hop : ∀ w rest o r, Q p o r w →
      P ((Config.idle w).set p (some { call, rest })) (.op p o r))
    (hret : P ((Config.idle w').set p (some { call, rest := .pure out })) (.ret p out)) :
    ∃ evs, Run S P (Config.idle w) evs (Config.idle w') := by
  have hrun₁ : Run S P (Config.idle w) [.start p call]
      ((Config.idle w₀).set p (some { call, rest := S.program call })) :=
    .snoc .nil hstart (.start rfl hbegin)
  obtain ⟨evs, hrun₂⟩ := h.steps (P := P)
    (c := (Config.idle w₀).set p (some { call, rest := S.program call }))
    (fun w rest o r hq => by
      rw [Config.set_set]
      exact hop w rest o r hq) rfl (Config.set_self _ _ _)
  rw [Config.set_set] at hrun₂
  have hrun₃ := @Run.ret S P p (Config.idle w₀) call out w' hret
  have hidle : { Config.idle w₀ with world := w' }.set p none = Config.idle w' :=
    Config.set_eq_self (c := Config.idle w') rfl
  rw [hidle] at hrun₃
  exact ⟨_, (hrun₁.append hrun₂).append hrun₃⟩

/-! ## Calls that run in turns -/

/-- There is a run from one configuration to the other. -/
def Reaches (S : System) (P : S.Config → S.Event → Prop) (c c' : S.Config) : Prop :=
  ∃ evs, Run S P c evs c'

namespace Reaches

variable {c c' c'' : S.Config}

lemma refl (c : S.Config) : Reaches S P c c := ⟨[], .nil⟩

lemma trans (h : Reaches S P c c') (h' : Reaches S P c' c'') : Reaches S P c c'' := by
  obtain ⟨evs, hrun⟩ := h
  obtain ⟨evs', hrun'⟩ := h'
  exact ⟨_, hrun.append hrun'⟩

lemma step {ev : S.Event} (h : Reaches S P c c') (hP : P c' ev) (hs : Step S c' ev c'') :
    Reaches S P c c'' := by
  obtain ⟨evs, hrun⟩ := h
  exact ⟨_, .snoc hrun hP hs⟩

lemma imp {P' : S.Config → S.Event → Prop} (hP : ∀ c ev, P c ev → P' c ev)
    (h : Reaches S P c c') : Reaches S P' c c' := by
  obtain ⟨evs, hrun⟩ := h
  exact ⟨evs, hrun.imp hP⟩

/-- Nothing is under way any more. -/
lemma idle (h : Reaches S P c c') (hidle : ∀ p, c'.procs p = none) :
    Reaches S P c (Config.idle c'.world) := by
  rwa [← Config.eq_idle hidle]

/-- Nothing else is under way. -/
lemma lone (h : Reaches S P c c') {p : ℕ} (hothers : ∀ q, q ≠ p → c'.procs q = none) :
    Reaches S P c ((Config.idle c'.world).set p (c'.procs p)) := by
  rwa [← Config.eq_lone hothers]

/-- A call begins. -/
lemma start {call : S.Call} {w : S.World} (h : Reaches S P c c') (hP : P c' (.start p call))
    (hp : c'.procs p = none) (hbegin : S.begins c'.world c'.calls p call w) :
    Reaches S P c ({ c' with world := w }.set p (some { call, rest := S.program call })) :=
  h.step hP (.start hp hbegin)

/-- One of the calls goes on. -/
lemma goes {call : S.Call} {prog prog' : Prog S.iface S.Out} {w : S.World}
    (h : Reaches S P c c') (hgo : Goes S Q p prog c'.world prog' w)
    (hp : c'.procs p = some { call, rest := prog })
    (hP : ∀ w rest o r, Q p o r w →
      P ({ c' with world := w }.set p (some { call, rest })) (.op p o r)) :
    Reaches S P c ({ c' with world := w }.set p (some { call, rest := prog' })) :=
  h.trans (hgo.steps hP rfl hp)

/-- A call begins where nothing is under way, and goes on. -/
lemma underWay {call : S.Call} {prog : Prog S.iface S.Out} {w w₀ w' : S.World}
    (h : Reaches S P c (Config.idle w)) (hstart : P (Config.idle w) (.start p call))
    (hbegin : S.begins w (Config.idle w).calls p call w₀)
    (hgo : Goes S Q p (S.program call) w₀ prog w')
    (hP : ∀ w rest o r, Q p o r w →
      P ((Config.idle w).set p (some { call, rest })) (.op p o r)) :
    Reaches S P c ((Config.idle w').set p (some { call, rest := prog })) := by
  have hbegun := h.start hstart rfl hbegin
  have hgone := hbegun.goes hgo (Config.set_self _ _ _) fun w rest o r hq => by
    rw [Config.set_set]
    exact hP w rest o r hq
  rwa [Config.set_set] at hgone

/-- One of the calls ends. -/
lemma ret {call : S.Call} {out : S.Out} (h : Reaches S P c c') (hP : P c' (.ret p out))
    (hp : c'.procs p = some { call, rest := .pure out }) : Reaches S P c (c'.set p none) :=
  h.step hP (.ret hp)

/-- The only call under way ends. -/
lemma lastRet {call : S.Call} {out : S.Out} {w : S.World}
    (h : Reaches S P c ((Config.idle w).set p (some { call, rest := .pure out })))
    (hP : P ((Config.idle w).set p (some { call, rest := .pure out })) (.ret p out)) :
    Reaches S P c (Config.idle w) := by
  have hidle : (Config.idle w).set p none = Config.idle w :=
    Config.set_eq_self (c := Config.idle w) rfl
  have hret := h.ret hP (Config.set_self _ _ _)
  rw [Config.set_set] at hret
  rw [← hidle]
  exact hret

/-- The surroundings act. -/
lemma env {w : S.World} (h : Reaches S P c c') (hP : P c' .env) (henv : S.env c'.world w) :
    Reaches S P c { c' with world := w } :=
  h.step hP (.env henv)

/-- The surroundings act several times. -/
lemma envs {w : S.World} (h : Reaches S P c c') (hP : ∀ w, P { c' with world := w } .env)
    (henvs : Relation.ReflTransGen S.env c'.world w) : Reaches S P c { c' with world := w } := by
  induction henvs with
  | refl => exact h
  | tail _ hlast ih => exact ih.env (hP _) hlast

end Reaches

end System

/-! ## Rely and guarantee

An operation is considered only if its answer is `allowed`; what the surroundings do and what a
crash does has to be covered by the contract as well.
-/

/-- An invariant of the world, which operations are considered, what each process may rely on, and
what it guarantees in turn. -/
structure RelyGuarantee (S : System) where
  inv : S.World → Prop
  allowed : S.OpCond
  rely : ℕ → S.World → S.World → Prop
  guar : ℕ → S.World → S.World → Prop
  rely_refl : ∀ p w, rely p w w
  rely_trans : ∀ {p w₁ w₂ w₃}, rely p w₁ w₂ → rely p w₂ w₃ → rely p w₁ w₃
  /-- What one process guarantees, the others may rely on. -/
  guar_rely : ∀ {p q w w'}, p ≠ q → inv w → guar p w w' → rely q w w'
  env_ok : ∀ {w w'}, inv w → S.env w w' → inv w' ∧ ∀ p, rely p w w'
  crash_ok : ∀ {w w'}, inv w → S.crash w w' → inv w'

namespace RelyGuarantee

variable {S : System} (G : RelyGuarantee S) {α β : Type} {p : ℕ}

/-- The program keeps the invariant and its guarantee in every step, and what it returns meets
`post`, whatever the other processes do in between. -/
def Safe (p : ℕ) : Prog S.iface α → (α → S.World → Prop) → S.World → Prop
  | .pure a, post, w => ∀ w', G.rely p w w' → G.inv w' → post a w'
  | .call o k, post, w => ∀ w', G.rely p w w' → G.inv w' → ∀ r w'', S.sem p o w' r w'' →
      G.allowed p o r w' → G.inv w'' ∧ G.guar p w' w'' ∧ Safe p (k r) post w''

variable {G}

/-- Safety is stable: the others may go on. -/
lemma Safe.stable {prog : Prog S.iface α} {post : α → S.World → Prop} {w w' : S.World}
    (h : G.Safe p prog post w) (hw : G.rely p w w') : G.Safe p prog post w' := by
  cases prog with
  | pure a => exact fun w'' hw' hi => h w'' (G.rely_trans hw hw') hi
  | call o k => exact fun w'' hw' hi => h w'' (G.rely_trans hw hw') hi

lemma Safe.of_rely {prog : Prog S.iface α} {post : α → S.World → Prop} {w : S.World}
    (h : ∀ w', G.rely p w w' → G.inv w' → G.Safe p prog post w') : G.Safe p prog post w := by
  cases prog with
  | pure a => exact fun w' hw hi => h w' hw hi w' (G.rely_refl p w') hi
  | call o k => exact fun w' hw hi => h w' hw hi w' (G.rely_refl p w') hi

lemma safe_pure {a : α} {post : α → S.World → Prop} {w : S.World}
    (h : ∀ w', G.rely p w w' → G.inv w' → post a w') : G.Safe p (.pure a) post w := h

/-- The rule for one operation. -/
lemma safe_call {o : S.iface.Op} {k : S.iface.Answer o → Prog S.iface α}
    {post : α → S.World → Prop} {w : S.World}
    (h : ∀ w', G.rely p w w' → G.inv w' → ∀ r w'', S.sem p o w' r w'' → G.allowed p o r w' →
      G.inv w'' ∧ G.guar p w' w'' ∧ G.Safe p (k r) post w'') :
    G.Safe p (.call o k) post w := h

/-- The rule of consequence. -/
lemma Safe.mono {prog : Prog S.iface α} {post post' : α → S.World → Prop} {w : S.World}
    (h : G.Safe p prog post w) (himp : ∀ a w, G.inv w → post a w → post' a w) :
    G.Safe p prog post' w := by
  induction prog generalizing w with
  | pure a => exact fun w' hw hi => himp a w' hi (h w' hw hi)
  | call o k ih =>
      intro w' hw hi r w'' hs hallowed
      obtain ⟨hi', hg, hk⟩ := h w' hw hi r w'' hs hallowed
      exact ⟨hi', hg, ih r hk⟩

/-- The rule of sequencing. -/
lemma Safe.bind {prog : Prog S.iface α} {f : α → Prog S.iface β} {post : β → S.World → Prop}
    {w : S.World} (h : G.Safe p prog (fun a w => G.Safe p (f a) post w) w) :
    G.Safe p (prog >>= f) post w := by
  induction prog generalizing w with
  | pure a => exact Safe.of_rely h
  | call o k ih =>
      intro w' hw hi r w'' hs hallowed
      obtain ⟨hi', hg, hk⟩ := h w' hw hi r w'' hs hallowed
      exact ⟨hi', hg, ih r hk⟩

/-- The rule of sequencing for programs that may return early. -/
lemma Safe.bindExcept {ε : Type} {prog : ExceptT ε (Prog S.iface) α}
    {f : α → ExceptT ε (Prog S.iface) β} {post : Except ε β → S.World → Prop} {w : S.World}
    (h : G.Safe p prog.run (fun r w =>
      match r with
      | .ok a => G.Safe p (f a).run post w
      | .error e => G.Safe p (.pure (.error e)) post w) w) :
    G.Safe p (prog >>= f).run post w := by
  rw [ExceptT.run_bind]
  refine Safe.bind (h.mono fun r w _ hr => ?_)
  cases r with
  | ok a => exact hr
  | error e => exact hr

/-- The rule for one operation of a program that may return early. -/
lemma Safe.liftExcept {ε : Type} {o : S.iface.Op}
    {f : S.iface.Answer o → ExceptT ε (Prog S.iface) β} {post : Except ε β → S.World → Prop}
    {w : S.World}
    (h : ∀ w', G.rely p w w' → G.inv w' → ∀ r w'', S.sem p o w' r w'' → G.allowed p o r w' →
      G.inv w'' ∧ G.guar p w' w'' ∧ G.Safe p (f r).run post w'') :
    G.Safe p (ExceptT.lift (Prog.op o) >>= f).run post w := h

/-- Every process is where its program says. -/
def Holds (G : RelyGuarantee S) (post : ℕ → S.Call → S.Out → S.World → Prop) (c : S.Config) :
    Prop :=
  G.inv c.world ∧ ∀ p proc, c.procs p = some proc → G.Safe p proc.rest (post p proc.call) c.world

/-- What `P` lets happen is covered: the operations are allowed, and every call that may begin
keeps the invariant and its guarantee as it begins, and is safe. -/
structure Covers (G : RelyGuarantee S) (post : ℕ → S.Call → S.Out → S.World → Prop)
    (P : S.Config → S.Event → Prop) : Prop where
  op : ∀ {c p o r}, P c (.op p o r) → G.allowed p o r c.world
  start : ∀ {c p call w'}, P c (.start p call) → G.inv c.world →
    S.begins c.world c.calls p call w' →
    G.inv w' ∧ G.guar p c.world w' ∧ G.Safe p (S.program call) (post p call) w'

variable {post : ℕ → S.Call → S.Out → S.World → Prop} {P : S.Config → S.Event → Prop}

/-- A step of a system whose calls are safe. -/
lemma Holds.step (hG : G.Covers post P) {c c' : S.Config} {ev : S.Event} (hc : G.Holds post c)
    (hP : P c ev) (hs : System.Step S c ev c') : G.Holds post c' := by
  obtain ⟨hinv, hprocs⟩ := hc
  -- what holds of the process that moved, and of the others
  have key : ∀ (w : S.World) p proc', G.inv w → (∀ q, q ≠ p → G.rely q c.world w) →
      (∀ proc, proc' = some proc → G.Safe p proc.rest (post p proc.call) w) →
      G.Holds post ({ c with world := w }.set p proc') := by
    intro w p proc' hinv' hrely hself
    refine ⟨hinv', fun q proc hq => ?_⟩
    rcases System.Config.set_eq_some hq with ⟨rfl, hmoved⟩ | ⟨hqp, hold⟩
    · exact hself proc hmoved
    · exact (hprocs q proc hold).stable (hrely q hqp)
  cases hs with
  | @start p call w hp hbegin =>
      obtain ⟨hinv', hguar, hsafe⟩ := hG.start hP hinv hbegin
      refine key w p _ hinv' (fun q hqp => G.guar_rely (Ne.symm hqp) hinv hguar)
        fun proc hproc => ?_
      cases hproc
      exact hsafe
  | @op p call o k r w hp hsem =>
      obtain ⟨hinv', hguar, hsafe⟩ := hprocs p _ hp _ (G.rely_refl p _) hinv r w hsem (hG.op hP)
      refine key w p _ hinv' (fun q hqp => G.guar_rely (Ne.symm hqp) hinv hguar)
        fun proc hproc => ?_
      cases hproc
      exact hsafe
  | @ret p call out hp =>
      refine key c.world p _ hinv (fun q _ => G.rely_refl q _) fun proc hproc => ?_
      cases hproc
  | env henv =>
      obtain ⟨hinv', hrely⟩ := G.env_ok hinv henv
      exact ⟨hinv', fun q proc hq => (hprocs q proc hq).stable (hrely q)⟩
  | crash hcrash => exact ⟨G.crash_ok hinv hcrash, fun q proc hq => (by cases hq)⟩

lemma Holds.run (hG : G.Covers post P) {c c' : S.Config} {evs : List S.Event}
    (hrun : System.Run S P c evs c') (hc : G.Holds post c) : G.Holds post c' :=
  hrun.invariant (fun hc hP hs => hc.step hG hP hs) hc

/-- **Soundness.**  When every call that may begin is safe, then in every state of every run whose
steps are allowed, the invariant holds and what is left of every process is safe. -/
theorem sound (hG : G.Covers post P) {w : S.World} (hw : G.inv w) {evs : List S.Event}
    {c : S.Config} (hrun : System.Run S P (System.Config.idle w) evs c) : G.Holds post c :=
  Holds.run hG hrun ⟨hw, fun _ _ h => (by cases h)⟩

/-- What a process that has come to its end leaves. -/
lemma Holds.of_pure {c : S.Config} (hc : G.Holds post c) {p : ℕ} {call : S.Call} {out : S.Out}
    (hp : c.procs p = some { call, rest := .pure out }) : post p call out c.world :=
  hc.2 p _ hp c.world (G.rely_refl p _) hc.1

end RelyGuarantee
