import Niphas.Lib.Interleaving

/-!
# What is seen of a run

A system may work on many things, and each of its calls be about one of them.  Who looks at one
thing sees the calls that are about it, and nothing of the others.  As long as those keep their
hands off the thing, what is seen is a run as well: of the same programs, on a world with nothing
but this thing in it.

A view is a simulation with stuttering.  It relates the world to the other world, and it has one
condition for each kind of event: a step of a call that is seen is a step there, with the same
answer, and a step of a call that is not seen leaves the other world as it is.  The programs are the
same on both sides, so nothing has to be said about them, except for an invariant that ties a
process to the thing it is about.

The surroundings may do either, and a crash is one on both sides.

* `System.Scene` — another world for the programs of a system.
* `System.View` — which calls are seen, and that every step keeps the two worlds together.
* `System.View.step`, `System.View.run` — what is seen of a run is a run.
-/

namespace System

/-! ## Another world -/

/-- Another world for the programs of a system. -/
structure Scene (S : System) where
  World : Type
  sem : ℕ → (o : S.iface.Op) → World → S.iface.Answer o → World → Prop
  begins : World → (ℕ → Option S.Call) → ℕ → S.Call → World → Prop
  env : World → World → Prop
  crash : World → World → Prop

namespace Scene

variable {S : System} (T : Scene S)

/-- The programs on the other world. -/
abbrev system : System where
  iface := S.iface
  World := T.World
  Call := S.Call
  Out := S.Out
  program := S.program
  sem := T.sem
  begins := T.begins
  env := T.env
  crash := T.crash

/-- The same event there. -/
def event : S.Event → T.system.Event
  | .start p call => .start p call
  | .op p o r => .op p o r
  | .ret p out => .ret p out
  | .env => .env
  | .crash => .crash

/-- A process, if it is seen. -/
def process (seen : S.Call → Bool) (proc : S.Process) : Option T.system.Process :=
  if seen proc.call then some { call := proc.call, rest := proc.rest } else none

/-- The processes that are seen, on the other world. -/
def config (seen : S.Call → Bool) (c : S.Config) (v : T.World) : T.system.Config :=
  { world := v, procs := fun p => (c.procs p).bind (T.process seen) }

end Scene

/-- Whether an event is seen: the events of the calls that are not, are not. -/
def Shown {S : System} (seen : S.Call → Bool) (c : S.Config) : S.Event → Prop
  | .start _ call => seen call
  | .op p _ _ => ∃ proc, c.procs p = some proc ∧ seen proc.call
  | .ret p _ => ∃ proc, c.procs p = some proc ∧ seen proc.call
  | _ => True

/-! ## Views -/

/-- Which calls of a system are seen, and how what is seen goes on another world. -/
structure View (S : System) (T : Scene S) where
  seen : S.Call → Bool
  /-- How the two worlds go together. -/
  rel : S.World → T.World → Prop
  /-- What holds of every configuration. -/
  inv : S.Config → Prop
  inv_step : ∀ {c ev c'}, inv c → Step S c ev c' → inv c'
  start : ∀ {c v p call w}, inv c → rel c.world v → S.begins c.world c.calls p call w →
    seen call = true → ∃ v', T.begins v (fun q => (c.calls q).filter seen) p call v' ∧ rel w v'
  start_hidden : ∀ {c v p call w}, inv c → rel c.world v → S.begins c.world c.calls p call w →
    seen call = false → rel w v
  op : ∀ {c v p call o k r w}, inv c → rel c.world v →
    c.procs p = some { call, rest := .call o k } → S.sem p o c.world r w →
      seen call = true → ∃ v', T.sem p o v r v' ∧ rel w v'
  op_hidden : ∀ {c v p call o k r w}, inv c → rel c.world v →
    c.procs p = some { call, rest := .call o k } → S.sem p o c.world r w →
      seen call = false → rel w v
  env : ∀ {c : S.Config} {v w}, inv c → rel c.world v → S.env c.world w →
    rel w v ∨ ∃ v', T.env v v' ∧ rel w v'
  crash : ∀ {c : S.Config} {v w}, inv c → rel c.world v → S.crash c.world w →
    ∃ v', T.crash v v' ∧ rel w v'

namespace View

variable {S : System} {T : Scene S} {seen : S.Call → Bool} {c c' : S.Config} {p : ℕ}
  {proc : S.Process} {call : S.Call} {rest : Prog S.iface S.Out}

lemma process_seen (h : seen call = true) :
    T.process seen { call, rest } = some { call, rest } := if_pos h

lemma process_hidden (h : seen call = false) : T.process seen { call, rest } = none :=
  if_neg (Bool.eq_false_iff.mp h)

lemma procs_of_none (h : c.procs p = none) (v : T.World) :
    (T.config seen c v).procs p = none := congrArg (Option.bind · _) h

lemma procs_of_some (h : c.procs p = some proc) (v : T.World) :
    (T.config seen c v).procs p = T.process seen proc := congrArg (Option.bind · _) h

/-- The processes that are seen are where they are. -/
lemma procs_config_iff {v : T.World} :
    (T.config seen c v).procs p = some { call, rest } ↔
      c.procs p = some { call, rest } ∧ seen call = true := by
  cases hp : c.procs p with
  | none =>
      rw [procs_of_none hp]
      exact ⟨fun h => (by cases h), fun h => (by cases h.1)⟩
  | some proc =>
      obtain ⟨call', rest'⟩ := proc
      rw [procs_of_some hp]
      cases hseen : seen call' with
      | true =>
          rw [process_seen hseen]
          constructor
          · rintro ⟨⟩
            exact ⟨rfl, hseen⟩
          · rintro ⟨⟨⟩, -⟩
            rfl
      | false =>
          rw [process_hidden hseen]
          constructor
          · rintro ⟨⟩
          · rintro ⟨⟨⟩, h⟩
            cases hseen.symm.trans h

/-- The calls that are seen. -/
lemma calls_config (c : S.Config) (v : T.World) :
    (T.config seen c v).calls = fun q => (c.calls q).filter seen := by
  funext q
  rw [Config.calls, Config.calls]
  cases hq : c.procs q with
  | none => rw [procs_of_none hq, Option.map_none, Option.map_none, Option.filter_none]
  | some proc =>
      obtain ⟨call, rest⟩ := proc
      rw [procs_of_some hq, Option.map_some]
      cases hseen : seen call with
      | true => rw [process_seen hseen, Option.map_some, Option.filter_some_pos hseen]
      | false => rw [process_hidden hseen, Option.map_none, Option.filter_some_neg hseen]

/-- A process moves, and is seen to move. -/
lemma config_set (c : S.Config) (w : S.World) (v v' : T.World) (p : ℕ) (proc : Option S.Process) :
    T.config seen ({ c with world := w }.set p proc) v' =
      { T.config seen c v with world := v' }.set p (proc.bind (T.process seen)) := by
  have hprocs : ∀ q, (Function.update c.procs p proc q).bind (T.process seen) =
      Function.update (T.config seen c v).procs p (proc.bind (T.process seen)) q := by
    intro q
    by_cases hq : q = p
    · rw [hq, Function.update_self, Function.update_self]
    · rw [Function.update_of_ne hq, Function.update_of_ne hq]
      rfl
  exact congrArg (Config.mk v') (funext hprocs)

/-- A process that is not seen moves. -/
lemma config_set_hidden (c : S.Config) (w : S.World) (v : T.World) {p : ℕ}
    {proc : Option S.Process} (hp : (T.config seen c v).procs p = none)
    (hproc : proc.bind (T.process seen) = none) :
    T.config seen ({ c with world := w }.set p proc) v = T.config seen c v := by
  rw [config_set c w v v, hproc]
  exact Config.set_eq_self hp

/-- **Step lemma**: nothing is seen of a step, or it is a step there. -/
theorem step (V : View S T) {v : T.World} {ev : S.Event} (hc : V.inv c) (hv : V.rel c.world v)
    (hs : Step S c ev c') : ∃ v', V.rel c'.world v' ∧
      (T.config V.seen c' v' = T.config V.seen c v ∨ Shown V.seen c ev ∧
        Step T.system (T.config V.seen c v) (T.event ev) (T.config V.seen c' v')) := by
  cases hs with
  | @start p call w hp hbegin =>
      have hnone : (T.config V.seen c v).procs p = none := procs_of_none hp v
      cases hseen : V.seen call with
      | true =>
          obtain ⟨v', hbegin', hv'⟩ := V.start hc hv hbegin hseen
          rw [← calls_config c v] at hbegin'
          refine ⟨v', hv', .inr ⟨hseen, ?_⟩⟩
          rw [config_set c w v v', Option.bind_some, process_seen hseen]
          exact .start hnone hbegin'
      | false =>
          refine ⟨v, V.start_hidden hc hv hbegin hseen, .inl ?_⟩
          exact config_set_hidden c w v hnone (process_hidden hseen)
  | @op p call o k r w hp hsem =>
      have hsome := @procs_of_some S T V.seen c p _ hp v
      cases hseen : V.seen call with
      | true =>
          obtain ⟨v', hsem', hv'⟩ := V.op hc hv hp hsem hseen
          rw [process_seen hseen] at hsome
          refine ⟨v', hv', .inr ⟨⟨_, hp, hseen⟩, ?_⟩⟩
          rw [config_set c w v v', Option.bind_some, process_seen hseen]
          exact .op hsome hsem'
      | false =>
          rw [process_hidden hseen] at hsome
          refine ⟨v, V.op_hidden hc hv hp hsem hseen, .inl ?_⟩
          exact config_set_hidden c w v hsome (process_hidden hseen)
  | @ret p call out hp =>
      have hsome := @procs_of_some S T V.seen c p _ hp v
      refine ⟨v, hv, ?_⟩
      cases hseen : V.seen call with
      | true =>
          rw [process_seen hseen] at hsome
          refine .inr ⟨⟨_, hp, hseen⟩, ?_⟩
          have hset : T.config V.seen (c.set p none) v = (T.config V.seen c v).set p none :=
            config_set c c.world v v p none
          rw [hset]
          exact .ret hsome
      | false =>
          rw [process_hidden hseen] at hsome
          exact .inl (config_set_hidden c c.world v hsome rfl)
  | @env w henv =>
      rcases V.env hc hv henv with hv' | ⟨v', henv', hv'⟩
      · exact ⟨v, hv', .inl rfl⟩
      · exact ⟨v', hv', .inr ⟨trivial, .env henv'⟩⟩
  | crash hcrash =>
      obtain ⟨v', hcrash', hv'⟩ := V.crash hc hv hcrash
      exact ⟨v', hv', .inr ⟨trivial, .crash hcrash'⟩⟩

/-- **Run lemma**: what is seen of a run is a run, and its steps are as `Q` says if those of the
first are that are seen. -/
theorem run (V : View S T) {P : S.Config → S.Event → Prop}
    {Q : T.system.Config → T.system.Event → Prop}
    (hQ : ∀ c v ev, P c ev → Shown V.seen c ev → Q (T.config V.seen c v) (T.event ev))
    {v : T.World} {evs : List S.Event} (hrun : Run S P c evs c') (hc : V.inv c)
    (hv : V.rel c.world v) : ∃ v' evs', V.rel c'.world v' ∧
      Run T.system Q (T.config V.seen c v) evs' (T.config V.seen c' v') := by
  induction hrun with
  | nil => exact ⟨v, [], hv, .nil⟩
  | snoc hrun hP hs ih =>
      obtain ⟨v₁, evs', hv₁, hrun'⟩ := ih
      have hinv := hrun.invariant (fun hc _ hs => V.inv_step hc hs) hc
      obtain ⟨v', hv', heq | ⟨hshown, hs'⟩⟩ := V.step hinv hv₁ hs
      · exact ⟨v', evs', hv', heq.symm ▸ hrun'⟩
      · exact ⟨v', _, hv', .snoc hrun' (hQ _ v₁ _ hP hshown) hs'⟩

end View

end System
