import Niphas.Lib.Interleaving

/-!
# Taking notes of what a process does

What a program has learned is in the answers to its own calls.  A monitor notes of them what counts.
A property of a program together with its notes does not depend on the surroundings, so it is proved
of the program alone, and holds in every run of every system whose world keeps the notes.

This separates two kinds of arguments that tend to be made in one.  "It writes the status only after
it has read the object" is a statement about code, and remains true whatever others do to the object
in between.  "What it has read is still so" is a statement about the system.  Here only the first
kind is dealt with, by recursion over the program; the notes are an argument of the recursion, and
every answer is possible.

The world need not have the notes as its only content: `Keeps` asks for a function from the world to
the notes of each process, which every step treats as a monitor does.

* `Monitor.Shows` — every call of a program meets a condition on the notes taken until then, and so
  does what it returns.  Rules: `Shows.bind`, `Shows.bindExcept`, `Shows.mono`.
* `Monitor.Keeps` — the world keeps the notes of every process.
* `Monitor.Keeps.run` — in every run, what is left of every process shows what its call shows.
-/

/-- What is noted of the calls of a process. -/
structure Monitor (I : Interface) where
  Notes : Type
  start : Notes
  note : Notes → (o : I.Op) → I.Answer o → Notes

namespace Monitor

variable {I : Interface} (M : Monitor I) {α β ε : Type}

/-- Every call the program makes meets `ok` with the notes taken until then, and what it returns
meets `post` with those taken in the end. -/
def Shows (ok : M.Notes → I.Op → Prop) (post : α → M.Notes → Prop) : Prog I α → M.Notes → Prop
  | .pure a, s => post a s
  | .call o k, s => ok s o ∧ ∀ r, Shows ok post (k r) (M.note s o r)

variable {M} {ok : M.Notes → I.Op → Prop} {post post' : α → M.Notes → Prop}

/-! ## Rules -/

/-- The rule of consequence. -/
lemma Shows.mono {prog : Prog I α} {s : M.Notes} (h : M.Shows ok post prog s)
    (himp : ∀ a s, post a s → post' a s) : M.Shows ok post' prog s := by
  induction prog generalizing s with
  | pure a => exact himp a s h
  | call o k ih => exact ⟨h.1, fun r => ih r (h.2 r)⟩

/-- The rule of sequencing. -/
lemma Shows.bind {prog : Prog I α} {f : α → Prog I β} {post : β → M.Notes → Prop} {s : M.Notes}
    (h : M.Shows ok (fun a s => M.Shows ok post (f a) s) prog s) :
    M.Shows ok post (prog >>= f) s := by
  induction prog generalizing s with
  | pure a => exact h
  | call o k ih => exact ⟨h.1, fun r => ih r (h.2 r)⟩

/-- The rule of sequencing for programs that may return early. -/
lemma Shows.bindExcept {prog : ExceptT ε (Prog I) α} {f : α → ExceptT ε (Prog I) β}
    {mid : Except ε α → M.Notes → Prop} {post : Except ε β → M.Notes → Prop} {s : M.Notes}
    (h : M.Shows ok mid prog.run s) (hok : ∀ a s, mid (.ok a) s → M.Shows ok post (f a).run s)
    (herror : ∀ e s, mid (.error e) s → post (.error e) s) :
    M.Shows ok post (prog >>= f).run s := by
  rw [ExceptT.run_bind]
  refine Shows.bind (h.mono fun r s hr => ?_)
  cases r with
  | ok a => exact hok a s hr
  | error e => exact herror e s hr

/-- What the program may call whatever the notes. -/
lemma Shows.all {Q : I.Op → Prop} {prog : Prog I α} {s : M.Notes} (h : M.Shows ok post prog s)
    (hQ : ∀ s o, ok s o → Q o) : prog.All Q := by
  induction prog generalizing s with
  | pure a => exact trivial
  | call o k ih => exact ⟨hQ s o h.1, fun r => ih r (h.2 r)⟩

/-! ## Runs -/

/-- The world keeps the notes of every process. -/
structure Keeps {S : System} (M : Monitor S.iface) (notes : S.World → ℕ → M.Notes) : Prop where
  begins : ∀ {w calls p call w'}, S.begins w calls p call w' →
    notes w' = Function.update (notes w) p M.start
  op : ∀ {p o w r w'}, S.sem p o w r w' →
    notes w' = Function.update (notes w) p (M.note (notes w p) o r)
  env : ∀ {w w'}, S.env w w' → notes w' = notes w

section

variable {S : System} {M : Monitor S.iface} {notes : S.World → ℕ → M.Notes}
  {ok : S.Call → M.Notes → S.iface.Op → Prop} {post : S.Call → S.Out → M.Notes → Prop}

/-- What is left of every process shows what its call shows. -/
def Holds (notes : S.World → ℕ → M.Notes) (ok : S.Call → M.Notes → S.iface.Op → Prop)
    (post : S.Call → S.Out → M.Notes → Prop) (c : S.Config) : Prop :=
  ∀ p proc, c.procs p = some proc →
    M.Shows (ok proc.call) (post proc.call) proc.rest (notes c.world p)

lemma Holds.step (hkeeps : M.Keeps notes)
    (hshows : ∀ call, M.Shows (ok call) (post call) (S.program call) M.start)
    {c c' : S.Config} {ev : S.Event} (hc : Holds notes ok post c) (hs : System.Step S c ev c') :
    Holds notes ok post c' := by
  -- the notes of the others are as they were
  have hothers : ∀ (w : S.World) p s, notes w = Function.update (notes c.world) p s →
      ∀ q (proc : S.Process), q ≠ p →
        M.Shows (ok proc.call) (post proc.call) proc.rest (notes c.world q) →
          M.Shows (ok proc.call) (post proc.call) proc.rest (notes w q) := by
    intro w p s hnotes q proc hqp h
    rwa [hnotes, Function.update_of_ne hqp]
  refine hs.each (R := fun p proc w => M.Shows (ok proc.call) (post proc.call) proc.rest
    (notes w p))
    hc (fun p call w _ hbegin => ⟨?_, hothers w p _ (hkeeps.begins hbegin)⟩)
    (fun p call o k r w _ hp hsem => ⟨?_, hothers w p _ (hkeeps.op hsem)⟩) fun w hw q proc h => ?_
  · rw [hkeeps.begins hbegin, Function.update_self]
    exact hshows call
  · rw [hkeeps.op hsem, Function.update_self]
    exact (hc p _ hp).2 r
  · rwa [hkeeps.env hw]

/-- **Soundness.**  In every run, what is left of every process shows what its call shows. -/
theorem Keeps.run (hkeeps : M.Keeps notes)
    (hshows : ∀ call, M.Shows (ok call) (post call) (S.program call) M.start)
    {P : S.Config → S.Event → Prop} {w : S.World} {evs : List S.Event} {c : S.Config}
    (hrun : System.Run S P (System.Config.idle w) evs c) : Holds notes ok post c :=
  hrun.invariant (fun hc _ hs => hc.step hkeeps hshows hs) fun _ _ h => by cases h

end

end Monitor
