import Mathlib.Logic.Basic

/-!
# Programs over an interface

A program that talks to its surroundings only through a fixed set of operations, as a tree: it has
returned, or it calls an operation and goes on with the answer.  What an operation does is not part
of the program, so the same program can be run in different surroundings, alone or in between
others.

Programs are a monad, so code that is written with `do` and early returns is a program as it stands.
Loops are recursion over what they loop over; there are no infinite programs.  Without any meaning
of the operations one can ask what a program may call, what it may return for which answers, and
whether two programs do the same calls.  With one, there are runs: on a world that the operations
change, or with the answers of a list.  How programs run among others is the subject of
`Interleaving`.

* `Prog I α` — the programs over the interface `I` that return an `α`; a monad.
* `Prog.interp` — the same program, with every operation carried out by another program.
* `Prog.ask` — what it returns where every operation has one answer, and `Prog.asked` what it calls.
* `Prog.Lockstep` — two programs that call the same operations and return related values.
* `Prog.Exec` — what a program returns when the answers are those of a given list.
* `Prog.Runs` — the same on a world that the operations change.
-/

/-- The operations a program may call, each with the type of its answer. -/
structure Interface where
  Op : Type
  Answer : Op → Type

/-- A program: it has returned, or it calls an operation and goes on with the answer. -/
inductive Prog (I : Interface) (α : Type) : Type where
  | pure (a : α)
  | call (o : I.Op) (k : I.Answer o → Prog I α)

namespace Prog

variable {I J : Interface} {α β γ : Type}

/-! ## Sequencing -/

/-- One program after the other. -/
def bind : Prog I α → (α → Prog I β) → Prog I β
  | .pure a, f => f a
  | .call o k, f => .call o fun r => (k r).bind f

instance : Monad (Prog I) where
  pure := .pure
  bind := bind

/-- The program that calls one operation and returns its answer. -/
def op (o : I.Op) : Prog I (I.Answer o) := .call o .pure

@[simp] lemma pure_bind' (a : α) (f : α → Prog I β) : (Prog.pure a >>= f) = f a := rfl

@[simp] lemma call_bind (o : I.Op) (k : I.Answer o → Prog I α) (f : α → Prog I β) :
    (Prog.call o k >>= f) = .call o fun r => k r >>= f := rfl

@[simp] lemma op_bind (o : I.Op) (f : I.Answer o → Prog I β) : (op o >>= f) = .call o f := rfl

lemma bind_pure' (p : Prog I α) : p.bind .pure = p := by
  induction p with
  | pure a => rfl
  | call o k ih => exact congrArg (Prog.call o) (funext ih)

lemma bind_assoc' (p : Prog I α) (f : α → Prog I β) (g : β → Prog I γ) :
    (p.bind f).bind g = p.bind fun a => (f a).bind g := by
  induction p with
  | pure a => rfl
  | call o k ih => exact congrArg (Prog.call o) (funext ih)

instance : LawfulMonad (Prog I) :=
  LawfulMonad.mk' (Prog I) (fun p => bind_pure' p) (fun _ _ => rfl) bind_assoc'

/-! ## Implementing one interface by another -/

/-- Carry out every operation of `I` by a program over `J`. -/
def interp (impl : (o : I.Op) → Prog J (I.Answer o)) : Prog I α → Prog J α
  | .pure a => .pure a
  | .call o k => impl o >>= fun r => (k r).interp impl

lemma interp_bind {impl : (o : I.Op) → Prog J (I.Answer o)} (p : Prog I α) (f : α → Prog I β) :
    (p >>= f).interp impl = p.interp impl >>= fun a => (f a).interp impl := by
  induction p with
  | pure a => rfl
  | call o k ih =>
      have hk : (fun r => (k r >>= f).interp impl) =
          fun r => (k r).interp impl >>= fun a => (f a).interp impl := funext ih
      change (impl o >>= fun r => (k r >>= f).interp impl) =
        (impl o >>= fun r => (k r).interp impl) >>= _
      rw [hk, bind_assoc]

lemma interp_op (impl : (o : I.Op) → Prog J (I.Answer o)) (o : I.Op) :
    (op o).interp impl = impl o := bind_pure' (impl o)

/-- There and back. -/
lemma interp_interp {K : Interface} {impl : (o : I.Op) → Prog J (I.Answer o)}
    {impl' : (o : J.Op) → Prog K (J.Answer o)} (p : Prog I α) :
    (p.interp impl).interp impl' = p.interp fun o => (impl o).interp impl' := by
  induction p with
  | pure a => rfl
  | call o k ih =>
      change (impl o >>= fun r => (k r).interp impl).interp impl' = _
      rw [interp_bind]
      exact congrArg _ (funext ih)

lemma interp_self (p : Prog I α) : p.interp op = p := by
  induction p with
  | pure a => rfl
  | call o k ih => exact congrArg (Prog.call o) (funext ih)

/-! ## What a program may call -/

/-- Every operation the program may call meets `Q`, whatever the answers. -/
def All (Q : I.Op → Prop) : Prog I α → Prop
  | .pure _ => True
  | .call o k => Q o ∧ ∀ r, (k r).All Q

/-- Some answers lead the program to an operation in `goal` before any in `stop`. -/
def Reaches (goal stop : I.Op → Prop) : Prog I α → Prop
  | .pure _ => False
  | .call o k => goal o ∨ ¬ stop o ∧ ∃ r, (k r).Reaches goal stop

lemma All.bind {Q : I.Op → Prop} {p : Prog I α} {f : α → Prog I β} (hp : p.All Q)
    (hf : ∀ a, (f a).All Q) : (p >>= f).All Q := by
  induction p with
  | pure a => exact hf a
  | call o k ih => exact ⟨hp.1, fun r => ih r (hp.2 r)⟩

lemma All.imp {Q Q' : I.Op → Prop} {p : Prog I α} (hp : p.All Q) (hQ : ∀ o, Q o → Q' o) :
    p.All Q' := by
  induction p with
  | pure a => exact trivial
  | call o k ih => exact ⟨hQ o hp.1, fun r => ih r (hp.2 r)⟩

/-- A program that may return early. -/
lemma All.bindExcept {ε : Type} {Q : I.Op → Prop} {p : ExceptT ε (Prog I) α}
    {f : α → ExceptT ε (Prog I) β} (hp : p.run.All Q) (hf : ∀ a, (f a).run.All Q) :
    (p >>= f).run.All Q := by
  rw [ExceptT.run_bind]
  refine hp.bind fun r => ?_
  cases r with
  | ok a => exact hf a
  | error e => exact trivial

/-- A program that never calls an operation in `goal` does not lead to one. -/
lemma All.not_reaches {goal stop : I.Op → Prop} {p : Prog I α}
    (h : p.All fun o => ¬ goal o) : ¬ p.Reaches goal stop := by
  induction p with
  | pure a => exact not_false
  | call o k ih =>
      rintro (hgoal | ⟨-, r, hr⟩)
      · exact h.1 hgoal
      · exact ih r (h.2 r) hr

/-- The program does not return a value before an operation has been answered as `Q` says. -/
def OkAfter {ε : Type} (Q : (o : I.Op) → I.Answer o → Prop) : Prog I (Except ε α) → Prop
  | .pure r => ∃ e, r = .error e
  | .call o k => ∀ r, Q o r ∨ OkAfter Q (k r)

lemma OkAfter.bind {ε : Type} {Q : (o : I.Op) → I.Answer o → Prop} {p : ExceptT ε (Prog I) α}
    {f : α → ExceptT ε (Prog I) β} (hf : ∀ a, OkAfter Q (f a).run) : OkAfter Q (p >>= f).run := by
  rw [ExceptT.run_bind]
  induction p.run with
  | pure r =>
      cases r with
      | ok a => exact hf a
      | error e => exact ⟨e, rfl⟩
  | call o k ih => exact fun r => .inr (ih r)

/-- Where the answers are as `Q` says, what the program returns is as `post` says. -/
def Returns (Q : (o : I.Op) → I.Answer o → Prop) (post : α → Prop) : Prog I α → Prop
  | .pure a => post a
  | .call o k => ∀ r, Q o r → (k r).Returns Q post

lemma Returns.bind {Q : (o : I.Op) → I.Answer o → Prop} {post : α → Prop} {post' : β → Prop}
    {p : Prog I α} {f : α → Prog I β} (hp : p.Returns Q post)
    (hf : ∀ a, post a → (f a).Returns Q post') : (p >>= f).Returns Q post' := by
  induction p with
  | pure a => exact hf a hp
  | call o k ih => exact fun r hr => ih r (hp r hr)

/-- A program that may return early, and an error it does not return. -/
lemma Returns.bindExcept {ε : Type} {Q : (o : I.Op) → I.Answer o → Prop} {e : ε}
    {p : ExceptT ε (Prog I) α} {f : α → ExceptT ε (Prog I) β}
    (hp : p.run.Returns Q (· ≠ .error e)) (hf : ∀ a, (f a).run.Returns Q (· ≠ .error e)) :
    (p >>= f).run.Returns Q (· ≠ .error e) := by
  rw [ExceptT.run_bind]
  refine hp.bind fun r hr => ?_
  cases r with
  | ok a => exact hf a
  | error e' =>
      rintro ⟨⟩
      exact hr rfl

/-! ## Fixed answers -/

/-- What a program returns where the same operation always has the same answer. -/
def ask (answer : (o : I.Op) → I.Answer o) : Prog I α → α
  | .pure a => a
  | .call o k => (k (answer o)).ask answer

section

variable {answer : (o : I.Op) → I.Answer o}

@[simp] lemma ask_pure (a : α) : (Prog.pure a : Prog I α).ask answer = a := rfl

@[simp] lemma ask_call (o : I.Op) (k : I.Answer o → Prog I α) :
    (Prog.call o k).ask answer = (k (answer o)).ask answer := rfl

@[simp] lemma ask_bind (p : Prog I α) (f : α → Prog I β) :
    (p >>= f).ask answer = (f (p.ask answer)).ask answer := by
  induction p with
  | pure a => rfl
  | call o k ih => exact ih _

/-- A program that may return early. -/
lemma ask_bindExcept {ε : Type} (p : ExceptT ε (Prog I) α) (f : α → ExceptT ε (Prog I) β) :
    (p >>= f).run.ask answer = p.run.ask answer >>= fun a => (f a).run.ask answer := by
  rw [ExceptT.run_bind, ask_bind]
  cases p.run.ask answer <;> rfl

end

/-- The operations it calls there, in their order. -/
def asked (answer : (o : I.Op) → I.Answer o) : Prog I α → List I.Op
  | .pure _ => []
  | .call o k => o :: (k (answer o)).asked answer

/-! ## Two programs side by side -/

/-- Whatever the answers, the two programs call the same operations one after the other, and `R`
relates what they return. -/
inductive Lockstep (R : α → β → Prop) : Prog I α → Prog I β → Prop
  | pure {a : α} {b : β} (h : R a b) : Lockstep R (.pure a) (.pure b)
  | call (o : I.Op) {k : I.Answer o → Prog I α} {k' : I.Answer o → Prog I β}
      (h : ∀ r, Lockstep R (k r) (k' r)) : Lockstep R (.call o k) (.call o k')

namespace Lockstep

variable {R : α → β → Prop} {p : Prog I α} {q : Prog I β}

lemma asked_eq (h : Lockstep R p q) (answer : (o : I.Op) → I.Answer o) :
    p.asked answer = q.asked answer := by
  induction h with
  | pure h => rfl
  | call o _ ih => exact congrArg (o :: ·) (ih (answer o))

lemma ask_rel (h : Lockstep R p q) (answer : (o : I.Op) → I.Answer o) :
    R (p.ask answer) (q.ask answer) := by
  induction h with
  | pure h => exact h
  | call o _ ih => exact ih (answer o)

end Lockstep

/-! ## Executions -/

/-- `p.Exec log a`: with the answers in `log`, `p` makes the calls in `log` and returns `a`. -/
inductive Exec : Prog I α → List (Σ o : I.Op, I.Answer o) → α → Prop
  | pure (a : α) : Exec (.pure a) [] a
  | call {o : I.Op} {k : I.Answer o → Prog I α} {r : I.Answer o}
      {log : List (Σ o : I.Op, I.Answer o)} {a : α} :
      Exec (k r) log a → Exec (.call o k) (⟨o, r⟩ :: log) a

lemma exec_pure_iff {a b : α} {log : List (Σ o : I.Op, I.Answer o)} :
    (Prog.pure a : Prog I α).Exec log b ↔ log = [] ∧ b = a := by
  constructor
  · intro h
    cases h
    exact ⟨rfl, rfl⟩
  · rintro ⟨rfl, rfl⟩
    exact .pure b

lemma exec_call_iff {o : I.Op} {k : I.Answer o → Prog I α} {a : α}
    {log : List (Σ o : I.Op, I.Answer o)} :
    (Prog.call o k).Exec log a ↔ ∃ r log', log = ⟨o, r⟩ :: log' ∧ (k r).Exec log' a := by
  constructor
  · intro h
    cases h with
    | call h => exact ⟨_, _, rfl, h⟩
  · rintro ⟨r, log', rfl, h⟩
    exact .call h

lemma exec_op {o : I.Op} (r : I.Answer o) : (op o).Exec [⟨o, r⟩] r := .call (.pure r)

lemma Exec.bind {p : Prog I α} {f : α → Prog I β} {a : α} {b : β}
    {log log' : List (Σ o : I.Op, I.Answer o)} (h : p.Exec log a) (h' : (f a).Exec log' b) :
    (p >>= f).Exec (log ++ log') b := by
  induction h with
  | pure a => exact h'
  | call _ ih => exact .call (ih h')

/-- `Returns` is about all executions. -/
lemma returns_iff {Q : (o : I.Op) → I.Answer o → Prop} {post : α → Prop} {p : Prog I α} :
    p.Returns Q post ↔
      ∀ log a, p.Exec log a → (∀ call ∈ log, Q call.1 call.2) → post a := by
  induction p with
  | pure a =>
      constructor
      · intro h log b hexec _
        obtain ⟨-, rfl⟩ := exec_pure_iff.mp hexec
        exact h
      · intro h
        exact h [] a (.pure a) fun _ hcall => absurd hcall List.not_mem_nil
  | call o k ih =>
      constructor
      · intro h log a hexec hQ
        obtain ⟨r, log', rfl, hexec'⟩ := exec_call_iff.mp hexec
        obtain ⟨hr, hlog'⟩ := List.forall_mem_cons.mp hQ
        exact (ih r).mp (h r hr) log' a hexec' hlog'
      · intro h r hr
        refine (ih r).mpr fun log' a hexec hlog' => ?_
        exact h _ a (.call hexec) (List.forall_mem_cons.mpr ⟨hr, hlog'⟩)

/-! ## Runs on a world -/

section

variable {W : Type} {sem sem' : (o : I.Op) → W → I.Answer o → W → Prop} {w w' w'' : W}
  {log log' : List (Σ o : I.Op, I.Answer o)}

/-- `p.Runs sem w log a w'`: with the answers in `log`, `p` makes the calls in `log` and returns
`a`, and they take the world from `w` to `w'`. -/
inductive Runs (sem : (o : I.Op) → W → I.Answer o → W → Prop) :
    Prog I α → W → List (Σ o : I.Op, I.Answer o) → α → W → Prop
  | pure (a : α) (w : W) : Runs sem (.pure a) w [] a w
  | call {o : I.Op} {k : I.Answer o → Prog I α} {r : I.Answer o}
      {log : List (Σ o : I.Op, I.Answer o)} {a : α} {w w' w'' : W} :
      sem o w r w' → Runs sem (k r) w' log a w'' → Runs sem (.call o k) w (⟨o, r⟩ :: log) a w''

namespace Runs

lemma of_pure {a b : α} (h : (Prog.pure a : Prog I α).Runs sem w log b w') :
    log = [] ∧ b = a ∧ w' = w := by
  cases h
  exact ⟨rfl, rfl, rfl⟩

lemma of_call {o : I.Op} {k : I.Answer o → Prog I α} {a : α}
    (h : (Prog.call o k).Runs sem w log a w'') :
    ∃ r log' w', log = ⟨o, r⟩ :: log' ∧ sem o w r w' ∧ (k r).Runs sem w' log' a w'' := by
  cases h with
  | call hs h => exact ⟨_, _, _, rfl, hs, h⟩

lemma bind {p : Prog I α} {f : α → Prog I β} {a : α} {b : β} (h : p.Runs sem w log a w')
    (h' : (f a).Runs sem w' log' b w'') : (p >>= f).Runs sem w (log ++ log') b w'' := by
  induction h with
  | pure => exact h'
  | call hs _ ih => exact .call hs (ih h')

/-- A sequence runs one part after the other. -/
lemma of_bind {p : Prog I α} {f : α → Prog I β} {b : β} (h : (p >>= f).Runs sem w log b w'') :
    ∃ a log₁ log₂ w', log = log₁ ++ log₂ ∧ p.Runs sem w log₁ a w' ∧
      (f a).Runs sem w' log₂ b w'' := by
  induction p generalizing w log with
  | pure a => exact ⟨a, [], log, w, rfl, .pure a w, h⟩
  | call o k ih =>
      obtain ⟨r, log', w₁, rfl, hs, h⟩ := of_call h
      obtain ⟨a, log₁, log₂, w', rfl, h₁, h₂⟩ := ih r h
      exact ⟨a, _, log₂, w', rfl, .call hs h₁, h₂⟩

/-- A program that may return early. -/
lemma of_bindExcept {ε : Type} {p : ExceptT ε (Prog I) α} {f : α → ExceptT ε (Prog I) β}
    {r : Except ε β} (h : (p >>= f).run.Runs sem w log r w'') :
    (∃ e, p.run.Runs sem w log (.error e) w'' ∧ r = .error e) ∨
      ∃ a log₁ log₂ w', log = log₁ ++ log₂ ∧ p.run.Runs sem w log₁ (.ok a) w' ∧
        (f a).run.Runs sem w' log₂ r w'' := by
  rw [ExceptT.run_bind] at h
  obtain ⟨a | a, log₁, log₂, w', rfl, h₁, h₂⟩ := of_bind h
  · obtain ⟨rfl, rfl, rfl⟩ := of_pure h₂
    rw [List.append_nil]
    exact .inl ⟨a, h₁, rfl⟩
  · exact .inr ⟨a, log₁, log₂, w', rfl, h₁, h₂⟩

/-- A run is one on any world that simulates the first one. -/
lemma simulate {V : Type} {semV : (o : I.Op) → V → I.Answer o → V → Prop} {R : W → V → Prop}
    (hstep : ∀ o w r w' v, R w v → sem o w r w' → ∃ v', semV o v r v' ∧ R w' v')
    {p : Prog I α} {a : α}
    (h : p.Runs sem w log a w') {v : V} (hv : R w v) : ∃ v', p.Runs semV v log a v' ∧ R w' v' := by
  induction h generalizing v with
  | pure a w => exact ⟨v, .pure a v, hv⟩
  | call hs _ ih =>
      obtain ⟨v₁, hs', hv₁⟩ := hstep _ _ _ _ v hv hs
      obtain ⟨v', h', hv'⟩ := ih hv₁
      exact ⟨v', .call hs' h', hv'⟩

/-- What every operation a program may call keeps, its runs keep. -/
lemma keeps {Q : I.Op → Prop} {φ : W → Prop}
    (hstep : ∀ o w r w', Q o → sem o w r w' → φ w → φ w') {p : Prog I α} (hp : p.All Q) {a : α}
    (h : p.Runs sem w log a w') (hφ : φ w) : φ w' := by
  induction h with
  | pure => exact hφ
  | call hs _ ih => exact ih (hp.2 _) (hstep _ _ _ _ hp.1 hs hφ)

lemma imp (hsem : ∀ o w r w', sem o w r w' → sem' o w r w') {p : Prog I α} {a : α}
    (h : p.Runs sem w log a w') : p.Runs sem' w log a w' := by
  induction h with
  | pure a w => exact .pure a w
  | call hs _ ih => exact .call (hsem _ _ _ _ hs) ih

end Runs

/-- Where every operation has an answer, every program has a run. -/
lemma exists_runs (hsem : ∀ o w, ∃ r w', sem o w r w') (p : Prog I α) (w : W) :
    ∃ log a w', p.Runs sem w log a w' := by
  induction p generalizing w with
  | pure a => exact ⟨[], a, w, .pure a w⟩
  | call o k ih =>
      obtain ⟨r, w', hs⟩ := hsem o w
      obtain ⟨log, a, w'', h⟩ := ih r w'
      exact ⟨_, a, w'', .call hs h⟩

end

end Prog
