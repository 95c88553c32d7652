import Mathlib.Data.List.Basic
import Mathlib.Data.List.Infix

/-!
# Readers that accept exactly one encoding

A reader is a partial function on a state that carries the input still to be read.  What one
wants to know about it is an *equivalence*: it succeeds with `a` just when the input starts with
the one encoding of `a`, and then it has consumed that encoding and nothing else.  `Reads` is
that statement.  Soundness (what is accepted is canonical) and completeness (what is canonical
is accepted) are its two directions, so a format verified with `Reads` gets both at once.

* `InputStream` — the states a reader may work on: an input, and a way to consume part of it.
* `Reads p enc ok` — `p` accepts exactly the encodings `enc a` of the values `ok` allows.
* `Reads.bind_eq_ok` — how a reader in front of another one is removed from a goal.
* `Ends E P p Q` — `p` takes a state in `P` to one in `Q`, or fails with an error in `E`.
* `Agrees` — a reader does what another one does, or fails in a way of its own.
* `Couples R c p R'` — a reader does on one state what another one does on a related state.
-/

/-- A state with an input.  `advance s w` is the state in which `w` has been read off the input
of `s`, with whatever the state records about the bytes read. -/
class InputStream (σ : Type) (β : outParam Type) where
  input : σ → List β
  advance : σ → List β → σ
  input_advance : ∀ s w, input (advance s w) = (input s).drop w.length
  advance_nil : ∀ s, advance s [] = s
  advance_append : ∀ s v w, advance s (v ++ w) = advance (advance s v) w

/-- A computation that reads a value off its state or fails. -/
abbrev Reader (ε σ α : Type) := StateT σ (Except ε) α

namespace Reader

open InputStream

variable {ε σ β α γ : Type}

/-! ## Sequencing -/

@[simp] lemma pure_eq_ok {a b : α} {s s' : σ} :
    (pure a : Reader ε σ α) s = .ok (b, s') ↔ b = a ∧ s' = s := by
  change Except.ok (a, s) = .ok (b, s') ↔ _
  simp only [Except.ok.injEq, Prod.mk.injEq, eq_comm]

@[simp] lemma throw_ne_ok {e : ε} {b : α} {s s' : σ} :
    (throw e : Reader ε σ α) s ≠ .ok (b, s') := by
  change Except.error e ≠ .ok (b, s')
  exact fun h => by cases h

lemma bind_eq_ok {p : Reader ε σ α} {f : α → Reader ε σ γ} {s s' : σ} {c : γ} :
    (p >>= f) s = .ok (c, s') ↔ ∃ a s₁, p s = .ok (a, s₁) ∧ f a s₁ = .ok (c, s') := by
  change (p s >>= fun r => f r.1 r.2) = .ok (c, s') ↔ _
  cases hp : p s with
  | error e => simp [bind, Except.bind]
  | ok r =>
      obtain ⟨a, s₁⟩ := r
      simp only [bind, Except.bind, Except.ok.injEq, Prod.mk.injEq]
      exact ⟨fun h => ⟨a, s₁, ⟨rfl, rfl⟩, h⟩, fun ⟨_, _, ⟨ha, hs⟩, h⟩ => by rw [ha, hs]; exact h⟩

/-- How a sequence ends: early, or with its second part. -/
lemma bind_eq_iff {p : Reader ε σ α} {f : α → Reader ε σ γ} {s : σ} {out : Except ε (γ × σ)} :
    (p >>= f) s = out ↔
      (∃ e, p s = .error e ∧ out = .error e) ∨ ∃ a s₁, p s = .ok (a, s₁) ∧ f a s₁ = out := by
  change (p s >>= fun r => f r.1 r.2) = out ↔ _
  cases p s with
  | error e =>
      refine ⟨fun h => .inl ⟨e, rfl, h.symm⟩, ?_⟩
      rintro (⟨_, ⟨⟩, rfl⟩ | ⟨_, _, ⟨⟩, -⟩)
      rfl
  | ok r =>
      refine ⟨fun h => .inr ⟨r.1, r.2, rfl, h⟩, ?_⟩
      rintro (⟨_, ⟨⟩, -⟩ | ⟨_, _, ⟨⟩, h⟩)
      exact h

lemma bind_of_ok {p : Reader ε σ α} {f : α → Reader ε σ γ} {s : σ} {r : α × σ}
    (h : p s = .ok r) : (p >>= f) s = f r.1 r.2 := by
  change (p s >>= fun r => f r.1 r.2) = _
  rw [h]
  rfl

lemma bind_of_error {p : Reader ε σ α} {f : α → Reader ε σ γ} {s : σ} {e : ε}
    (h : p s = .error e) : (p >>= f) s = .error e := by
  change (p s >>= fun r => f r.1 r.2) = _
  rw [h]
  rfl

/-! ## Pre- and postconditions -/

/-- Started where `P` holds, `p` ends where `Q` holds, or with an error that `E` allows. -/
def Ends (E : ε → Prop) (P : σ → Prop) (p : Reader ε σ α) (Q : σ → Prop) : Prop :=
  ∀ s, P s → (∀ a s', p s = .ok (a, s') → Q s') ∧ ∀ e, p s = .error e → E e

section

variable {E : ε → Prop} {P P' Q Q' R : σ → Prop} {p : Reader ε σ α}

lemma Ends.pure {a : α} (h : ∀ s, P s → Q s) : Ends E P (pure a : Reader ε σ α) Q := by
  refine fun s hs => ⟨fun b s' hp => ?_, fun e hp => nomatch hp⟩
  obtain ⟨-, rfl⟩ := pure_eq_ok.mp hp
  exact h s' hs

/-- The rule of sequencing. -/
lemma Ends.bind {f : α → Reader ε σ γ} (hp : Ends E P p Q) (hf : ∀ a, Ends E Q (f a) R) :
    Ends E P (p >>= f) R := by
  intro s hs
  obtain ⟨hok, herror⟩ := hp s hs
  cases hrun : p s with
  | error e =>
      rw [bind_of_error hrun]
      exact ⟨nofun, fun e' he => Except.error.inj he ▸ herror e hrun⟩
  | ok r =>
      rw [bind_of_ok hrun]
      exact hf r.1 r.2 (hok r.1 r.2 hrun)

/-- The rule of consequence. -/
lemma Ends.conseq (hp : Ends E P p Q) (hpre : ∀ s, P' s → P s) (hpost : ∀ s, Q s → Q' s) :
    Ends E P' p Q' := by
  intro s hs
  obtain ⟨hok, herror⟩ := hp s (hpre s hs)
  exact ⟨fun a s' hrun => hpost s' (hok a s' hrun), herror⟩

/-- What does not depend on the state is a hypothesis. -/
lemma Ends.given {φ : Prop} (hp : φ → Ends E P p Q) : Ends E (fun s => φ ∧ P s) p Q :=
  fun s hs => hp hs.1 s hs.2

end

/-! ## Readers with further errors -/

/-- The same reader among those with other errors. -/
def withErrors {ε' : Type} (g : ε → ε') (p : Reader ε σ α) : Reader ε' σ α := fun s =>
  match p s with
  | .ok r => .ok r
  | .error e => .error (g e)

section

variable {ε' : Type} {g : ε → ε'} {added : ε' → Prop}

/-- `c` does what `p` does, or fails with an error that only it has. -/
def Agrees (g : ε → ε') (added : ε' → Prop) (c : Reader ε' σ α) (p : Reader ε σ α) : Prop :=
  ∀ s, c s = p.withErrors g s ∨ ∃ e, added e ∧ c s = .error e

lemma withErrors_eq_ok {p : Reader ε σ α} {s : σ} {r : α × σ} :
    p.withErrors g s = .ok r ↔ p s = .ok r := by
  rw [withErrors]
  cases p s with
  | ok r' => simp only [Except.ok.injEq]
  | error e => exact ⟨nofun, nofun⟩

lemma Agrees.withErrors (p : Reader ε σ α) : Agrees g added (p.withErrors g) p :=
  fun _ => .inl rfl

lemma Agrees.throw {e : ε'} (he : added e) (p : Reader ε σ α) :
    Agrees g added (throw e : Reader ε' σ α) p :=
  fun _ => .inr ⟨e, he, rfl⟩

lemma Agrees.pure (a : α) : Agrees g added (pure a : Reader ε' σ α) (pure a : Reader ε σ α) :=
  fun _ => .inl rfl

lemma Agrees.bind {c : Reader ε' σ α} {p : Reader ε σ α} {f : α → Reader ε' σ γ}
    {f' : α → Reader ε σ γ} (hc : Agrees g added c p) (hf : ∀ a, Agrees g added (f a) (f' a)) :
    Agrees g added (c >>= f) (p >>= f') := by
  intro s
  rcases hc s with hrun | ⟨e, he, hrun⟩
  · cases hp : p s with
    | error e =>
        have hc' : c s = .error (g e) := by rw [hrun, Reader.withErrors, hp]
        rw [bind_of_error hc', Reader.withErrors, bind_of_error hp]
        exact .inl rfl
    | ok r =>
        have hc' : c s = .ok r := by rw [hrun, Reader.withErrors, hp]
        rw [bind_of_ok hc', Reader.withErrors, bind_of_ok hp]
        exact hf r.1 r.2
  · exact .inr ⟨e, he, bind_of_error hrun⟩

end

/-! ## Readers on related states -/

section

variable {ε' τ : Type} {R R' R'' : σ → τ → Prop}

/-- From states that `R` relates, `c` returns what `p` returns and ends in states that `R'` relates,
and it fails where `p` fails. -/
def Couples (R : σ → τ → Prop) (c : Reader ε' σ α) (p : Reader ε τ α) (R' : σ → τ → Prop) : Prop :=
  ∀ s t, R s t →
    (∀ a t', p t = .ok (a, t') → ∃ s', c s = .ok (a, s') ∧ R' s' t') ∧
      ∀ e, p t = .error e → ∃ e', c s = .error e'

lemma Couples.pure (a : α) : Couples R (pure a : Reader ε' σ α) (pure a : Reader ε τ α) R := by
  refine fun s t hst => ⟨fun b t' hp => ?_, fun e hp => nomatch hp⟩
  obtain ⟨rfl, rfl⟩ := pure_eq_ok.mp hp
  exact ⟨s, rfl, hst⟩

lemma Couples.throw (e' : ε') (e : ε) :
    Couples R (throw e' : Reader ε' σ α) (throw e : Reader ε τ α) R' :=
  fun _ _ _ => ⟨fun _ _ hp => absurd hp throw_ne_ok, fun _ _ => ⟨e', rfl⟩⟩

/-- Coupled readers can be sequenced. -/
lemma Couples.bind {c : Reader ε' σ α} {p : Reader ε τ α} {f : α → Reader ε' σ γ}
    {g : α → Reader ε τ γ} (hp : Couples R c p R') (hf : ∀ a, Couples R' (f a) (g a) R'') :
    Couples R (c >>= f) (p >>= g) R'' := by
  intro s t hst
  obtain ⟨hok, herror⟩ := hp s t hst
  cases hrun : p t with
  | error e =>
      obtain ⟨e', he'⟩ := herror e hrun
      rw [bind_of_error hrun, bind_of_error he']
      exact ⟨nofun, fun _ _ => ⟨e', rfl⟩⟩
  | ok r =>
      obtain ⟨s', hs', hrel⟩ := hok r.1 r.2 hrun
      rw [bind_of_ok hrun, bind_of_ok hs']
      exact hf r.1 s' r.2 hrel

/-- What `c` returns, `p` returns. -/
lemma Couples.eq_ok {c : Reader ε' σ α} {p : Reader ε τ α} (h : Couples R c p R') {s s' : σ}
    {t : τ} {a : α} (hst : R s t) (hrun : c s = .ok (a, s')) :
    ∃ t', p t = .ok (a, t') ∧ R' s' t' := by
  obtain ⟨hok, herror⟩ := h s t hst
  cases hp : p t with
  | error e =>
      obtain ⟨e', he'⟩ := herror e hp
      rw [he'] at hrun
      cases hrun
  | ok r =>
      obtain ⟨s₁, hs₁, hrel⟩ := hok r.1 r.2 hp
      rw [hs₁] at hrun
      cases hrun
      exact ⟨r.2, rfl, hrel⟩

end

/-! ## Exact readers -/

variable [InputStream σ β]

/-- `p` accepts exactly the encodings of the values `ok` allows: it returns `a` just when the
input starts with `enc a`, and it leaves the state in which `enc a` has been read. -/
def Reads (p : Reader ε σ α) (enc : α → List β) (ok : σ → α → Prop) : Prop :=
  ∀ s a s', p s = .ok (a, s') ↔ ok s a ∧ enc a <+: input s ∧ s' = advance s (enc a)

/-- Reading `v` and then `w` is reading `v ++ w`. -/
lemma append_prefix_iff {s : σ} {v w : List β} :
    v ++ w <+: input s ↔ v <+: input s ∧ w <+: input (advance s v) := by
  rw [input_advance]
  constructor
  · rintro ⟨t, ht⟩
    rw [← ht, List.append_assoc]
    exact ⟨List.prefix_append _ _, by rw [List.drop_left]; exact List.prefix_append _ _⟩
  · rintro ⟨⟨t, ht⟩, h⟩
    rw [← ht, List.drop_left] at h
    rw [← ht]
    exact (List.prefix_append_right_inj v).mpr h

variable {p : Reader ε σ α} {enc : α → List β} {ok : σ → α → Prop} {s s' : σ}

/-- An exact reader in front of a continuation: the continuation runs on the state in which the
encoding has been read. -/
lemma Reads.bind_eq_ok (hp : Reads p enc ok) {f : α → Reader ε σ γ} {c : γ} :
    (p >>= f) s = .ok (c, s') ↔
      ∃ a, ok s a ∧ enc a <+: input s ∧ f a (advance s (enc a)) = .ok (c, s') := by
  rw [Reader.bind_eq_ok]
  constructor
  · rintro ⟨a, s₁, ha, hf⟩
    obtain ⟨hok, hpre, rfl⟩ := (hp s a s₁).mp ha
    exact ⟨a, hok, hpre, hf⟩
  · rintro ⟨a, hok, hpre, hf⟩
    exact ⟨a, _, (hp s a _).mpr ⟨hok, hpre, rfl⟩, hf⟩

/-- It can be run where the encoding is there. -/
lemma Reads.bind_of_begins (hp : Reads p enc ok) {f : α → Reader ε σ γ} {a : α} (hok : ok s a)
    (hpre : enc a <+: input s) : (p >>= f) s = f a (advance s (enc a)) :=
  bind_of_ok ((hp s a _).mpr ⟨hok, hpre, rfl⟩)

/-- Other errors do not change what is accepted. -/
lemma Reads.withErrors {ε' : Type} {g : ε → ε'} (hp : Reads p enc ok) :
    Reads (p.withErrors g) enc ok :=
  fun s a s' => withErrors_eq_ok.trans (hp s a s')

end Reader
