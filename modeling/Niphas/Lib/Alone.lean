import Niphas.Lib.Interleaving

/-!
# Total correctness of calls that run alone

Where nothing comes between the operations of a program, its postcondition can be about everything
it may return, and about its coming to an end at all.

A triple says what is so if the program returns, and it is met by a program that waits for ever.
`Alone` says in addition that there is an answer at each operation.  It does so for all answers that
are considered at once, so there is one proof for a program whose operations may answer in several
ways, and the promise is made for each of them.  Programs are trees of finite depth, so a program
that can always go on comes to its end.

* `System.Alone` — at every operation there is an answer, and with every answer the program goes on
  to its postcondition.  Rules: `Alone.mono`, `Alone.bind`, `alone_op`.
* `System.AloneOk` — the same for programs that may return early, and do not.  Rules:
  `AloneOk.bind`, `aloneOk_pure`, `aloneOk_lift`.
* `System.Alone.sound` — such a program has a run, and all its runs end with the postcondition.
-/

namespace System

variable {S : System} {Q : S.OpCond} {p : ℕ} {α β ε : Type}

/-- Run alone from `w` with operations that meet `Q`, the program has an answer at each of them, and
`post` holds of what it returns. -/
def Alone (Q : S.OpCond) (p : ℕ) : Prog S.iface α → S.World → (α → S.World → Prop) → Prop
  | .pure a, w, post => post a w
  | .call o k, w, post => (∃ r w', S.sem p o w r w' ∧ Q p o r w) ∧
      ∀ r w', S.sem p o w r w' → Q p o r w → Alone Q p (k r) w' post

variable {post post' : α → S.World → Prop} {w : S.World}

/-- The rule of consequence. -/
lemma Alone.mono {prog : Prog S.iface α} (h : Alone Q p prog w post)
    (himp : ∀ a w, post a w → post' a w) : Alone Q p prog w post' := by
  induction prog generalizing w with
  | pure a => exact himp a w h
  | call o k ih => exact ⟨h.1, fun r w' hs hq => ih r (h.2 r w' hs hq)⟩

/-- The rule of sequencing. -/
lemma Alone.bind {prog : Prog S.iface α} {f : α → Prog S.iface β} {post : β → S.World → Prop}
    (h : Alone Q p prog w fun a w' => Alone Q p (f a) w' post) :
    Alone Q p (prog >>= f) w post := by
  induction prog generalizing w with
  | pure a => exact h
  | call o k ih => exact ⟨h.1, fun r w' hs hq => ih r (h.2 r w' hs hq)⟩

/-- **Soundness.** -/
theorem Alone.sound {prog : Prog S.iface α} (h : Alone Q p prog w post) :
    (∃ a w', Solo S Q p prog w a w') ∧ ∀ a w', Solo S Q p prog w a w' → post a w' := by
  induction prog generalizing w with
  | pure a =>
      refine ⟨⟨a, w, .pure⟩, fun b w' hsolo => ?_⟩
      obtain ⟨rfl, rfl⟩ := Solo.of_pure hsolo
      exact h
  | call o k ih =>
      obtain ⟨⟨r, w₁, hs, hq⟩, hk⟩ := h
      constructor
      · obtain ⟨a, w', hsolo⟩ := (ih r (hk r w₁ hs hq)).1
        exact ⟨a, w', .call hs hq hsolo⟩
      · intro a w' hsolo
        cases hsolo with
        | call hs hq hsolo => exact (ih _ (hk _ _ hs hq)).2 a w' hsolo

/-! ## Programs that may return early -/

/-- The program does not return early. -/
def AloneOk (Q : S.OpCond) (p : ℕ) (prog : ExceptT ε (Prog S.iface) α) (w : S.World)
    (post : α → S.World → Prop) : Prop :=
  Alone Q p prog.run w fun out w' => ∃ a, out = .ok a ∧ post a w'

lemma AloneOk.mono {prog : ExceptT ε (Prog S.iface) α} (h : AloneOk Q p prog w post)
    (himp : ∀ a w, post a w → post' a w) : AloneOk Q p prog w post' := by
  refine Alone.mono h ?_
  rintro _ w' ⟨a, rfl, ha⟩
  exact ⟨a, rfl, himp a w' ha⟩

lemma AloneOk.bind {prog : ExceptT ε (Prog S.iface) α} {f : α → ExceptT ε (Prog S.iface) β}
    {post : β → S.World → Prop}
    (h : AloneOk Q p prog w fun a w' => AloneOk Q p (f a) w' post) :
    AloneOk Q p (prog >>= f) w post := by
  rw [AloneOk, ExceptT.run_bind]
  refine Alone.bind (Alone.mono h ?_)
  rintro _ w' ⟨a, rfl, ha⟩
  exact ha

lemma aloneOk_pure {a : α} (h : post a w) :
    AloneOk Q p (pure a : ExceptT ε (Prog S.iface) α) w post := ⟨a, rfl, h⟩

/-- A program that cannot return early. -/
lemma aloneOk_lift {prog : Prog S.iface α} (h : Alone Q p prog w post) :
    AloneOk Q p (ExceptT.lift prog : ExceptT ε (Prog S.iface) α) w post :=
  Alone.bind (h.mono fun a _ ha => ⟨a, rfl, ha⟩)

/-- The rule for one operation. -/
lemma alone_op {o : S.iface.Op} {post : S.iface.Answer o → S.World → Prop}
    (hsome : ∃ r w', S.sem p o w r w' ∧ Q p o r w)
    (h : ∀ r w', S.sem p o w r w' → Q p o r w → post r w') : Alone Q p (Prog.op o) w post :=
  ⟨hsome, h⟩

end System
