import Niphas.Lib.Interleaving

/-!
# Pre- and postconditions among other processes

Rules for the programs of a system, whose conditions are about the world.  The other processes act
between any two operations, so a condition that is to be used again has to be `Stable`: what the
process relies on does not break it.

A triple is relative to a contract (`RelyGuarantee`).  It says three things at once: with the
precondition, no step of the program breaks the invariant, none breaks what the others rely on, and
the postcondition holds of what is returned.  Stability is asked for where it is needed, of the
preconditions of operations and of what is framed around a part.  In between, the rules are those of
Hoare logic, and a proof follows the text of the program.

* `Triple` — where the precondition holds, the program is safe and ends with the postcondition.
  Rules: `Triple.pure`, `Triple.op`, `Triple.bind`, `Triple.conseq`, `Triple.frame`, `Triple.given`.
* `TripleExcept` — the same for programs that may return early, with a condition for that.  Rules:
  `TripleExcept.bind`, `TripleExcept.lift`, `TripleExcept.ofExcept`.
-/

namespace RelyGuarantee

variable {S : System} {α β ε : Type}

/-- A condition that the other processes do not break. -/
def Stable (G : RelyGuarantee S) (p : ℕ) (φ : S.World → Prop) : Prop :=
  ∀ w w', G.inv w → φ w → G.rely p w w' → G.inv w' → φ w'

/-- Where `pre` holds, the program is safe, and `post` holds of what it returns. -/
def Triple (G : RelyGuarantee S) (p : ℕ) (pre : S.World → Prop) (prog : Prog S.iface α)
    (post : α → S.World → Prop) : Prop :=
  ∀ w, G.inv w → pre w → G.Safe p prog post w

variable {G : RelyGuarantee S} {p : ℕ} {pre pre' : S.World → Prop}
  {post post' : α → S.World → Prop}

/-! ## Stable conditions -/

lemma stable_true : G.Stable p fun _ => True := fun _ _ _ _ _ _ => trivial

lemma stable_const (φ : Prop) : G.Stable p fun _ => φ := fun _ _ _ h _ _ => h

lemma Stable.and {φ ψ : S.World → Prop} (hφ : G.Stable p φ) (hψ : G.Stable p ψ) :
    G.Stable p fun w => φ w ∧ ψ w :=
  fun w w' hi h hr hi' => ⟨hφ w w' hi h.1 hr hi', hψ w w' hi h.2 hr hi'⟩

lemma Stable.imp {φ : Prop} {ψ : S.World → Prop} (hψ : G.Stable p ψ) :
    G.Stable p fun w => φ → ψ w :=
  fun w w' hi h hr hi' hφ => hψ w w' hi (h hφ) hr hi'

lemma Stable.all {ι : Type} {φ : ι → S.World → Prop} (h : ∀ i, G.Stable p (φ i)) :
    G.Stable p fun w => ∀ i, φ i w :=
  fun w w' hi hφ hr hi' i => h i w w' hi (hφ i) hr hi'

lemma Stable.ex {ι : Type} {φ : ι → S.World → Prop} (h : ∀ i, G.Stable p (φ i)) :
    G.Stable p fun w => ∃ i, φ i w := by
  rintro w w' hi ⟨i, hφ⟩ hr hi'
  exact ⟨i, h i w w' hi hφ hr hi'⟩

/-! ## Programs -/

lemma Triple.pure {a : α} (hpost : G.Stable p (post a))
    (h : ∀ w, G.inv w → pre w → post a w) : G.Triple p pre (.pure a) post :=
  fun w hi hpre w' hr hi' => hpost w w' hi (h w hi hpre) hr hi'

/-- The rule for one operation. -/
lemma Triple.op {o : S.iface.Op} {post : S.iface.Answer o → S.World → Prop}
    (hpre : G.Stable p pre) (hpost : ∀ r, G.Stable p (post r))
    (h : ∀ w, G.inv w → pre w → ∀ r w', S.sem p o w r w' → G.allowed p o r w →
      G.inv w' ∧ G.guar p w w' ∧ post r w') :
    G.Triple p pre (Prog.op o) post := by
  refine fun w hi hw => safe_call fun w₁ hr hi₁ r w₂ hs hallowed => ?_
  obtain ⟨hi₂, hg, hp⟩ := h w₁ hi₁ (hpre w w₁ hi hw hr hi₁) r w₂ hs hallowed
  exact ⟨hi₂, hg, safe_pure fun w₃ hr₃ hi₃ => hpost r w₂ w₃ hi₂ hp hr₃ hi₃⟩

/-- The rule of sequencing. -/
lemma Triple.bind {prog : Prog S.iface α} {f : α → Prog S.iface β} {post' : β → S.World → Prop}
    (h : G.Triple p pre prog post) (hf : ∀ a, G.Triple p (post a) (f a) post') :
    G.Triple p pre (prog >>= f) post' :=
  fun w hi hpre => Safe.bind ((h w hi hpre).mono fun a w' hi' hpost => hf a w' hi' hpost)

/-- The rule of consequence. -/
lemma Triple.conseq {prog : Prog S.iface α} (h : G.Triple p pre' prog post')
    (hpre : ∀ w, G.inv w → pre w → pre' w) (hpost : ∀ a w, G.inv w → post' a w → post a w) :
    G.Triple p pre prog post :=
  fun w hi hw => (h w hi (hpre w hi hw)).mono hpost

/-- What the precondition says of more than the world. -/
lemma Triple.given {φ : Prop} {prog : Prog S.iface α} (h : φ → G.Triple p pre prog post)
    (hφ : ∀ w, G.inv w → pre w → φ) : G.Triple p pre prog post :=
  fun w hi hw => h (hφ w hi hw) w hi hw

/-- A condition that nobody breaks, the process itself included, lasts. -/
lemma Safe.frame {φ : S.World → Prop} (hφ : G.Stable p φ)
    (hself : ∀ w w', φ w → G.guar p w w' → φ w') {prog : Prog S.iface α} {w : S.World}
    (h : G.Safe p prog post w) (hi : G.inv w) (hw : φ w) :
    G.Safe p prog (fun a w => post a w ∧ φ w) w := by
  induction prog generalizing w with
  | pure a => exact fun w' hr hi' => ⟨h w' hr hi', hφ w w' hi hw hr hi'⟩
  | call o k ih =>
      intro w' hr hi' r w'' hs hallowed
      obtain ⟨hi'', hg, hk⟩ := h w' hr hi' r w'' hs hallowed
      exact ⟨hi'', hg, ih r hk hi'' (hself w' w'' (hφ w w' hi hw hr hi') hg)⟩

/-- The frame rule. -/
lemma Triple.frame {φ : S.World → Prop} (hφ : G.Stable p φ)
    (hself : ∀ w w', φ w → G.guar p w w' → φ w') {prog : Prog S.iface α}
    (h : G.Triple p pre prog post) :
    G.Triple p (fun w => pre w ∧ φ w) prog fun a w => post a w ∧ φ w :=
  fun w hi hw => (h w hi hw.1).frame hφ hself hi hw.2

/-! ## Programs that may return early -/

/-- What holds at the end: `post` of a value, `failed` of an error. -/
def Ends (post : α → S.World → Prop) (failed : ε → S.World → Prop) :
    Except ε α → S.World → Prop
  | .ok a => post a
  | .error e => failed e

/-- Where `pre` holds, the program is safe, `post` holds of the value it returns, and `failed` of
the error it ends with. -/
def TripleExcept (G : RelyGuarantee S) (p : ℕ) (pre : S.World → Prop)
    (prog : ExceptT ε (Prog S.iface) α) (post : α → S.World → Prop)
    (failed : ε → S.World → Prop) : Prop :=
  G.Triple p pre prog.run (Ends post failed)

variable {failed : ε → S.World → Prop}

lemma TripleExcept.conseq {prog : ExceptT ε (Prog S.iface) α}
    (h : G.TripleExcept p pre' prog post' failed) (hpre : ∀ w, G.inv w → pre w → pre' w)
    (hpost : ∀ a w, G.inv w → post' a w → post a w) : G.TripleExcept p pre prog post failed := by
  refine Triple.conseq h hpre ?_
  rintro (e | a) w hi hend
  · exact hend
  · exact hpost a w hi hend

lemma TripleExcept.given {φ : Prop} {prog : ExceptT ε (Prog S.iface) α}
    (h : φ → G.TripleExcept p pre prog post failed) (hφ : ∀ w, G.inv w → pre w → φ) :
    G.TripleExcept p pre prog post failed := Triple.given h hφ

lemma TripleExcept.frame {φ : S.World → Prop} (hφ : G.Stable p φ)
    (hself : ∀ w w', φ w → G.guar p w w' → φ w') {prog : ExceptT ε (Prog S.iface) α}
    (h : G.TripleExcept p pre prog post failed) :
    G.TripleExcept p (fun w => pre w ∧ φ w) prog (fun a w => post a w ∧ φ w) failed := by
  refine Triple.conseq (Triple.frame hφ hself h) (fun _ _ hw => hw) ?_
  rintro (e | a) w - ⟨hend, hw⟩
  · exact hend
  · exact ⟨hend, hw⟩

/-- The rule of sequencing. -/
lemma TripleExcept.bind {prog : ExceptT ε (Prog S.iface) α}
    {f : α → ExceptT ε (Prog S.iface) β} {post' : β → S.World → Prop}
    (hfailed : ∀ e, G.Stable p (failed e)) (h : G.TripleExcept p pre prog post failed)
    (hf : ∀ a, G.TripleExcept p (post a) (f a) post' failed) :
    G.TripleExcept p pre (prog >>= f) post' failed := by
  refine fun w hi hpre => Safe.bindExcept ((h w hi hpre).mono ?_)
  rintro (e | a) w' hi' hend
  · exact safe_pure fun w'' hr hi'' => hfailed e w' w'' hi' hend hr hi''
  · exact hf a w' hi' hend

/-- The rule of sequencing, behind the second of two parts. -/
lemma TripleExcept.bindAssoc {γ : Type} {first : ExceptT ε (Prog S.iface) γ}
    {second : γ → ExceptT ε (Prog S.iface) α} {f : α → ExceptT ε (Prog S.iface) β}
    {post' : β → S.World → Prop} (hfailed : ∀ e, G.Stable p (failed e))
    (h : G.TripleExcept p pre (first >>= second) post failed)
    (hf : ∀ a, G.TripleExcept p (post a) (f a) post' failed) :
    G.TripleExcept p pre (first >>= fun c => second c >>= f) post' failed := by
  have hall := TripleExcept.bind hfailed h hf
  rwa [bind_assoc] at hall

/-- A program that does not return early. -/
lemma TripleExcept.lift {prog : Prog S.iface α} (hpost : ∀ a, G.Stable p (post a))
    (h : G.Triple p pre prog post) : G.TripleExcept p pre (ExceptT.lift prog) post failed :=
  Triple.bind h fun a => Triple.pure (hpost a) fun _ _ ha => ha

/-- A value or an early return. -/
lemma TripleExcept.ofExcept {r : Except ε α} (hpost : ∀ a, r = .ok a → G.Stable p (post a))
    (hfailed : ∀ e, G.Stable p (failed e))
    (h : ∀ w, G.inv w → pre w → Ends post failed r w) :
    G.TripleExcept p pre (ExceptT.mk (Prog.pure r)) post failed := by
  refine Triple.pure ?_ h
  cases r with
  | ok a => exact hpost a rfl
  | error e => exact hfailed e

end RelyGuarantee
