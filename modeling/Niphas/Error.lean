/-!
# `NiphasError`

The error type shared by the crates of the workspace.  Errors of other libraries (the Kubernetes
client, `std::io`, `serde_json`) appear as the text they display.

The variants and the texts of their `#[error(..)]` attributes are those of the source, also where no
modelled function returns the variant: other code matches on them.  Functions that may panic return
a `Result`, in which a panic is a `Fault` beside the errors.  It passes through every `?`, so a `do`
block in `Result` ends with it as the Rust function does, and a caller that handles errors has to
say what it does with a panic.  The two lemmas on loops are about the first element at which the
body fails.
-/

namespace Niphas

/-- `NiphasError`, variant for variant. -/
inductive NiphasError where
  | kube (e : String)
  | invalidInput (msg : String)
  | nixEval (msg : String)
  | evalTimeout (secs : Nat)
  | flakeNotAllowed (msg : String)
  | storePathNotFound (msg : String)
  | invalidStorePath (msg : String)
  | narParse (msg : String)
  | narInfoParse (msg : String)
  | hashMismatch (expected actual : String)
  | signatureVerification (msg : String)
  | cache (msg : String)
  | storePathNotCached (msg : String)
  | closureResolution (msg : String)
  | mount (msg : String)
  | io (e : String)
  | http (msg : String)
  | timeout (msg : String)
  | serialization (e : String)
  | config (msg : String)
  deriving DecidableEq, Repr

namespace NiphasError

/-- What an error displays, as its `#[error(..)]` attribute says. -/
def toString : NiphasError → String
  | kube e => "kubernetes api error: " ++ e
  | invalidInput msg => "invalid input: " ++ msg
  | nixEval msg => "nix evaluation failed: " ++ msg
  | evalTimeout secs => "evaluation timed out after " ++ Nat.repr secs ++ "s"
  | flakeNotAllowed msg => "flake not allowed: " ++ msg
  | storePathNotFound msg => "store path not found: " ++ msg
  | invalidStorePath msg => "invalid store path: " ++ msg
  | narParse msg => "NAR parse error: " ++ msg
  | narInfoParse msg => ".narinfo parse error: " ++ msg
  | hashMismatch expected actual =>
      "hash mismatch: expected " ++ expected ++ ", got " ++ actual
  | signatureVerification msg => "signature verification failed: " ++ msg
  | cache msg => "cache error: " ++ msg
  | storePathNotCached msg => "store path not cached: " ++ msg
  | closureResolution msg => "closure resolution failed: " ++ msg
  | mount msg => "mount failed: " ++ msg
  | io e => "I/O error: " ++ e
  | http msg => "HTTP error: " ++ msg
  | timeout msg => "timeout: " ++ msg
  | serialization e => "serialization error: " ++ e
  | config msg => "config error: " ++ msg

end NiphasError

/-- How a call can fail to return a value: with an error, or by a panic (an index or a slice
bound out of range).  A panic passes through every `?` on its way up. -/
inductive Fault where
  | err (e : NiphasError)
  | panic
  deriving DecidableEq, Repr

/-- `Result<T, NiphasError>` of a function that may also panic. -/
abbrev Result (α : Type) := Except Fault α

@[simp] theorem Result.ok_bind {α β : Type} (a : α) (f : α → Result β) :
    ((Except.ok a : Result α) >>= f) = f a := rfl

/-- `return Err(e)` in such a function. -/
def fail {α : Type} (e : NiphasError) : Result α := .error (.err e)

/-- `.map_err(..)?` and `?` applied to a call that cannot panic. -/
def Result.ofExcept {α : Type} : Except NiphasError α → Result α
  | .ok a => .ok a
  | .error e => fail e

theorem Result.ofExcept_eq_ok {α : Type} {r : Except NiphasError α} {a : α} :
    Result.ofExcept r = .ok a ↔ r = .ok a := by
  cases r with
  | ok b => exact ⟨fun h => congrArg _ (Except.ok.inj h), fun h => congrArg _ (Except.ok.inj h)⟩
  | error e => exact ⟨nofun, nofun⟩

/-- A loop fails where its body does, at the first element for which it does. -/
theorem Result.foldlM_eq_error {α β : Type} {step : β → α → Result β} {l : List α} {b : β}
    {e : Fault} :
    l.foldlM step b = .error e ↔ ∃ pre x post b', l = pre ++ x :: post ∧
      pre.foldlM step b = .ok b' ∧ step b' x = .error e := by
  constructor
  · intro h
    induction l generalizing b with
    | nil => cases h
    | cons x l ih =>
        rw [List.foldlM_cons] at h
        cases hstep : step b x with
        | error e' =>
            rw [hstep] at h
            cases h
            exact ⟨[], x, l, b, rfl, rfl, hstep⟩
        | ok b₁ =>
            rw [hstep] at h
            obtain ⟨pre, y, post, b', rfl, hpre, hy⟩ := ih h
            refine ⟨x :: pre, y, post, b', rfl, ?_, hy⟩
            rw [List.foldlM_cons, hstep]
            exact hpre
  · rintro ⟨pre, x, post, b', rfl, hpre, hx⟩
    rw [List.foldlM_append, hpre, Result.ok_bind, List.foldlM_cons, hx]
    rfl

/-- The same for a loop that collects. -/
theorem Result.mapM_eq_error {α β : Type} {f : α → Result β} {l : List α} {e : Fault} :
    l.mapM f = .error e ↔ ∃ pre x post, l = pre ++ x :: post ∧ (∀ y ∈ pre, ∃ b, f y = .ok b) ∧
      f x = .error e := by
  constructor
  · intro h
    induction l with
    | nil => cases h
    | cons x l ih =>
        rw [List.mapM_cons] at h
        cases hx : f x with
        | error e' =>
            rw [hx] at h
            cases h
            exact ⟨[], x, l, rfl, fun _ h => (by cases h), hx⟩
        | ok b =>
            cases hl : l.mapM f with
            | ok bs =>
                rw [hx, hl] at h
                cases h
            | error e' =>
                rw [hx, hl] at h
                cases h
                obtain ⟨pre, y, post, rfl, hpre, hy⟩ := ih hl
                exact ⟨x :: pre, y, post, rfl, List.forall_mem_cons.mpr ⟨⟨b, hx⟩, hpre⟩, hy⟩
  · rintro ⟨pre, x, post, rfl, hpre, hx⟩
    induction pre with
    | nil =>
        rw [List.nil_append, List.mapM_cons, hx]
        rfl
    | cons y pre ih =>
        obtain ⟨⟨b, hy⟩, hpre⟩ := List.forall_mem_cons.mp hpre
        rw [List.cons_append, List.mapM_cons, hy, Result.ok_bind, ih hpre]
        rfl

/-- An operation that panics where it has no value. -/
def Result.orPanic {α : Type} : Option α → Result α
  | some a => .ok a
  | none => .error .panic

end Niphas
