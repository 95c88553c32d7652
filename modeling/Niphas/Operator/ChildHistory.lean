import Niphas.Operator.Children
import Niphas.Operator.StatusHistory

/-!
# The child resources over time

A workload is applied again and again, each time from another spec.  `apply_child_resources` looks
at the last one alone, and it only ever applies: there is no call that deletes a child.

So the children in the cluster are not a function of the last spec, though one might wish they were.
They are a function of the history, and a simple one: for each kind, the last version that asked for
a child of it counts.  `children_of_history` says this of every history of applies that succeeded,
by induction on it, and `ChildHistory.converged_iff` says for which of them it comes to the same.
The documentation lists what is created under which condition on the spec, and that is what happens;
what becomes of a child whose condition does not hold any more, it does not say.

* `children_of_history` — a child the last spec asks for is what the builders render from it; one it
  does not ask for is what the last spec that did left, if there was one.
* `ChildHistory.converged_iff` — so only the last spec counts exactly if no earlier one asked for
  more.
* `service_remains` — a Service outlives its part of the spec.
-/

namespace Niphas

open System

/-! ## Histories -/

/-- The versions of one workload that have been applied, in order and each with success, and the
children they have left. -/
inductive ChildHistory (name ns : String) : List (NiphasWorkload × EvalResult) → Children → Prop
  | nil : ChildHistory name ns [] .empty
  | snoc {history : List (NiphasWorkload × EvalResult)} {wl : NiphasWorkload} {r : EvalResult}
      {w w' : Children} :
      ChildHistory name ns history w → wl.nameAny = name → wl.ns = ns →
        Solo childSystem (fun _ _ _ _ => True) 0 (childSystem.program (wl, r)) w (.ok ()) w' →
          ChildHistory name ns (history ++ [(wl, r)]) w'

/-- What the last version that asked for a child of this kind rendered. -/
def lastRendered (history : List (NiphasWorkload × EvalResult)) (kind : ChildKind) : Option Json :=
  history.reverse.findSome? fun version => rendered version.1 version.2 kind

lemma lastRendered_snoc (history : List (NiphasWorkload × EvalResult)) (wl : NiphasWorkload)
    (r : EvalResult) (kind : ChildKind) :
    lastRendered (history ++ [(wl, r)]) kind =
      (rendered wl r kind).or (lastRendered history kind) := by
  rw [lastRendered, List.reverse_append, List.findSome?_append]
  cases h : rendered wl r kind with
  | none => simp [h, lastRendered]
  | some manifest => simp [h]

lemma lastRendered_eq_none {history : List (NiphasWorkload × EvalResult)} {kind : ChildKind} :
    lastRendered history kind = none ↔
      ∀ version ∈ history, rendered version.1 version.2 kind = none := by
  simp [lastRendered]

namespace ChildHistory

variable {name ns : String} {history : List (NiphasWorkload × EvalResult)} {w : Children}

/-- The children after a history, and nothing else under the workload's or any other name. -/
lemma get_eq (h : ChildHistory name ns history w) (kind : ChildKind) (n n' : String) :
    w.get kind n n' =
      if n = childName name kind ∧ n' = ns then lastRendered history kind else none := by
  induction h with
  | nil => simp [Children.empty, lastRendered]
  | @snoc history wl r w w' _ hname hns hrun ih =>
      obtain rfl : w' = w.applyAll (childManifests wl r) :=
        (solo_applyChildren_iff fun _ _ => trivial).mp hrun
      rw [get_applyAll_childManifests, ih, hname, hns, lastRendered_snoc]
      split
      · rfl
      · rfl

/-- The names of a history are those of the workload. -/
lemma names_eq (h : ChildHistory name ns history w) :
    ∀ version ∈ history, version.1.nameAny = name ∧ version.1.ns = ns := by
  induction h with
  | nil => simp
  | @snoc history wl r w w' _ hname hns _ ih =>
      intro version hmem
      rcases List.mem_append.mp hmem with hmem | hmem
      · exact ih version hmem
      · obtain rfl := List.mem_singleton.mp hmem
        exact ⟨hname, hns⟩

end ChildHistory

/-! ## What is left -/

/-- The children are those the builders render from this version, and there are no others. -/
def Children.Converged (w : Children) (wl : NiphasWorkload) (r : EvalResult) : Prop :=
  ∀ kind n n', w.get kind n n' =
    if n = childName wl.nameAny kind ∧ n' = wl.ns then rendered wl r kind else none

/-- **The children after a history of applies.**  Those the last version asks for are rendered from
it, the Deployment always; one it does not ask for is as the last version that asked for it has left
it, and there is none if no version did. -/
theorem children_of_history {name ns : String} {earlier : List (NiphasWorkload × EvalResult)}
    {wl : NiphasWorkload} {r : EvalResult} {w : Children}
    (h : ChildHistory name ns (earlier ++ [(wl, r)]) w) :
    w.get .deployment name ns = some (buildDeployment wl r name ns) ∧
      (∀ kind manifest, rendered wl r kind = some manifest →
        w.get kind (childName name kind) ns = some manifest) ∧
      (∀ kind, rendered wl r kind = none →
        w.get kind (childName name kind) ns = lastRendered earlier kind) ∧
      ∀ kind n n', ¬ (n = childName name kind ∧ n' = ns) → w.get kind n n' = none := by
  have hget : ∀ kind, w.get kind (childName name kind) ns =
      (rendered wl r kind).or (lastRendered earlier kind) := by
    intro kind
    rw [h.get_eq, if_pos ⟨rfl, rfl⟩, lastRendered_snoc]
  obtain ⟨hname, hns⟩ := h.names_eq (wl, r) (by simp)
  refine ⟨?_, fun kind manifest hr => ?_, fun kind hr => ?_, fun kind n n' hne => ?_⟩
  · have hdeploy := hget .deployment
    rw [rendered, hname, hns, Option.some_or] at hdeploy
    exact hdeploy
  · rw [hget, hr, Option.some_or]
  · rw [hget, hr, Option.none_or]
  · rw [h.get_eq, if_neg hne]

/-- Only the last version counts exactly if no earlier one asked for a child that it does not. -/
theorem ChildHistory.converged_iff {name ns : String} {earlier : List (NiphasWorkload × EvalResult)}
    {wl : NiphasWorkload} {r : EvalResult} {w : Children}
    (h : ChildHistory name ns (earlier ++ [(wl, r)]) w) :
    w.Converged wl r ↔ ∀ kind, rendered wl r kind = none →
      ∀ version ∈ earlier, rendered version.1 version.2 kind = none := by
  obtain ⟨hname, hns⟩ := h.names_eq (wl, r) (by simp)
  simp only at hname hns
  constructor
  · intro hconv kind hr
    have hget := hconv kind (childName name kind) ns
    rw [h.get_eq, if_pos ⟨rfl, rfl⟩, hname, hns, if_pos ⟨rfl, rfl⟩, lastRendered_snoc, hr,
      Option.none_or] at hget
    exact lastRendered_eq_none.mp hget
  · intro hearlier kind n n'
    rw [h.get_eq, hname, hns, lastRendered_snoc]
    split
    · cases hr : rendered wl r kind with
      | none => exact lastRendered_eq_none.mpr (hearlier kind hr)
      | some manifest => rfl
    · rfl

/-! ## A Service that stays -/

/-- The workload, with a Service. -/
def helloServed : NiphasWorkload :=
  { helloWorkload with
    spec := { helloWorkload.spec with service := some { type := none, ports := [] } } }

/-- The Service is taken out of the spec again. -/
lemma history_unserved :
    ChildHistory "hello" "apps" ([(helloServed, helloResult)] ++ [(helloWorkload, helloResult)])
      ((Children.empty.applyAll (childManifests helloServed helloResult)).applyAll
        (childManifests helloWorkload helloResult)) :=
  have hserved : ChildHistory "hello" "apps" ([] ++ [(helloServed, helloResult)]) _ :=
    .snoc .nil rfl rfl ((solo_applyChildren_iff fun _ _ => trivial).mpr rfl)
  .snoc hserved rfl rfl ((solo_applyChildren_iff fun _ _ => trivial).mpr rfl)

theorem children_of_history_hello :
    ∃ w, ChildHistory "hello" "apps"
      ([(helloServed, helloResult)] ++ [(helloWorkload, helloResult)]) w ∧
      w.get .deployment "hello" "apps" =
        some (buildDeployment helloWorkload helloResult "hello" "apps") :=
  ⟨_, history_unserved, (children_of_history history_unserved).1⟩

/-- **A Service outlives its part of the spec**: nothing takes it away. -/
theorem service_remains :
    ¬ ∀ (name ns : String) (earlier : List (NiphasWorkload × EvalResult)) (wl : NiphasWorkload)
        (r : EvalResult) (w : Children), ChildHistory name ns (earlier ++ [(wl, r)]) w →
          w.Converged wl r := by
  intro hall
  have hconv := hall "hello" "apps" [(helloServed, helloResult)] _ _ _ history_unserved
  have hno := (ChildHistory.converged_iff history_unserved).mp hconv .service rfl _
    (List.mem_singleton.mpr rfl)
  cases hno

end Niphas
