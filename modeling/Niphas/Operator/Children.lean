import Niphas.Operator.Reconciler

/-!
# The child resources in the cluster

`apply_child_resources` sends one forced server-side apply per child.  The server makes the fields
of the manifest the operator's part of the object, whatever that was before, and leaves every other
object alone.

Of an object only this part is represented: the last manifest the operator has applied.  Fields that
others own are not seen here, and neither are the defaults the server fills in.  There is no
operation that deletes a child, because the source has none; children go with their owner, which is
not modelled.

The four builders are called one after the other, and each child has its kind, its name and its
namespace to be found by.  `rendered` turns this around and says for each kind what is rendered, if
anything.  The list that is applied and the four answers are connected once, in `childManifests_eq`,
and the properties that speak of children use the answers only.

* `Children` — the operator's part of each child there is.
* `rendered` — what the builders render of each kind, and `get_applyAll_childManifests`: applying
  the children of a workload replaces what is rendered and keeps the rest.
* `solo_applyChildren_iff` — a run of `apply_child_resources` that succeeds has applied them all.
-/

namespace Niphas

open System

/-! ## The children -/

/-- The children there are: the operator's part of each, by kind, name and namespace. -/
@[ext]
structure Children where
  get : ChildKind → String → String → Option Json

/-- What a manifest says of one child. -/
def ChildManifest.at (child : ChildManifest) (kind : ChildKind) (name ns : String) : Option Json :=
  if kind = child.kind ∧ name = child.name ∧ ns = child.ns then some child.manifest else none

namespace Children

/-- Nothing has been applied. -/
def empty : Children := ⟨fun _ _ _ => none⟩

/-- A forced apply. -/
def apply (w : Children) (child : ChildManifest) : Children :=
  ⟨fun kind name ns => (child.at kind name ns).or (w.get kind name ns)⟩

/-- Several applies, one after the other. -/
def applyAll (w : Children) (children : List ChildManifest) : Children := children.foldl apply w

/-- The last manifest of a child is the one that stays. -/
lemma get_applyAll (w : Children) (children : List ChildManifest) (kind : ChildKind)
    (name ns : String) :
    (w.applyAll children).get kind name ns =
      (children.reverse.findSome? fun child => child.at kind name ns).or (w.get kind name ns) := by
  induction children generalizing w with
  | nil => rfl
  | cons child rest ih =>
      have hstep : w.applyAll (child :: rest) = (w.apply child).applyAll rest := rfl
      rw [hstep, ih, List.reverse_cons, List.findSome?_append, Option.or_assoc]
      congr 1
      cases hat : child.at kind name ns with
      | none => simp [apply, hat]
      | some manifest => simp [apply, hat]

end Children

/-! ## What is rendered -/

/-- The name of the child of each kind. -/
def childName (name : String) : ChildKind → String
  | .podDisruptionBudget => pdbName name
  | _ => name

/-- What the builders render of each kind, if the spec asks for it. -/
def rendered (workload : NiphasWorkload) (evalResult : EvalResult) : ChildKind → Option Json
  | .deployment => some (buildDeployment workload evalResult workload.nameAny workload.ns)
  | .service => workload.spec.service.map fun s =>
      buildService workload s workload.nameAny workload.ns
  | .ingress => (workload.spec.ingress.filter (·.enabled)).map fun i =>
      buildIngress workload i workload.nameAny workload.ns
  | .podDisruptionBudget =>
      if 2 ≤ workload.desired then some (buildPdb workload workload.nameAny workload.ns) else none

/-- The manifest of one kind, if it is rendered. -/
def renderedManifest (workload : NiphasWorkload) (evalResult : EvalResult) (kind : ChildKind) :
    Option ChildManifest :=
  (rendered workload evalResult kind).map fun manifest =>
    { kind, name := childName workload.nameAny kind, ns := workload.ns, manifest }

/-- The children of a workload are those rendered, one of each kind. -/
lemma childManifests_eq (workload : NiphasWorkload) (evalResult : EvalResult) :
    childManifests workload evalResult =
      (renderedManifest workload evalResult .deployment).toList ++
      (renderedManifest workload evalResult .service).toList ++
      (renderedManifest workload evalResult .ingress).toList ++
      (renderedManifest workload evalResult .podDisruptionBudget).toList := by
  rw [childManifests]
  congr 1
  · congr 1
    · congr 1
      cases hs : workload.spec.service <;> simp [renderedManifest, rendered, hs, childName]
    · cases hi : workload.spec.ingress.filter (·.enabled) <;>
        simp [renderedManifest, rendered, hi, childName]
  · by_cases hp : 2 ≤ workload.spec.replicas.getD 1 <;>
      simp [renderedManifest, rendered, NiphasWorkload.desired, hp, childName]

/-- The Deployment comes first, and only once. -/
lemma childManifests_cons (workload : NiphasWorkload) (evalResult : EvalResult) :
    ∃ rest, childManifests workload evalResult =
        { kind := .deployment, name := workload.nameAny, ns := workload.ns
          manifest := buildDeployment workload evalResult workload.nameAny workload.ns } :: rest ∧
      ∀ child ∈ rest, child.kind ≠ .deployment := by
  have hkind : ∀ kind, kind ≠ .deployment →
      ∀ child ∈ (renderedManifest workload evalResult kind).toList, child.kind ≠ .deployment := by
    intro kind hkind child hmem
    obtain ⟨manifest, -, rfl⟩ := Option.map_eq_some_iff.mp (Option.mem_toList.mp hmem)
    exact hkind
  refine ⟨_, (childManifests_eq workload evalResult).trans rfl, fun child hmem => ?_⟩
  rcases List.mem_append.mp hmem with hmem | hmem
  · rcases List.mem_append.mp hmem with hmem | hmem
    · exact hkind .service (by decide) child hmem
    · exact hkind .ingress (by decide) child hmem
  · exact hkind .podDisruptionBudget (by decide) child hmem

/-- What the manifest of one kind says of a child. -/
lemma renderedManifest_at (workload : NiphasWorkload) (evalResult : EvalResult)
    (kind kind' : ChildKind) (name ns : String) :
    (renderedManifest workload evalResult kind').toList.reverse.findSome?
        (fun child => child.at kind name ns) =
      if kind = kind' ∧ name = childName workload.nameAny kind' ∧ ns = workload.ns then
        rendered workload evalResult kind' else none := by
  rw [renderedManifest]
  cases rendered workload evalResult kind' with
  | none => simp
  | some manifest => simp [ChildManifest.at]

/-- **Applying the children of a workload** replaces those that are rendered and keeps all
others. -/
theorem get_applyAll_childManifests (w : Children) (workload : NiphasWorkload)
    (evalResult : EvalResult) (kind : ChildKind) (name ns : String) :
    (w.applyAll (childManifests workload evalResult)).get kind name ns =
      (if name = childName workload.nameAny kind ∧ ns = workload.ns then
        rendered workload evalResult kind else none).or (w.get kind name ns) := by
  rw [Children.get_applyAll, childManifests_eq]
  simp only [List.reverse_append, List.findSome?_append, renderedManifest_at]
  cases kind <;> simp

/-! ## Running `apply_child_resources` -/

/-- What the operations do to the children.  An apply that fails may have had its effect. -/
def KubeOp.ChildSem : (o : KubeOp) → Children → kubeInterface.Answer o → Children → Prop
  | .apply child, w, r, w' => w' = w.apply child ∨ (∃ e, r = .error e) ∧ w' = w
  | _, w, _, w' => w' = w

/-- `apply_child_resources`, on the children. -/
def childSystem : System where
  iface := kubeInterface
  World := Children
  Call := NiphasWorkload × EvalResult
  Out := Except String Unit
  program call := applyChildren (childManifests call.1 call.2)
  sem _ := KubeOp.ChildSem
  begins w _ _ _ w' := w' = w
  env _ _ := False
  crash w w' := w' = w

/-- An `apply_child_resources` that succeeds has applied every child. -/
lemma solo_applyChildren_iff {Q : childSystem.OpCond} {p : ℕ}
    (hQ : ∀ child w, Q p (.apply child) (.ok ()) w) {children : List ChildManifest}
    {w w' : Children} :
    Solo childSystem Q p (applyChildren children) w (.ok ()) w' ↔ w' = w.applyAll children := by
  induction children generalizing w with
  | nil =>
      constructor
      · intro h
        exact (Solo.of_pure h).2
      · rintro rfl
        exact .pure
  | cons child rest ih =>
      constructor
      · intro h
        obtain ⟨r, w₁, hop, hrest⟩ := Solo.of_bind h
        rcases r with e | ⟨⟩
        · cases (Solo.of_pure hrest).1
        · rcases Solo.of_op hop with rfl | ⟨⟨e, he⟩, -⟩
          · exact ih.mp hrest
          · cases he
      · rintro rfl
        have hs : KubeOp.ChildSem (.apply child) w (.ok ()) (w.apply child) := .inl rfl
        have hop : Solo childSystem Q p (Prog.op (I := kubeInterface) (.apply child)) w (.ok ())
            (w.apply child) := .call hs (hQ child w) .pure
        exact hop.bind (ih.mpr rfl)

end Niphas
