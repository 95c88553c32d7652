import Niphas.Operator.Reconciler

/-!
# A result read back from the status

A reconcile that need not evaluate again works from the result the last one has stored in the
status.  The main program is not stored; it is read off the resolved command, as what stands behind
its last `/`.

The status has the store path, the closure and the resolved command of a result, but neither its
name nor its main program.  The name is taken from the store path when the result is read back, and
the program from the command.  What comes back is given exactly, as a function of the result that
was stored (`EvalResult.restored`): a main program that lies in a directory comes back as its last
piece.

Whether this matters is a question about the Deployment, as nothing else is made of a result.  It
does not where the spec has a command of its own.

* `fromStatus_statusPatch` — what is read back from a status that `update_status` wrote.
* `cached_deployment` — the Deployment rendered from it is the one rendered from the result itself,
  unless the container runs the resolved command and the program in it contains a `/`.
-/

namespace Niphas

/-! ## The last piece of a path -/

lemma lastPiece_append (s prog : String) : lastPiece (s ++ "/" ++ prog) = lastPiece prog := by
  have hsplit : Str.split '/' (s ++ "/" ++ prog) = Str.split '/' s ++ Str.split '/' prog := by
    have hchars : (s ++ "/" ++ prog).toList = s.toList ++ '/' :: prog.toList := by simp
    rw [Str.split, hchars, Str.splitChars_append (decide_eq_true rfl), List.map_append]
    rfl
  have hne : Str.split '/' prog ≠ [] := by
    rw [Str.split, ne_eq, List.map_eq_nil_iff]
    exact Str.splitChars_ne_nil _ _
  rw [lastPiece, lastPiece, hsplit, List.getLast?_append_of_ne_nil _ hne]

/-- The last piece has no separator. -/
lemma not_mem_lastPiece (s : String) : '/' ∉ (lastPiece s).toList := by
  obtain ⟨last, hlast⟩ := Option.ne_none_iff_exists'.mp
    (mt List.getLast?_eq_none_iff.mp (Str.splitChars_ne_nil (· = '/') s.toList))
  intro hmem
  rw [lastPiece, Str.split, List.getLast?_map, hlast, Option.map_some, Option.getD_some,
    String.toList_ofList] at hmem
  have hsep := Str.sep_of_mem_splitChars (List.mem_of_getLast? hlast) '/' hmem
  exact Bool.false_ne_true (hsep.symm.trans (decide_eq_true rfl))

/-- A string is its own last piece if it has no separator. -/
lemma lastPiece_eq_self_iff {s : String} : lastPiece s = s ↔ '/' ∉ s.toList := by
  constructor
  · intro h
    rw [← h]
    exact not_mem_lastPiece s
  · intro h
    have hsplit : Str.splitChars (· = '/') s.toList = [s.toList] :=
      Str.splitChars_of_forall fun c hc => decide_eq_false (ne_of_mem_of_not_mem hc h)
    rw [lastPiece, Str.split, hsplit]
    exact String.ofList_toList

/-! ## The result -/

/-- The program of a result: the last part of its resolved command. -/
def EvalResult.program (r : EvalResult) : String := r.mainProgram.getD r.name

lemma EvalResult.resolvedCommand_eq (r : EvalResult) :
    r.resolvedCommand = r.storePath ++ "/bin" ++ "/" ++ r.program := by
  have hbin : r.storePath ++ "/bin" ++ "/" = r.storePath ++ "/bin/" := by
    rw [String.append_assoc]
    rfl
  rw [resolvedCommand, program, hbin]
  cases r.mainProgram <;> rfl

/-- The command depends on the store path and on the program. -/
lemma EvalResult.resolvedCommand_inj {r r' : EvalResult} (h : r'.storePath = r.storePath) :
    r'.resolvedCommand = r.resolvedCommand ↔ r'.program = r.program := by
  rw [r.resolvedCommand_eq, r'.resolvedCommand_eq, h, String.append_right_inj]

/-- What of a result with the store path `p` is read back: the name is the one in the path, the main
program the last piece of the program. -/
def EvalResult.restored (r : EvalResult) (p : StorePath) : EvalResult :=
  { r with name := p.name, mainProgram := some (lastPiece r.program) }

/-- What is read back from a status written by `update_status`. -/
lemma fromStatus_statusPatch {p : StorePath} (hname : p.name ≠ "") {r : EvalResult}
    (hr : r.storePath = p.toString) (prior : NiphasWorkloadStatus) (phase : WorkloadPhase)
    (ready desired : Int) (now : String) (generation : Int) :
    EvalResult.fromStatus ((statusPatch phase r ready desired now generation).apply prior) =
      .ok (some (r.restored p)) := by
  have hparse : StorePath.parse r.storePath = .ok p := by
    rw [hr, StorePath.parse_toString p hname]
  have hcommand : lastPiece r.resolvedCommand = lastPiece r.program := by
    rw [r.resolvedCommand_eq, lastPiece_append]
  have hstored : ∀ status, status = (statusPatch phase r ready desired now generation).apply prior →
      status.storePath = some r.storePath ∧ status.resolvedCommand = some r.resolvedCommand ∧
        status.closurePaths = some r.closurePaths := by
    rintro _ rfl
    exact ⟨rfl, rfl, rfl⟩
  obtain ⟨hpath, hresolved, hclosure⟩ := hstored _ rfl
  simp only [EvalResult.fromStatus, hpath, hparse, hresolved, hclosure, Option.map_some, hcommand,
    Option.getD_some, EvalResult.restored]

/-! ## The Deployment -/

/-- Two results with the same store path and closure give the same Deployment if the spec has a
command of its own, or they have the same program. -/
lemma buildDeployment_eq_iff {r r' : EvalResult} (hpath : r'.storePath = r.storePath)
    (hclosure : r'.closurePaths = r.closurePaths) (workload : NiphasWorkload) (name ns : String) :
    buildDeployment workload r' name ns = buildDeployment workload r name ns ↔
      workload.spec.command.isSome ∨ r'.program = r.program := by
  constructor
  · intro h
    have hcontainer := congrArg podContainers h
    rw [podContainers_buildDeployment, podContainers_buildDeployment, List.cons_eq_cons]
      at hcontainer
    have hcommand := congrArg (Json.get · "command") hcontainer.1
    simp only [command_buildContainer, buildCommand] at hcommand
    cases hspec : workload.spec.command with
    | some cmd => exact Or.inl rfl
    | none =>
        rw [hspec] at hcommand
        simp only [Json.strs, List.map_cons, List.map_nil, Json.arr.injEq, List.cons.injEq,
          Json.str.injEq, and_true] at hcommand
        exact Or.inr ((EvalResult.resolvedCommand_inj hpath).mp hcommand)
  · intro h
    have hcommand : buildCommand workload.spec r' = buildCommand workload.spec r := by
      rw [buildCommand, buildCommand]
      cases hspec : workload.spec.command with
      | some cmd => rfl
      | none =>
          have hprogram := h.resolve_left (by rw [hspec]; exact Bool.false_ne_true)
          rw [(EvalResult.resolvedCommand_inj hpath).mpr hprogram]
    simp only [buildDeployment, buildPodSpec, buildContainer, buildVolumes, buildVolumeAttributes,
      hcommand, hclosure]

/-- The Deployment of a restored result. -/
lemma buildDeployment_restored_iff (r : EvalResult) (p : StorePath) (workload : NiphasWorkload)
    (name ns : String) :
    buildDeployment workload (r.restored p) name ns = buildDeployment workload r name ns ↔
      workload.spec.command.isSome ∨ '/' ∉ (r.mainProgram.getD r.name).toList := by
  have hpath : (r.restored p).storePath = r.storePath := rfl
  have hprogram : (r.restored p).program = lastPiece r.program := rfl
  rw [buildDeployment_eq_iff hpath rfl, hprogram, lastPiece_eq_self_iff]
  rfl

/-- **A result read back from the status gives the same Deployment** just when the container does
not run the resolved command, or the program in it has no `/`. -/
theorem cached_deployment {p : StorePath} (hname : p.name ≠ "") {r : EvalResult}
    (hr : r.storePath = p.toString) (prior : NiphasWorkloadStatus) (phase : WorkloadPhase)
    (ready desired : Int) (now : String) (generation : Int) (workload : NiphasWorkload)
    (name ns : String) :
    (∃ r', EvalResult.fromStatus ((statusPatch phase r ready desired now generation).apply prior)
        = .ok (some r') ∧
      buildDeployment workload r' name ns = buildDeployment workload r name ns) ↔
    workload.spec.command.isSome ∨ '/' ∉ (r.mainProgram.getD r.name).toList := by
  rw [fromStatus_statusPatch hname hr]
  simp only [Except.ok.injEq, Option.some.injEq, exists_eq_left']
  exact buildDeployment_restored_iff r p workload name ns

/-- A store path with the hash of all zeros. -/
def zeroPath : StorePath := .zeroHashed "hello-2.12"

/-- A workload with neither a command of its own nor anything else that is optional. -/
def plainWorkload : NiphasWorkload :=
  { metadata := { name := some "hello" }, spec := { flakeRef := "github:a/b", «attribute» := "c" } }

/-- A main program that is a plain name. -/
theorem cached_deployment_hello :
    ∃ r', EvalResult.fromStatus
        ((statusPatch .running ⟨zeroPath.toString, "hello-2.12", some "hello",
          []⟩ 1 1 "" 1).apply {})
          = .ok (some r') ∧
      buildDeployment plainWorkload r' "hello" "default" =
        buildDeployment plainWorkload ⟨zeroPath.toString, "hello-2.12", some "hello", []⟩ "hello"
          "default" :=
  (cached_deployment (by decide) rfl {} .running 1 1 "" 1 plainWorkload "hello" "default").mpr
    (Or.inr (by decide))

/-- A main program in a directory: the container is given another command. -/
theorem cached_deployment_subdir :
    ¬ ∃ r', EvalResult.fromStatus
        ((statusPatch .running ⟨zeroPath.toString, "hello-2.12", some "sub/hello",
          []⟩ 1 1 "" 1).apply
          {}) = .ok (some r') ∧
      buildDeployment plainWorkload r' "hello" "default" =
        buildDeployment plainWorkload ⟨zeroPath.toString, "hello-2.12", some "sub/hello",
          []⟩ "hello"
          "default" := by
  have hname : zeroPath.name ≠ "" := by decide
  rw [fromStatus_statusPatch hname rfl]
  rintro ⟨r', hr', heq⟩
  cases hr'
  rcases (buildDeployment_restored_iff _ _ _ _ _).mp heq with hcommand | hslash
  · cases hcommand
  · exact hslash (by decide)

end Niphas
