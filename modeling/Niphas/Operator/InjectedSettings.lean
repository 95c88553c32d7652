import Niphas.Operator.Resources

/-!
# The settings the operator injects

`build_deployment` merges five settings of its own with what the spec asks for: the node selector
`niphas.io/store`, two tolerations, the CSI volume and its mount.  Tolerations, volumes and mounts
are appended to; the selector is a map in which the user's entry is inserted last.

`InjectedSettings` says that a pod spec keeps all five beside the user's entries, and
`injectedSettings_buildDeployment` when it does: the user's entries have to stay off the key, the
volume name and the mount path the operator uses.  Mount paths are compared as the strings that are
rendered: a mount at `/nix/store/` counts as one at another path, though a node may put it in the
same place.
-/

namespace Niphas

open Json

/-- The label of the nodes that have a store. -/
def storeLabel : String := "niphas.io/store"

/-- The name of the CSI volume. -/
def storeVolumeName : String := "nix-store"

/-! ## Reading a pod spec -/

/-- The pod spec of a Deployment. -/
def podSpec (deployment : Json) : Json := ((deployment.get "spec").get "template").get "spec"

/-- Is this a volume of that name? -/
def isVolumeNamed (name : String) (volume : Json) : Bool := (volume.get "name").asStr = some name

/-- Is this a mount at that path? -/
def isMountAt (path : String) (mount : Json) : Bool := (mount.get "mountPath").asStr = some path

/-- The volumes of a pod spec that have a name. -/
def volumesNamed (name : String) (pod : Json) : List Json :=
  (pod.get "volumes").items.filter (isVolumeNamed name)

/-- The mounts at a path, in all containers of a pod spec. -/
def mountsAt (path : String) (pod : Json) : List Json :=
  ((pod.get "containers").items.flatMap fun c => (c.get "volumeMounts").items).filter
    (isMountAt path)

/-- What the user's node selector has for a key: its last entry, as in a map. -/
def NiphasWorkloadSpec.selects (spec : NiphasWorkloadSpec) (key : String) : Option String :=
  (spec.nodeSelector.getD []).reverse.lookup key

/-- The operator's settings are all there, and so are the user's. -/
structure InjectedSettings (spec : NiphasWorkloadSpec) (pod : Json) : Prop where
  store_selector : (pod.get "nodeSelector").get storeLabel = .str "true"
  user_selector : ∀ key, key ≠ storeLabel →
    (pod.get "nodeSelector").get key = ((spec.selects key).map Json.str).getD .null
  tolerations : (pod.get "tolerations").items
    = [failoverToleration "node.kubernetes.io/not-ready",
        failoverToleration "node.kubernetes.io/unreachable"] ++ spec.tolerations.getD []
  store_volume : ∃ v, volumesNamed storeVolumeName pod = [v] ∧
    (v.get "csi").get "driver" = .str "niphas.io.csi"
  store_mount : ∃ m, mountsAt nixStoreMountPath pod = [m] ∧
    m.get "readOnly" = .bool true ∧ m.get "name" = .str storeVolumeName

/-- The spec uses none of the operator's names for something else. -/
structure LeavesInjected (spec : NiphasWorkloadSpec) : Prop where
  selector : ∀ v, spec.selects storeLabel = some v → v = "true"
  volumes : ∀ v ∈ spec.extraVolumes.getD [], isVolumeNamed storeVolumeName v = false
  mounts : ∀ m ∈ spec.extraVolumeMounts.getD [], isMountAt nixStoreMountPath m = false

/-! ## What `build_deployment` renders -/

/-- The selector has the user's entry of a key, and the operator's where the user has none. -/
lemma get_buildNodeSelector (spec : NiphasWorkloadSpec) (key : String) :
    (buildNodeSelector spec).get key
      = (((spec.selects key).map Json.str).or
          (find key [(storeLabel, .str "true")])).getD .null := by
  have hentries : ∀ (l : List (String × String)) (j : Json),
      l.foldl (fun j kv => j.insert kv.1 (.str kv.2)) j
        = (l.map fun kv => (kv.1, Json.str kv.2)).foldl
            (fun (j : Json) kv => j.insert kv.1 kv.2) j := by
    intro l j
    rw [List.foldl_map]
  have hlookup : ∀ l : List (String × String),
      (l.map fun kv => (kv.1, Json.str kv.2)).lookup key = (l.lookup key).map Json.str := by
    intro l
    induction l with
    | nil => rfl
    | cons kv l ih =>
        obtain ⟨k, v⟩ := kv
        cases h : key == k <;> simp [List.lookup_cons, h, ih]
  rw [buildNodeSelector, hentries, foldl_insert_obj]
  simp only [Json.get, find_foldl_setField, ← List.map_reverse, hlookup]
  rfl

lemma get_buildPodSpec {key : String} (hspread : key ≠ "topologySpreadConstraints")
    (haffinity : key ≠ "affinity") (spec : NiphasWorkloadSpec) (evalResult : EvalResult)
    (name : String) :
    (buildPodSpec spec evalResult name).get key
      = (Json.obj [
          ("nodeSelector", buildNodeSelector spec),
          ("tolerations", buildTolerations spec),
          ("containers", .arr [buildContainer spec evalResult]),
          ("volumes", buildVolumes spec evalResult)]).get key := by
  rw [buildPodSpec, get_insertSome_of_ne haffinity, get_insertSome_of_ne hspread]

/-- The mounts of the container come from the spec. -/
lemma volumeMounts_buildContainer (spec : NiphasWorkloadSpec) (evalResult : EvalResult) :
    (buildContainer spec evalResult).get "volumeMounts" = buildVolumeMounts spec := by
  simp only [buildContainer]
  iterate 7 rw [get_insertSome_of_ne (by decide)]
  rfl

/-- The operator's volume comes first, and after it the user's of the same name. -/
lemma volumesNamed_buildPodSpec (spec : NiphasWorkloadSpec) (evalResult : EvalResult)
    (name : String) :
    volumesNamed storeVolumeName (buildPodSpec spec evalResult name)
      = .obj [
          ("name", .str storeVolumeName),
          ("csi", .obj [
            ("driver", .str "niphas.io.csi"),
            ("volumeAttributes", buildVolumeAttributes evalResult)])]
        :: (spec.extraVolumes.getD []).filter (isVolumeNamed storeVolumeName) := by
  rw [volumesNamed, get_buildPodSpec (by decide) (by decide)]
  rfl

/-- The operator's mount comes first, and after it the user's at the same path. -/
lemma mountsAt_buildPodSpec (spec : NiphasWorkloadSpec) (evalResult : EvalResult)
    (name : String) :
    mountsAt nixStoreMountPath (buildPodSpec spec evalResult name)
      = .obj [
          ("name", .str storeVolumeName),
          ("mountPath", .str nixStoreMountPath),
          ("readOnly", .bool true)]
        :: (spec.extraVolumeMounts.getD []).filter (isMountAt nixStoreMountPath) := by
  have hcontainers : ((buildPodSpec spec evalResult name).get "containers").items
      = [buildContainer spec evalResult] := by
    rw [get_buildPodSpec (by decide) (by decide)]
    rfl
  rw [mountsAt, hcontainers, List.flatMap_singleton, volumeMounts_buildContainer]
  rfl

/-! ## When the settings survive -/

lemma filter_eq_nil_iff_false {p : Json → Bool} {l : List Json} :
    l.filter p = [] ↔ ∀ x ∈ l, p x = false := by
  simp [List.filter_eq_nil_iff]

lemma podSpec_buildDeployment (workload : NiphasWorkload) (evalResult : EvalResult)
    (name ns : String) :
    podSpec (buildDeployment workload evalResult name ns)
      = buildPodSpec workload.spec evalResult name := rfl

/-- The label survives unless the user's selector has it with another value. -/
lemma store_selector_iff (spec : NiphasWorkloadSpec) :
    (buildNodeSelector spec).get storeLabel = .str "true"
      ↔ ∀ v, spec.selects storeLabel = some v → v = "true" := by
  rw [get_buildNodeSelector]
  cases h : spec.selects storeLabel with
  | none => simp [find]
  | some v => simp

/-- The operator's settings survive exactly where the spec leaves the store label, the volume name
`nix-store` and the mount path `/nix/store` alone. -/
theorem injectedSettings_buildDeployment (workload : NiphasWorkload) (evalResult : EvalResult)
    (name ns : String) :
    InjectedSettings workload.spec (podSpec (buildDeployment workload evalResult name ns))
      ↔ LeavesInjected workload.spec := by
  rw [podSpec_buildDeployment]
  have hselector : (buildPodSpec workload.spec evalResult name).get "nodeSelector"
      = buildNodeSelector workload.spec := by
    rw [get_buildPodSpec (by decide) (by decide)]
    rfl
  have htolerations : (buildPodSpec workload.spec evalResult name).get "tolerations"
      = buildTolerations workload.spec := by
    rw [get_buildPodSpec (by decide) (by decide)]
    rfl
  have hvolumes := volumesNamed_buildPodSpec workload.spec evalResult name
  have hmounts := mountsAt_buildPodSpec workload.spec evalResult name
  constructor
  · intro h
    refine ⟨?_, ?_, ?_⟩
    · have hstore := h.store_selector
      rwa [hselector, store_selector_iff] at hstore
    · obtain ⟨v, hv, -⟩ := h.store_volume
      rw [hvolumes, List.cons_eq_cons] at hv
      exact filter_eq_nil_iff_false.mp hv.2
    · obtain ⟨m, hm, -⟩ := h.store_mount
      rw [hmounts, List.cons_eq_cons] at hm
      exact filter_eq_nil_iff_false.mp hm.2
  · intro h
    refine ⟨?_, ?_, ?_, ?_, ?_⟩
    · rw [hselector, store_selector_iff]
      exact h.selector
    · intro key hkey
      have hfind : find key [(storeLabel, Json.str "true")] = none := by
        simp [find, Ne.symm hkey]
      rw [hselector, get_buildNodeSelector, hfind, Option.or_none]
    · rw [htolerations]
      rfl
    · rw [hvolumes, filter_eq_nil_iff_false.mpr h.volumes]
      exact ⟨_, rfl, rfl⟩
    · rw [hmounts, filter_eq_nil_iff_false.mpr h.mounts]
      exact ⟨_, rfl, rfl, rfl⟩

/-- A workload that asks for nodes without a store. -/
def storelessWorkload : NiphasWorkload :=
  { metadata := { name := some "hello" }
    spec := { flakeRef := "github:owner/hello", «attribute» := "default"
              nodeSelector := some [("niphas.io/store", "false")] } }

/-- What it is evaluated to. -/
def storelessResult : EvalResult :=
  { storePath := "/nix/store/00000000000000000000000000000000-hello", name := "hello"
    mainProgram := none, closurePaths := [] }

/-- It is given such nodes. -/
theorem not_injectedSettings_of_user_selector :
    ((podSpec (buildDeployment storelessWorkload storelessResult "hello" "apps")).get
        "nodeSelector").get storeLabel = .str "false" ∧
      ¬ InjectedSettings storelessWorkload.spec
        (podSpec (buildDeployment storelessWorkload storelessResult "hello" "apps")) := by
  have hselector : ((podSpec (buildDeployment storelessWorkload storelessResult "hello"
      "apps")).get "nodeSelector").get storeLabel = .str "false" := rfl
  refine ⟨hselector, fun h => ?_⟩
  have hvalue : Json.str "false" = Json.str "true" := hselector.symm.trans h.store_selector
  exact absurd (Json.str.inj hvalue) (by decide)

end Niphas
