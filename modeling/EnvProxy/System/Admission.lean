-- SUMMARY: Which pods the webhook answers: those whose resource overrides are quantities.
import EnvProxy.System.Injection

/-!
# Admission

The annotations of a pod reach `resource.MustParse` in one place, the resources of the
sidecar. `handle_returns_iff` says that the webhook returns a response exactly if the
overrides found there are quantities.
-/

namespace EnvProxy.Injector

variable {α κ : Type}

/-! ## Quantities -/

/-- What the init container asks for. -/
def initQuantities : List Str := ["50m".toList, "32Mi".toList, "10m".toList, "16Mi".toList]

/-- What the sidecar asks for, unless the pod has its own. -/
def Config.quantities (cfg : Config) : List Str :=
  [cfg.agentCPULimit, cfg.agentMemoryLimit, cfg.agentCPURequest, cfg.agentMemoryRequest]

/-- The annotations that override them. -/
def quantityAnnotations : List Str :=
  [annotationAgentCPULimit, annotationAgentMemoryLimit, annotationAgentCPURequest,
    annotationAgentMemoryRequest]

section

variable (parseQuantity : Str → Option κ)

/-- No default makes `MustParse` panic. -/
structure ValidDefaults (cfg : Config) : Prop where
  init : ∀ q ∈ initQuantities, (parseQuantity q).isSome
  agent : ∀ q ∈ cfg.quantities, (parseQuantity q).isSome

/-- The annotation has a quantity, unless it is missing or empty. -/
def ValidOverride (pod : Pod α κ) (key : Str) : Prop :=
  ∀ v, pod.annotations.get key = some v → v ≠ [] → (parseQuantity v).isSome

end

/-- The webhook is to mutate the pod. -/
def Requested (pod : Pod α κ) : Prop :=
  pod.annotations.index annotationInject = "true".toList ∧
    pod.annotations.index annotationStatus ≠ statusInjected

/-! ## The builders -/

section

variable {parseQuantity : Str → Option κ}

theorem mustParseResources_isSome_iff {cpuLimit memLimit cpuReq memReq : Str} :
    (mustParseResources parseQuantity cpuLimit memLimit cpuReq memReq).isSome ↔
      ∀ q ∈ [cpuLimit, memLimit, cpuReq, memReq], (parseQuantity q).isSome := by
  unfold mustParseResources
  simp only [List.forall_mem_cons, List.not_mem_nil, false_imp_iff, implies_true, and_true]
  cases parseQuantity cpuLimit <;> cases parseQuantity memLimit <;>
    cases parseQuantity cpuReq <;> cases parseQuantity memReq <;> simp

theorem annotationOrDefault_parses_iff (pod : Pod α κ) (key : Str) {defaultVal : Str}
    (hdefault : (parseQuantity defaultVal).isSome) :
    (parseQuantity (annotationOrDefault pod key defaultVal)).isSome ↔
      ValidOverride parseQuantity pod key := by
  unfold annotationOrDefault ValidOverride
  cases pod.annotations.get key with
  | none => exact iff_of_true hdefault fun _ h => nomatch h
  | some v =>
    dsimp only
    split
    · next hv =>
      constructor
      · rintro h _ ⟨⟩ -
        exact h
      · intro h
        exact h v rfl hv
    · next hv =>
      refine iff_of_true hdefault ?_
      rintro _ ⟨⟩ hne
      exact absurd hne hv

variable [Inhabited α]

theorem buildInitContainer_isSome {cfg : Config} (h : ValidDefaults parseQuantity cfg)
    (pod : Pod α κ) : (buildInitContainer parseQuantity cfg pod).isSome := by
  obtain ⟨resources, hresources⟩ :=
    Option.isSome_iff_exists.mp (mustParseResources_isSome_iff.mpr h.init)
  unfold buildInitContainer
  rw [hresources]
  rfl

/-- Each default is overridden by the annotation at its place. -/
theorem buildSidecar_isSome_iff {cfg : Config} (h : ValidDefaults parseQuantity cfg)
    (pod : Pod α κ) :
    (buildSidecar parseQuantity cfg pod).isSome ↔
      ∀ key ∈ quantityAnnotations, ValidOverride parseQuantity pod key := by
  have hsidecar : (buildSidecar parseQuantity cfg pod).isSome ↔
      (mustParseResources parseQuantity
        (annotationOrDefault pod annotationAgentCPULimit cfg.agentCPULimit)
        (annotationOrDefault pod annotationAgentMemoryLimit cfg.agentMemoryLimit)
        (annotationOrDefault pod annotationAgentCPURequest cfg.agentCPURequest)
        (annotationOrDefault pod annotationAgentMemoryRequest cfg.agentMemoryRequest)).isSome := by
    unfold buildSidecar
    dsimp only
    generalize mustParseResources parseQuantity _ _ _ _ = resources
    cases resources with
    | none => rfl
    | some resources => rfl
  have hagent := h.agent
  simp only [Config.quantities, List.forall_mem_cons, List.not_mem_nil, false_imp_iff,
    implies_true, and_true] at hagent
  obtain ⟨hcpuLimit, hmemLimit, hcpuReq, hmemReq⟩ := hagent
  rw [hsidecar, mustParseResources_isSome_iff]
  simp only [quantityAnnotations, List.forall_mem_cons, List.not_mem_nil, false_imp_iff,
    implies_true, and_true, annotationOrDefault_parses_iff pod _ hcpuLimit,
    annotationOrDefault_parses_iff pod _ hmemLimit, annotationOrDefault_parses_iff pod _ hcpuReq,
    annotationOrDefault_parses_iff pod _ hmemReq]

theorem mutatePod_isSome_iff {cfg : Config} (h : ValidDefaults parseQuantity cfg) (pod : Pod α κ) :
    (mutatePod parseQuantity cfg pod).isSome ↔
      ∀ key ∈ quantityAnnotations, ValidOverride parseQuantity pod key := by
  rw [← buildSidecar_isSome_iff h pod]
  obtain ⟨init, hinit⟩ := Option.isSome_iff_exists.mp (buildInitContainer_isSome h pod)
  unfold mutatePod
  rw [hinit]
  cases buildSidecar parseQuantity cfg pod <;> simp

end

/-! ## The webhook -/

/-- The webhook answers a pod, whatever its annotations are, unless it is to mutate the
    pod and one of the four resource annotations is neither empty nor a quantity. -/
theorem handle_returns_iff {ρ : Type} [Inhabited α] (unmarshal : ρ → Except Str (Pod α κ))
    (marshal : Pod α κ → Except Str ρ) (parseQuantity : Str → Option κ) (cfg : Config)
    (hdefaults : ValidDefaults parseQuantity cfg) {raw : ρ} {pod : Pod α κ}
    (hraw : unmarshal raw = .ok pod) :
    (handle unmarshal marshal parseQuantity cfg raw).isSome ↔
      (Requested pod → ∀ key ∈ quantityAnnotations, ValidOverride parseQuantity pod key) := by
  unfold handle Requested
  rw [hraw]
  dsimp only
  split
  · next hinject =>
    exact iff_of_true rfl fun h => absurd h.1 hinject
  · next hinject =>
    split
    · next hstatus =>
      exact iff_of_true rfl fun h => absurd hstatus h.2
    · next hstatus =>
      rw [Option.isSome_map, mutatePod_isSome_iff hdefaults pod]
      exact ⟨fun h _ => h, fun h => h ⟨not_not.mp hinject, hstatus⟩⟩

/-! ## A pod with an override -/

/-- Digits and a suffix, as `resource.ParseQuantity` reads them without sign and fraction. -/
def quantity (s : Str) : Option Str :=
  if s.takeWhile Char.isDigit ≠ [] ∧
      ["".toList, "m".toList, "k".toList, "M".toList, "G".toList, "Ki".toList, "Mi".toList,
        "Gi".toList].contains (s.dropWhile Char.isDigit) then some s
  else none

theorem quantity_validDefaults : ValidDefaults quantity defaults where
  init := by decide
  agent := by decide

/-- The pod asks for a sidecar with a CPU limit. -/
def limitedPod (limit : Str) : Pod Unit Str :=
  { appPod with annotations := appPod.annotations.assign annotationAgentCPULimit limit }

/-- There is one object, which is unmarshalled to the pod. -/
def unmarshalPod (pod : Pod Unit Str) : Unit → Except Str (Pod Unit Str) := fun _ => .ok pod

def handlePod (pod : Pod Unit Str) : Option (Response Unit) :=
  handle (unmarshalPod pod) (fun _ => .ok ()) quantity defaults ()

theorem handle_returns_limited : (handlePod (limitedPod "200m".toList)).isSome := by
  have hraw : unmarshalPod (limitedPod "200m".toList) () = .ok (limitedPod "200m".toList) := rfl
  apply (handle_returns_iff _ _ quantity defaults quantity_validDefaults hraw).mpr
  intro _ key hkey v hv _
  simp only [quantityAnnotations, List.mem_cons, List.not_mem_nil, or_false] at hkey
  rcases hkey with rfl | rfl | rfl | rfl
  · cases hv
    rfl
  all_goals cases hv

/-- A word in the place of the limit makes the webhook panic. -/
theorem handle_panics :
    ValidDefaults quantity defaults ∧ Requested (limitedPod "lots".toList) ∧
      handlePod (limitedPod "lots".toList) = none := by
  refine ⟨quantity_validDefaults, ⟨?_, ?_⟩, rfl⟩
  · decide
  · decide

end EnvProxy.Injector
