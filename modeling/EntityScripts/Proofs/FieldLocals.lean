import EntityScripts.Proofs.CodeTokens
import EntityScripts.Proofs.LegibleScripts

/-!
The local variables that routines have for fields. Validation knows the other variables of the
routines by their names, so none of them meets a field, and fields differ from each other.
-/
namespace EntityScripts

namespace Script

def Routine.code (r : Routine) : String := bodyText r.body

theorem Routine.Legible.variablesIn_code {r : Routine} (h : r.Legible) :
    variablesIn r.code = declaredIn r.body :=
  variablesIn_bodyText h.body

/-- Among variables, in the order of their declarations, those for fields stand together. They differ
from each other and from all variables in front of them and behind them. -/
structure KeepsFieldsApart (declared before fields after : List String) : Prop where
  declared_eq : declared = before ++ fields ++ after
  distinct : fields.Nodup
  apart : ∀ n ∈ fields, n ∉ before ∧ n ∉ after

theorem loopLocals_subset (k : ContainerKind) : loopLocals k ⊆ scriptLocals := by
  cases k <;> decide

end Script

namespace Plan

open Script

variable {p : Plan} {f : PlannedField}

theorem Accepted.field_not_mem_scriptLocals (h : p.Accepted) (hf : f ∈ p.fields) :
    f.name ∉ scriptLocals := by
  have hl := h.fieldLocal f hf
  simp only [Validation.isLocalName, decide_eq_false_iff_not, not_or] at hl
  exact hl.1

def loopVariables (p : Plan) : List String :=
  p.fields.flatMap fun f => if f.isEntity then loopLocals f.container else []

theorem declaredIn_constructor (p : Plan) :
    declaredIn (constructor p).body = p.fields.map (·.name) ++ [p.names.object] := by
  simp [constructor, declaredIn, declaredIn_append, declaredIn_map_declare, declaredIn_setCalls,
    declaredIn_blankUnless, Statement.declared]

theorem declaredIn_serializer (p : Plan) :
    declaredIn (serializer p).body = [p.names.object, "jsonObject", jsonResult p] := by
  simp [serializer, declaredIn, declaredIn_append, declaredIn_flatMap, declaredIn_appendField,
    Statement.declared]

theorem declaredIn_deserializer (p : Plan) :
    declaredIn (deserializer p).body = ["jsonString", "jsonObject"] ++ p.fields.map (·.name) := by
  rw [List.map_eq_flatMap]
  simp [deserializer, declaredIn, declaredIn_append, declaredIn_flatMap, declaredIn_readField,
    Statement.declared]

theorem flatMap_owning {fs : List PlannedField} :
    ((fs.filter ownsPayload).flatMap fun f => if f.isEntity then loopLocals f.container else []) =
      fs.flatMap fun f => if f.isEntity then loopLocals f.container else [] := by
  induction fs with
  | nil => rfl
  | cons f fs ih =>
    by_cases hown : ownsPayload f = true
    · rw [List.filter_cons_of_pos hown, List.flatMap_cons, List.flatMap_cons, ih]
    · have hentity : f.isEntity = false := by
        simp only [ownsPayload, Bool.or_eq_true, not_or, Bool.not_eq_true] at hown
        exact hown.1
      rw [List.filter_cons_of_neg hown, List.flatMap_cons, ih, hentity]
      rfl

theorem declaredIn_destructor (p : Plan) :
    declaredIn (destructor p).body =
      [p.names.object] ++ (p.fields.filter ownsPayload).map (·.name) ++ p.loopVariables := by
  rw [loopVariables, ← flatMap_owning]
  simp [destructor, declaredIn, declaredIn_append, declaredIn_flatMap, declaredIn_map_declare,
    declaredIn_setCalls, declaredIn_blankUnless, declaredIn_teardownSegment, Statement.declared]

theorem loopVariables_subset (p : Plan) : p.loopVariables ⊆ scriptLocals := by
  intro n hn
  obtain ⟨f, _, hf⟩ := List.mem_flatMap.1 hn
  split at hf
  · exact loopLocals_subset f.container hf
  · cases hf

/-- Validation keeps a field away from the entity's variable and from everything that the routines
declare by a fixed name. -/
theorem Accepted.not_mem_others (h : p.Accepted) {others : List String}
    (hothers : ∀ n ∈ others, n = p.names.object ∨ n ∈ scriptLocals) {n : String}
    (hn : n ∈ p.fields.map (·.name)) : n ∉ others := by
  obtain ⟨f, hf, hname⟩ := List.mem_map.1 hn
  subst hname
  intro hmem
  cases hothers f.name hmem with
  | inl hobject => exact h.field_ne_object hf hobject
  | inr hlocal => exact h.field_not_mem_scriptLocals hf hlocal

theorem Sound.keepsApart_constructor (h : p.Sound) :
    KeepsFieldsApart (variablesIn (constructor p).code) [] (p.fields.map (·.name))
      [p.names.object] where
  declared_eq := by rw [h.legible_constructor.variablesIn_code, declaredIn_constructor]; rfl
  distinct := h.accepted.distinct
  apart := fun n hn => ⟨List.not_mem_nil, h.accepted.not_mem_others (by simp) hn⟩

theorem Sound.keepsApart_serializer (h : p.Sound) :
    KeepsFieldsApart (variablesIn (serializer p).code) [p.names.object, "jsonObject", jsonResult p]
      [] [] where
  declared_eq := by rw [h.legible_serializer.variablesIn_code, declaredIn_serializer]; rfl
  distinct := List.nodup_nil
  apart := fun _ hn => absurd hn List.not_mem_nil

theorem Sound.keepsApart_deserializer (h : p.Sound) :
    KeepsFieldsApart (variablesIn (deserializer p).code) ["jsonString", "jsonObject"]
      (p.fields.map (·.name)) [] where
  declared_eq := by
    rw [h.legible_deserializer.variablesIn_code, declaredIn_deserializer, List.append_nil]
  distinct := h.accepted.distinct
  apart := by
    have hlocals : ∀ n ∈ ["jsonString", "jsonObject"], n = p.names.object ∨ n ∈ scriptLocals :=
      fun n hn => .inr ((by decide : ["jsonString", "jsonObject"] ⊆ scriptLocals) hn)
    exact fun n hn => ⟨h.accepted.not_mem_others hlocals hn, List.not_mem_nil⟩

theorem Sound.keepsApart_destructor (h : p.Sound) :
    KeepsFieldsApart (variablesIn (destructor p).code) [p.names.object]
      ((p.fields.filter ownsPayload).map (·.name)) p.loopVariables where
  declared_eq := by rw [h.legible_destructor.variablesIn_code, declaredIn_destructor]
  distinct := (List.filter_sublist.map _).nodup h.accepted.distinct
  apart := by
    intro n hn
    have hfield : n ∈ p.fields.map (·.name) := (List.filter_sublist.map _).subset hn
    exact ⟨h.accepted.not_mem_others (by simp) hfield,
      h.accepted.not_mem_others (fun v hv => .inr (p.loopVariables_subset hv)) hfield⟩

end Plan

/-- In every routine of an accepted entity that has variables for fields, these differ from each
other and from all other variables that the routine declares. The serializer has none for fields. -/
theorem field_locals_apart (m : Model) (filter : NameSet) (policy : UnknownTypes)
    (plans : List Plan) (h : planEntities m filter policy = .ok plans) :
    ∀ p ∈ plans,
      Script.KeepsFieldsApart (Script.variablesIn (Script.constructor p).code)
        [] (p.fields.map (·.name)) [p.names.object] ∧
      Script.KeepsFieldsApart (Script.variablesIn (Script.serializer p).code)
        [p.names.object, "jsonObject", Script.jsonResult p] [] [] ∧
      Script.KeepsFieldsApart (Script.variablesIn (Script.deserializer p).code)
        ["jsonString", "jsonObject"] (p.fields.map (·.name)) [] ∧
      Script.KeepsFieldsApart (Script.variablesIn (Script.destructor p).code)
        [p.names.object] ((p.fields.filter Script.ownsPayload).map (·.name)) p.loopVariables := by
  intro p hp
  have hsound := sound_of_planEntities h p hp
  exact ⟨hsound.keepsApart_constructor, hsound.keepsApart_serializer,
    hsound.keepsApart_deserializer, hsound.keepsApart_destructor⟩

theorem squad_field_locals_apart :
    planEntities squadModel ∅ .permissive = .ok [squadPlan] ∧
      Script.KeepsFieldsApart (Script.variablesIn (Script.destructor squadPlan).code)
        ["squad"] ["units", "camps"] ["index", "entity", "index", "entity"] := by
  have hobject : squadPlan.names.object = "squad" := by decide +kernel
  have happart := (field_locals_apart _ _ _ _ planEntities_squad squadPlan (by simp)).2.2.2
  rw [hobject] at happart
  exact ⟨planEntities_squad, happart⟩

end EntityScripts
