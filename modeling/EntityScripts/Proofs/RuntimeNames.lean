import EntityScripts.Proofs.ScriptNames

/-!
The routines of the runtime that the scripts call. Nothing keeps the script of an entity from having
the name of one of them; here are all the entities and fields for which it does.
-/
namespace EntityScripts

namespace Script

/-- The routines that the scripts call and that belong to no entity. -/
def runtimeRoutines : List String :=
  ["createEntity", "assertNoOptional", "createJsonObject", "encodeJson", "decodeJson",
    "appendFieldToJsonObject", "appendEntityToJsonObject", "getJsonObjectFieldValue",
    "getJsonObjectEntityValue", "isOptionalPresent", "logger", "destroyDataStructure"]

def replacedByClass : List (String × String) :=
  [("createEntity", "Entity"), ("createJsonObject", "JsonObject"),
    ("destroyDataStructure", "DataStructure")]

/-- The routines that have the name of a getter, each with the class of the entity and the name of
the field, whose first letter is in upper case. -/
def replacedByGetter : List (String × String × String) :=
  [("getJsonObjectFieldValue", "Json", "ObjectFieldValue"),
    ("getJsonObjectFieldValue", "JsonObject", "FieldValue"),
    ("getJsonObjectFieldValue", "JsonObjectField", "Value"),
    ("getJsonObjectEntityValue", "Json", "ObjectEntityValue"),
    ("getJsonObjectEntityValue", "JsonObject", "EntityValue"),
    ("getJsonObjectEntityValue", "JsonObjectEntity", "Value")]

/-- What stands behind a verb in the names of the runtime's routines. -/
def runtimeStems (v : Verb) : List (List Char) :=
  runtimeRoutines.filterMap fun name => Text.dropFront? v.text.toList name.toList

theorem toList_mem_runtimeStems {v : Verb} {stem : String} :
    stem.toList ∈ runtimeStems v ↔ scriptName v stem ∈ runtimeRoutines := by
  simp only [runtimeStems, List.mem_filterMap, Text.dropFront?_eq_some_iff]
  constructor
  · rintro ⟨name, hname, hsplit⟩
    have he : scriptName v stem = name := String.toList_injective (by simp [scriptName, hsplit])
    rwa [he]
  · exact fun h => ⟨_, h, by simp [scriptName]⟩

theorem replaced_of_mem_runtimeStems {v : Verb} (hv : v.isAccessor = false) :
    ∀ stem ∈ runtimeStems v,
      (scriptName v (String.ofList stem), String.ofList stem) ∈ replacedByClass := by
  cases v with
  | create | serialize | deserialize | destroy => decide
  | get | set => cases hv

/-- The ways to cut a text in two, neither of them empty and the second without a lower-case letter
at its front. -/
def capitalCuts (cs : List Char) : List (List Char × List Char) :=
  ((List.range cs.length).map fun n => (cs.take n, cs.drop n)).filter fun x =>
    !x.1.isEmpty && x.2.head?.any fun c => !c.isLower

theorem mem_capitalCuts {front rest : List Char} {c : Char} (hfront : front ≠ [])
    (hc : c.isLower = false) : (front, c :: rest) ∈ capitalCuts (front ++ c :: rest) := by
  rw [capitalCuts, List.mem_filter, List.mem_map]
  refine ⟨⟨front.length, ?_, by simp⟩, by simp [hfront, hc]⟩
  simp

theorem replaced_of_mem_capitalCuts {v : Verb} (hv : v.isAccessor = true) :
    ∀ stem ∈ runtimeStems v, ∀ cut ∈ capitalCuts stem,
      (scriptName v (String.ofList stem), String.ofList cut.1, String.ofList cut.2) ∈
        replacedByGetter := by
  cases v with
  | create | serialize | deserialize | destroy => cases hv
  | get | set => decide

theorem isLower_toUpper {c : Char} (h : c.toNat < 128) : c.toUpper.isLower = false := by
  have hall : ∀ n < 128, (Char.ofNat n).toUpper.isLower = false := by decide +kernel
  exact Text.forall_ascii (P := fun c => c.toUpper.isLower = false) hall h

/-- Every getter's stem is cut where the name of the field begins. -/
theorem cut_mem_capitalCuts {entity field : String} (he : IsPlainName entity)
    (hf : IsPlainName field) :
    ((Text.upperFirst entity).toList, (Text.upperFirst field).toList) ∈
      capitalCuts (Text.upperFirst entity ++ Text.upperFirst field).toList := by
  obtain ⟨c, cs, _, hentity, _, _⟩ := toList_upperFirst_of_plain he
  obtain ⟨d, ds, _, hfield, hd, _⟩ := toList_upperFirst_of_plain hf
  rw [String.toList_append, hentity, hfield]
  exact mem_capitalCuts (by simp) (isLower_toUpper (Text.ascii_of_isIdentRest hd))

end Script

namespace Plan

open Script

variable {p : Plan}

theorem mem_targets_of_class (p : Plan) {v : Verb} (hv : v.isAccessor = false) :
    scriptName v p.names.className ∈ p.targets :=
  List.mem_map.2 ⟨(v, p.names.className), mem_scriptKeys.2 (by simp [hv]), rfl⟩

theorem mem_targets_of_field {f : PlannedField} (hf : f ∈ p.fields) :
    scriptName .get (p.names.className ++ Text.upperFirst f.name) ∈ p.targets :=
  List.mem_map.2 ⟨(.get, _), mem_scriptKeys.2 (List.mem_map_of_mem hf), rfl⟩

theorem mem_targets_of_replaced {name : String}
    (h : (name, p.names.className) ∈ replacedByClass ∨
      ∃ f ∈ p.fields, (name, p.names.className, Text.upperFirst f.name) ∈ replacedByGetter) :
    name ∈ p.targets := by
  have hclass : ∀ x ∈ replacedByClass, ∃ v ∈ [Verb.create, .destroy],
      v.isAccessor = false ∧ scriptName v x.2 = x.1 := by
    decide
  have hgetter : ∀ x ∈ replacedByGetter, scriptName .get (x.2.1 ++ x.2.2) = x.1 := by decide
  rcases h with h | ⟨f, hf, h⟩
  · obtain ⟨v, _, hv, hname⟩ := hclass _ h
    have htarget := p.mem_targets_of_class hv
    rwa [hname] at htarget
  · have hname := hgetter _ h
    have htarget := mem_targets_of_field hf
    rwa [hname] at htarget

theorem Accepted.replaced_of_mem_targets (h : p.Accepted) {name : String}
    (hname : name ∈ runtimeRoutines) (ht : name ∈ p.targets) :
    (name, p.names.className) ∈ replacedByClass ∨
      ∃ f ∈ p.fields, (name, p.names.className, Text.upperFirst f.name) ∈ replacedByGetter := by
  obtain ⟨⟨v, stem⟩, hk, rfl⟩ := List.mem_map.1 ht
  have hstem := toList_mem_runtimeStems.2 hname
  have hkey := mem_scriptKeys.1 hk
  cases hv : v.isAccessor with
  | false =>
    rw [hv, if_neg (by decide)] at hkey
    have hreplaced := replaced_of_mem_runtimeStems hv _ hstem
    rw [String.ofList_toList, hkey] at hreplaced
    exact .inl (hkey ▸ hreplaced)
  | true =>
    rw [hv, if_pos rfl] at hkey
    obtain ⟨f, hf, rfl⟩ := List.mem_map.1 hkey
    have hcut := cut_mem_capitalCuts h.plainName (h.plainField hf)
    have hreplaced := replaced_of_mem_capitalCuts hv _ hstem _ hcut
    simp only [String.ofList_toList] at hreplaced
    exact .inr ⟨f, hf, hreplaced⟩

end Plan

/-- A script of an accepted plan has the name of a runtime routine exactly if its entity or one of
its fields is named for it. -/
theorem target_is_runtime_routine_iff (m : Model) (filter : NameSet) (policy : UnknownTypes)
    (plans : List Plan) (stamp : String) (h : planEntities m filter policy = .ok plans) :
    ∀ p ∈ plans, ∀ name ∈ Script.runtimeRoutines,
      name ∈ (Script.routedBlocks (Script.generate p stamp)).map (·.1) ↔
        (name, p.names.className) ∈ Script.replacedByClass ∨
        ∃ f ∈ p.fields,
          (name, p.names.className, Text.upperFirst f.name) ∈ Script.replacedByGetter := by
  intro p hp name hname
  have haccepted := accepted_of_planEntities h p hp
  rw [Plan.targets_generate haccepted stamp]
  exact ⟨haccepted.replaced_of_mem_targets hname, Plan.mem_targets_of_replaced⟩

def numberModel (name field : String) : Model := ⟨[⟨name, [⟨field, "int"⟩], .ofList ["int"], ∅⟩]⟩

def numberPlan (name field : String) : Plan :=
  ⟨name, [⟨0, field, "int", ⟨⟨.primitive, .scalar⟩, false, "int", none⟩⟩]⟩

/-- The constructor of an entity named `Entity` replaces the routine that makes entities. -/
theorem runtime_routine_replaced :
    ¬∀ (m : Model) (filter : NameSet) (policy : UnknownTypes) (plans : List Plan) (stamp : String),
      planEntities m filter policy = .ok plans → ∀ p ∈ plans,
        ∀ name ∈ (Script.routedBlocks (Script.generate p stamp)).map (·.1),
          name ∉ Script.runtimeRoutines := by
  intro h
  have hplans : planEntities (numberModel "Entity" "hp") ∅ .permissive =
      .ok [numberPlan "Entity" "hp"] := by
    decide +kernel
  have haccepted := accepted_of_planEntities hplans (numberPlan "Entity" "hp") (by simp)
  have htarget : "createEntity" ∈ (numberPlan "Entity" "hp").targets := by decide +kernel
  rw [← Plan.targets_generate haccepted "now"] at htarget
  exact h _ _ _ _ "now" hplans _ (by simp) "createEntity" htarget (by decide)

theorem json_getter_is_runtime_routine :
    planEntities (numberModel "json" "objectFieldValue") ∅ .permissive =
        .ok [numberPlan "json" "objectFieldValue"] ∧
      "getJsonObjectFieldValue" ∈ Script.runtimeRoutines ∧
      "getJsonObjectFieldValue" ∈
        (Script.routedBlocks (Script.generate (numberPlan "json" "objectFieldValue") "now")).map
          (·.1) := by
  have hplans : planEntities (numberModel "json" "objectFieldValue") ∅ .permissive =
      .ok [numberPlan "json" "objectFieldValue"] := by
    decide +kernel
  have hname : "getJsonObjectFieldValue" ∈ Script.runtimeRoutines := by decide
  refine ⟨hplans, hname, ?_⟩
  rw [target_is_runtime_routine_iff _ _ _ _ "now" hplans _ (by simp) _ hname]
  exact .inr ⟨_, List.mem_singleton_self _, by decide +kernel⟩

end EntityScripts
