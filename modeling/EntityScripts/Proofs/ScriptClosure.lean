import EntityScripts.Proofs.Destinations
import EntityScripts.Proofs.GlobalNames
import EntityScripts.Proofs.PlanningOrder

/-!
The routines of entities that scripts make use of. Where types may only name entities of the model,
and all of these are planned, every routine that a script uses is a script of the same run.
-/
namespace EntityScripts

/-- A type that may not name what is unknown refers to nothing but entities of its context. -/
theorem Describes.element_mem {ctx : TypeContext} {e : TypeExpr} {c : Classified}
    (h : Describes ctx e c) (hpolicy : ctx.policy = .reject) (hc : c.isEntity = true) :
    c.element ∈ ctx.entities := by
  have hvalue : c.category.value = .entity := of_decide_eq_true hc
  have hplain : ¬(c.element ∈ ctx.primitives ∨ c.element ∈ ctx.enums) := fun hmem => by
    rw [h.value.2 hmem] at hvalue
    cases hvalue
  have hknown : ctx.Knows c.element := h.known hpolicy _ (by simp)
  exact (hknown.resolve_left fun hp => hplain (.inl hp)).resolve_left fun he => hplain (.inr he)

section
variable {m : Model} {filter : NameSet} {plans : List Plan}

theorem reference_mem_entities (h : planEntities m filter .reject = .ok plans) :
    ∀ p ∈ plans, ∀ f ∈ p.fields, ∀ n, f.reference? = some n → n ∈ m.entities.map (·.name) := by
  intro p hp f hf n hn
  obtain ⟨_, _, hplans⟩ := planEntities_eq_ok h
  obtain ⟨e, _, hplan⟩ := exists_of_forall₂ hplans hp
  obtain ⟨x, _, hfield⟩ := exists_of_forall₂ (Plan.ofEntity_eq_ok_iff.1 hplan).fields hf
  have hclass : f.isEntity = true ∧ f.classified.element = n := by
    simpa [PlannedField.reference?] using hn
  have hclassified := hfield.classified
  rw [classify] at hclassified
  split at hclassified
  · cases hclassified
  · have hmem := (classifyExpr_eq_ok_iff.1 hclassified).element_mem rfl hclass.1
    rw [hclass.2] at hmem
    exact NameSet.mem_ofList.1 hmem

/-- If all entities are planned, those that fields refer to are among them. -/
theorem exists_plan_of_reference (h : planEntities m ∅ .reject = .ok plans) {p : Plan}
    (hp : p ∈ plans) {f : PlannedField} (hf : f ∈ p.fields) {n : String}
    (hn : f.reference? = some n) : ∃ q ∈ plans, q.name = n := by
  have hall : m.selected ∅ = m.entities := rfl
  have hmem := reference_mem_entities h p hp f hf n hn
  rw [← hall, ← names_of_planEntities h] at hmem
  exact List.mem_map.1 hmem

end

namespace Script

/-- What the code of a kind of script calls although it belongs to no entity. -/
def outsideRoutines : SnippetKind → List String
  | .create => ["createEntity", "assertNoOptional"]
  | .serialize => ["createJsonObject", "isOptionalPresent", "encodeJson"] ++ appendRoutines
  | .deserialize => ["decodeJson", "isOptionalPresent", "logger"] ++ readRoutines
  | .destroy => "isOptionalPresent" :: ContainerKind.all.flatMap loopRoutines
  | .getters | .setters | .labels => []

/-- A call that belongs to no entity. The release of a data structure has three arguments; the
destructor of an entity may have the same name, but takes one. -/
def Call.IsOutside (kind : SnippetKind) (c : Call) : Prop :=
  c.routine ∈ outsideRoutines kind ∨
    kind = .destroy ∧ c.routine = "destroyDataStructure" ∧ c.args.length = 3

instance (kind : SnippetKind) (c : Call) : Decidable (c.IsOutside kind) :=
  inferInstanceAs (Decidable (_ ∨ _))

/-- The routine that a call hands over to do the same for every entity in a field. -/
def Call.handedOver (c : Call) : List String :=
  if c.routine = "appendEntityToJsonObject" then ((c.args.drop 3).take 1).flatMap wordsOf
  else if c.routine = "getJsonObjectEntityValue" then ((c.args.drop 2).take 1).flatMap wordsOf
  else []

def Call.entityRoutines (kind : SnippetKind) (c : Call) : List String :=
  (if c.IsOutside kind then [] else [c.routine]) ++ c.handedOver

def entityRoutinesIn (kind : SnippetKind) (code : String) : List String :=
  (callsOfCode code).flatMap (Call.entityRoutines kind)

def entityRoutinesOfAll (kind : SnippetKind) (ss : List Statement) : List String :=
  (callsInAll ss).flatMap (Call.entityRoutines kind)

section
variable {kind : SnippetKind}

theorem entityRoutinesIn_code {r : Routine} (h : r.Legible) :
    entityRoutinesIn kind r.code =
      ((callsInAll r.body).filter isRoutineCall).flatMap (Call.entityRoutines kind) := by
  rw [entityRoutinesIn, Routine.code, callsOfCode_bodyText h.body]

theorem entityRoutinesIn_code_subset {r : Routine} (h : r.Legible) :
    entityRoutinesIn kind r.code ⊆ entityRoutinesOfAll kind r.body := by
  rw [entityRoutinesIn_code h]
  intro n hn
  obtain ⟨c, hc, hmem⟩ := List.mem_flatMap.1 hn
  exact List.mem_flatMap.2 ⟨c, (List.mem_filter.1 hc).1, hmem⟩

@[simp] theorem entityRoutinesOfAll_nil : entityRoutinesOfAll kind [] = [] := rfl

@[simp] theorem entityRoutinesOfAll_cons (s : Statement) (ss : List Statement) :
    entityRoutinesOfAll kind (s :: ss) =
      s.calls.flatMap (Call.entityRoutines kind) ++ entityRoutinesOfAll kind ss := by
  rw [entityRoutinesOfAll, callsInAll, List.flatMap_append]
  rfl

@[simp] theorem entityRoutinesOfAll_append (a b : List Statement) :
    entityRoutinesOfAll kind (a ++ b) = entityRoutinesOfAll kind a ++ entityRoutinesOfAll kind b := by
  rw [entityRoutinesOfAll, callsInAll_append, List.flatMap_append]
  rfl

theorem entityRoutinesOfAll_flatMap {α : Type} (xs : List α) (f : α → List Statement) :
    entityRoutinesOfAll kind (xs.flatMap f) = xs.flatMap fun x => entityRoutinesOfAll kind (f x) := by
  rw [entityRoutinesOfAll, callsInAll_flatMap, List.flatMap_assoc]
  rfl

theorem entityRoutinesOfAll_map {α : Type} (xs : List α) (f : α → Statement) :
    entityRoutinesOfAll kind (xs.map f) =
      xs.flatMap fun x => (f x).calls.flatMap (Call.entityRoutines kind) := by
  induction xs with
  | nil => rfl
  | cons x xs ih => simp [ih]

theorem entityRoutinesOfAll_blankUnless (nothing : Bool) :
    entityRoutinesOfAll kind (blankUnless nothing) = [] := by
  cases nothing <;> rfl

theorem not_mem_outsideRoutines {verb : String}
    (h : ∀ name ∈ outsideRoutines kind, beginsWith verb name = false) (rest : String) :
    verb ++ rest ∉ outsideRoutines kind := by
  intro hmem
  have hverb := h _ hmem
  rw [beginsWith_append] at hverb
  cases hverb

/-- No call of the kind has a name with the verb, so one that does belongs to an entity. -/
theorem entityRoutines_of_verb {verb : String}
    (h : ∀ name ∈ outsideRoutines kind, beginsWith verb name = false) (rest : String)
    {args : List (List Token)} (hargs : args.length ≤ 2) :
    (⟨verb ++ rest, args⟩ : Call).entityRoutines kind = [verb ++ rest] := by
  have hdrop : args.drop 2 = [] := List.drop_eq_nil_iff.2 hargs
  have hdrop' : args.drop 3 = [] := List.drop_eq_nil_iff.2 (by omega)
  have hinside : ¬(⟨verb ++ rest, args⟩ : Call).IsOutside kind := by
    intro hout
    cases hout with
    | inl hmem => exact not_mem_outsideRoutines h rest hmem
    | inr hrelease => exact absurd hrelease.2.2 (by simp only; omega)
  have hnone : (⟨verb ++ rest, args⟩ : Call).handedOver = [] := by
    simp [Call.handedOver, hdrop, hdrop']
  rw [Call.entityRoutines, if_neg hinside, hnone, List.append_nil]

/-- Only two helpers are handed a routine. -/
theorem entityRoutines_of_outside {routine : String} (h : routine ∈ outsideRoutines kind)
    (happend : routine ≠ "appendEntityToJsonObject") (hread : routine ≠ "getJsonObjectEntityValue")
    (args : List (List Token)) : (⟨routine, args⟩ : Call).entityRoutines kind = [] := by
  have hout : (⟨routine, args⟩ : Call).IsOutside kind := .inl h
  rw [Call.entityRoutines, if_pos hout, Call.handedOver, if_neg happend, if_neg hread]
  rfl

theorem entityRoutines_append (args : List (List Token)) :
    (⟨"appendEntityToJsonObject", args⟩ : Call).entityRoutines .serialize =
      ((args.drop 3).take 1).flatMap wordsOf := by
  have hout : (⟨"appendEntityToJsonObject", args⟩ : Call).IsOutside .serialize :=
    .inl (show "appendEntityToJsonObject" ∈ outsideRoutines .serialize by decide)
  rw [Call.entityRoutines, if_pos hout]
  rfl

theorem entityRoutines_read (args : List (List Token)) :
    (⟨"getJsonObjectEntityValue", args⟩ : Call).entityRoutines .deserialize =
      ((args.drop 2).take 1).flatMap wordsOf := by
  have hout : (⟨"getJsonObjectEntityValue", args⟩ : Call).IsOutside .deserialize :=
    .inl (show "getJsonObjectEntityValue" ∈ outsideRoutines .deserialize by decide)
  rw [Call.entityRoutines, if_pos hout]
  rfl

end

def referenced (name : String → String) (f : PlannedField) : List String :=
  (f.reference?.map name).toList

end Script

namespace Plan

open Script

variable {p : Plan} {f : PlannedField}

theorem entityRoutines_getCall {kind : SnippetKind} (p : Plan) (f : PlannedField)
    (h : ∀ name ∈ outsideRoutines kind, beginsWith "get" name = false) :
    (p.getCall f).calls.flatMap (Call.entityRoutines kind) = [p.names.getter f.name] := by
  have hname : p.names.getter f.name = "get" ++ (p.names.className ++ Text.upperFirst f.name) := by
    rw [Names.getter, String.append_assoc]
  rw [getCall, Expr.calls, hname, List.flatMap_cons, entityRoutines_of_verb h _ (by simp)]
  simp [Expr.callsOfAll, Expr.calls]

theorem entityRoutines_setCall {kind : SnippetKind} (p : Plan) (f : PlannedField)
    (h : ∀ name ∈ outsideRoutines kind, beginsWith "set" name = false) (value : Expr) :
    (p.setCall f value).calls.flatMap (Call.entityRoutines kind) =
      p.names.setter f.name :: value.calls.flatMap (Call.entityRoutines kind) := by
  have hname : p.names.setter f.name = "set" ++ (p.names.className ++ Text.upperFirst f.name) := by
    rw [Names.setter, String.append_assoc]
  rw [setCall, Statement.calls, Expr.calls, hname, List.flatMap_cons,
    entityRoutines_of_verb h _ (by simp)]
  simp [Expr.callsOfAll, Expr.calls]

theorem entityRoutines_constructor (p : Plan) :
    entityRoutinesOfAll .create (constructor p).body = p.fields.map fun f => p.names.setter f.name := by
  have hset : ∀ name ∈ outsideRoutines .create, beginsWith "set" name = false := by decide
  have hstored (f : PlannedField) :
      (storedValue f).calls.flatMap (Call.entityRoutines .create) = [] := by
    rw [storedValue]
    split
    · rfl
    · simp (disch := decide) [Expr.calls, Expr.callsOfAll, entityRoutines_of_outside]
  have hnew : (Statement.declare p.names.object (.call "createEntity" [.name p.names.className])).calls.flatMap
      (Call.entityRoutines .create) = [] := by
    simp (disch := decide) [Statement.calls, Expr.calls, Expr.callsOfAll, entityRoutines_of_outside]
  rw [constructor]
  simp only [entityRoutinesOfAll_append, entityRoutinesOfAll_cons, entityRoutinesOfAll_nil,
    entityRoutinesOfAll_map, entityRoutinesOfAll_blankUnless, entityRoutines_setCall p _ hset,
    hstored, hnew]
  simp [Statement.calls, Expr.calls, calls_argument, List.map_eq_flatMap]

theorem entityRoutines_appendCall (p : Plan) (f : PlannedField) :
    (appendCall f (p.getCall f)).calls.flatMap (Call.entityRoutines .serialize) =
      referenced serializeName f ++ [p.names.getter f.name] := by
  have hget : ∀ name ∈ outsideRoutines .serialize, beginsWith "get" name = false := by decide
  have hvalue := entityRoutines_getCall p f hget
  rw [appendCall, referenced]
  split
  · rename_i entity he
    simp [Statement.calls, Expr.calls, Expr.callsOfAll, callsOfAll_tagArgs, entityRoutines_append,
      Expr.spelled, wordsOf, hvalue, he]
  · rename_i he
    simp (disch := decide) [Statement.calls, Expr.calls, Expr.callsOfAll, callsOfAll_tagArgs,
      entityRoutines_of_outside, hvalue, he]

theorem entityRoutines_appendField (p : Plan) (f : PlannedField) :
    entityRoutinesOfAll .serialize (appendField p f) =
      (if f.isOptional then [p.names.getter f.name] else []) ++
        (referenced serializeName f ++ [p.names.getter f.name]) := by
  have hget : ∀ name ∈ outsideRoutines .serialize, beginsWith "get" name = false := by decide
  have hvalue := entityRoutines_getCall p f hget
  have happend := entityRoutines_appendCall p f
  have htest : (isPresent (p.getCall f)).calls.flatMap (Call.entityRoutines .serialize) =
      [p.names.getter f.name] := by
    simp (disch := decide) [isPresent, Expr.calls, Expr.callsOfAll, entityRoutines_of_outside, hvalue]
  rw [appendField, guardedBy]
  split
  · simp [Statement.calls, Head.calls, callsInAll, htest, happend]
  · simp [happend]

theorem entityRoutines_serializer (p : Plan) :
    entityRoutinesOfAll .serialize (serializer p).body = p.fields.flatMap fun f =>
      (if f.isOptional then [p.names.getter f.name] else []) ++
        (referenced serializeName f ++ [p.names.getter f.name]) := by
  have hcreate : (Expr.call "createJsonObject" []).calls.flatMap
      (Call.entityRoutines .serialize) = [] := by
    simp (disch := decide) [Expr.calls, Expr.callsOfAll, entityRoutines_of_outside]
  have hencode : (Expr.call "encodeJson" [.name "jsonObject"]).calls.flatMap
      (Call.entityRoutines .serialize) = [] := by
    simp (disch := decide) [Expr.calls, Expr.callsOfAll, entityRoutines_of_outside]
  rw [serializer]
  simp only [entityRoutinesOfAll_append, entityRoutinesOfAll_cons, entityRoutinesOfAll_nil,
    entityRoutinesOfAll_flatMap, entityRoutines_appendField, Statement.calls, hcreate, hencode]
  simp [Expr.calls, calls_argument]

theorem entityRoutines_readCall (f : PlannedField) :
    (readCall f).calls.flatMap (Call.entityRoutines .deserialize) = referenced deserializeName f := by
  rw [readCall, referenced]
  split
  · rename_i entity he
    simp [Expr.calls, Expr.callsOfAll, callsOfAll_tagArgs, entityRoutines_read, Expr.spelled, wordsOf,
      he]
  · rename_i he
    simp (disch := decide) [Expr.calls, Expr.callsOfAll, callsOfAll_tagArgs,
      entityRoutines_of_outside, he]

theorem entityRoutines_readField (p : Plan) (f : PlannedField) :
    entityRoutinesOfAll .deserialize (readField p f) = referenced deserializeName f := by
  have hwarning : (missingWarning p.names.deserialize f).calls.flatMap
      (Call.entityRoutines .deserialize) = [] := by
    simp (disch := decide) [missingWarning, Statement.calls, Expr.calls, Expr.callsOfAll,
      entityRoutines_of_outside]
  have htest : (isPresent (.name f.name)).calls.flatMap (Call.entityRoutines .deserialize) = [] := by
    simp (disch := decide) [isPresent, Expr.calls, Expr.callsOfAll, entityRoutines_of_outside]
  have hread := entityRoutines_readCall f
  simp [readField, Statement.calls, Head.calls, Expr.calls, callsInAll, hwarning, htest, hread]

theorem entityRoutines_createCall (p : Plan) :
    (Expr.call p.names.create (p.fields.map fun f => .name f.name)).calls.flatMap
      (Call.entityRoutines .deserialize) = [p.names.create] := by
  have hcreate : ∀ name ∈ outsideRoutines .deserialize, beginsWith "create" name = false := by decide
  have hinside : ∀ args, ¬(⟨p.names.create, args⟩ : Call).IsOutside .deserialize := by
    intro args hout
    cases hout with
    | inl hmem => exact not_mem_outsideRoutines hcreate _ hmem
    | inr hrelease => cases hrelease.1
  have happend : p.names.create ≠ "appendEntityToJsonObject" := by
    intro he
    simpa [Names.create, createName] using congrArg (·.toList.head?) he
  have hread : p.names.create ≠ "getJsonObjectEntityValue" := by
    intro he
    simpa [Names.create, createName] using congrArg (·.toList.head?) he
  simp [Expr.calls, Expr.callsOfAll_names, Call.entityRoutines, hinside, Call.handedOver, happend,
    hread]

theorem entityRoutines_deserializer (p : Plan) :
    entityRoutinesOfAll .deserialize (deserializer p).body =
      p.fields.flatMap (referenced deserializeName) ++ [p.names.create] := by
  have hdecode : (Expr.call "decodeJson" [.name "jsonString"]).calls.flatMap
      (Call.entityRoutines .deserialize) = [] := by
    simp (disch := decide) [Expr.calls, Expr.callsOfAll, entityRoutines_of_outside]
  rw [deserializer]
  simp only [entityRoutinesOfAll_append, entityRoutinesOfAll_cons, entityRoutinesOfAll_nil,
    entityRoutinesOfAll_flatMap, entityRoutines_readField, entityRoutines_createCall,
    Statement.calls, hdecode]
  simp [calls_argument]

theorem entityRoutines_destroyElements (f : PlannedField) :
    entityRoutinesOfAll .destroy (destroyElements f) = referenced destroyName f := by
  have hdestroy : ∀ name ∈ outsideRoutines .destroy, beginsWith "destroy" name = false := by decide
  rw [destroyElements, referenced]
  split
  · rename_i entity he
    have hcall (element : String) :
        (⟨destroyName entity, [(Expr.name element).spelled]⟩ : Call).entityRoutines .destroy =
          [destroyName entity] := entityRoutines_of_verb hdestroy _ (by simp)
    cases f.container <;>
      simp (disch := decide) [ContainerKind.traversal, ContainerKind.Traversal.visit,
        ContainerKind.Traversal.wrap, ContainerKind.Traversal.binding, ContainerKind.elementVar,
        callsInAll, Statement.calls, Head.calls, firstKey, hasKey, nextKey, Expr.calls,
        Expr.callsOfAll, entityRoutines_of_outside, hcall, he]
  · rename_i he
    simp [he]

theorem entityRoutines_release (f : PlannedField) (owner : String) :
    entityRoutinesOfAll .destroy (f.container.release? f.name owner).toList = [] := by
  have hrelease (tag : List Token) (message : List Token) :
      (⟨"destroyDataStructure", [[.word f.name], tag, message]⟩ : Call).entityRoutines .destroy =
        [] := by
    have hout : (⟨"destroyDataStructure", [[.word f.name], tag, message]⟩ : Call).IsOutside
        .destroy := .inr ⟨rfl, rfl, rfl⟩
    rw [Call.entityRoutines, if_pos hout]
    rfl
  cases f.container <;>
    simp [ContainerKind.release?, ContainerKind.ownsStructure, ContainerKind.tag?,
      ContainerKind.isScalar, Statement.calls, Expr.calls, Expr.callsOfAll, Expr.spelled, hrelease]

theorem entityRoutines_teardownSegment (p : Plan) (f : PlannedField) :
    entityRoutinesOfAll .destroy (teardownSegment p f) = referenced destroyName f := by
  have htest : (isPresent (.name f.name)).calls.flatMap (Call.entityRoutines .destroy) = [] := by
    simp (disch := decide) [isPresent, Expr.calls, Expr.callsOfAll, entityRoutines_of_outside]
  have hteardown : entityRoutinesOfAll .destroy (teardown p.names.className f) =
      referenced destroyName f := by
    rw [teardown, entityRoutinesOfAll_append, entityRoutines_destroyElements, entityRoutines_release,
      List.append_nil]
  rw [teardownSegment, entityRoutinesOfAll_append, guardedBy]
  split
  · rw [entityRoutinesOfAll] at hteardown
    simp [Statement.calls, Head.calls, htest, hteardown]
  · simp [Statement.calls, hteardown]

theorem entityRoutines_destructor (p : Plan) :
    entityRoutinesOfAll .destroy (destructor p).body =
      (p.fields.filter ownsPayload).map (fun f => p.names.getter f.name) ++
      (p.fields.filter ownsPayload).flatMap (referenced destroyName) ++
      p.fields.map fun f => p.names.setter f.name := by
  have hget : ∀ name ∈ outsideRoutines .destroy, beginsWith "get" name = false := by decide
  have hset : ∀ name ∈ outsideRoutines .destroy, beginsWith "set" name = false := by decide
  rw [destructor]
  simp only [entityRoutinesOfAll_append, entityRoutinesOfAll_cons, entityRoutinesOfAll_nil,
    entityRoutinesOfAll_map, entityRoutinesOfAll_flatMap, entityRoutinesOfAll_blankUnless,
    entityRoutines_setCall p _ hset, entityRoutines_teardownSegment, Statement.calls,
    entityRoutines_getCall p _ hget]
  simp [Expr.calls, calls_argument, List.map_eq_flatMap]

/-- The scripts of an entity, each with the kind of the snippet that it stands in. -/
def scripts (p : Plan) : List (SnippetKind × Routine) :=
  [(.create, constructor p), (.serialize, serializer p), (.deserialize, deserializer p),
    (.destroy, destructor p)] ++ p.fields.map (fun f => (.getters, getter p f)) ++
    p.fields.map (fun f => (.setters, setter p f))

/-- The routed blocks of what is generated are the scripts, and the block of labels has no code. -/
theorem routed_generate (p : Plan) (stamp : String) :
    ((generate p stamp).flatMap fun s => s.routed.map fun x => (s.kind, x.2)) =
      p.scripts.map fun x => (x.1, x.2.block stamp) := by
  simp [generate, Snippet.routed, Routine.block, scripts, List.filterMap_map, Function.comp_def]

theorem create_mem_targets (h : p.Accepted) : p.names.create ∈ p.targets := by
  have hclass : Text.upperFirst p.names.className = p.names.className :=
    upperFirst_upperFirst h.plainName
  have htarget := p.mem_targets_of_class (v := .create) rfl
  rwa [Names.create, createName, hclass]

theorem getter_mem_targets (hf : f ∈ p.fields) : p.names.getter f.name ∈ p.targets := by
  rw [Names.getter, String.append_assoc]
  exact mem_targets_of_field hf

theorem setter_mem_targets (hf : f ∈ p.fields) : p.names.setter f.name ∈ p.targets := by
  rw [Names.setter, String.append_assoc]
  exact List.mem_map.2 ⟨(.set, _), mem_scriptKeys.2 (List.mem_map_of_mem hf), rfl⟩

theorem forall_mem_scripts {P : SnippetKind → Routine → Prop} : (∀ x ∈ p.scripts, P x.1 x.2) ↔
    P .create (constructor p) ∧ P .serialize (serializer p) ∧ P .deserialize (deserializer p) ∧
      P .destroy (destructor p) ∧ (∀ f ∈ p.fields, P .getters (getter p f)) ∧
      ∀ f ∈ p.fields, P .setters (setter p f) := by
  simp only [scripts, List.forall_mem_append, List.forall_mem_map, List.forall_mem_cons,
    List.not_mem_nil, false_implies, implies_true, and_true, and_assoc]

theorem Sound.legible_script (h : p.Sound) : ∀ x ∈ p.scripts, x.2.Legible :=
  forall_mem_scripts (P := fun _ r => r.Legible).2 ⟨h.legible_constructor, h.legible_serializer,
    h.legible_deserializer, h.legible_destructor, fun _ hf => h.legible_getter hf,
    fun _ hf => h.legible_setter hf⟩

/-- A script uses the accessors of its own entity, the constructor of its own entity, and for a field
that refers to an entity the routine of that entity that does the same. -/
theorem Accepted.entityRoutines_subset (h : p.Accepted) {known : List String}
    (hown : p.targets ⊆ known)
    (hknown : ∀ f ∈ p.fields, ∀ v : Verb, v.isAccessor = false → ∀ n, f.reference? = some n →
      scriptName v (Text.upperFirst n) ∈ known) :
    ∀ x ∈ p.scripts, entityRoutinesOfAll x.1 x.2.body ⊆ known := by
  have hgetter {f : PlannedField} (hf : f ∈ p.fields) : p.names.getter f.name ∈ known :=
    hown (getter_mem_targets hf)
  have hsetters : ∀ n ∈ p.fields.map (fun f => p.names.setter f.name), n ∈ known :=
    List.forall_mem_map.2 fun f hf => hown (setter_mem_targets hf)
  have hreferenced {f : PlannedField} (hf : f ∈ p.fields) {v : Verb} (hv : v.isAccessor = false) :
      ∀ n ∈ referenced (fun n => scriptName v (Text.upperFirst n)) f, n ∈ known := by
    intro n hn
    obtain ⟨entity, hentity, hname⟩ := Option.map_eq_some_iff.1 (Option.mem_toList.1 hn)
    exact hname ▸ hknown f hf v hv entity hentity
  refine forall_mem_scripts (P := fun kind r => entityRoutinesOfAll kind r.body ⊆ known).2
    ⟨?_, ?_, ?_, ?_, fun f _ => ?_, fun f _ => ?_⟩
  · rw [entityRoutines_constructor]
    exact hsetters
  · rw [entityRoutines_serializer]
    refine List.forall_mem_flatMap.2 fun f hf => ?_
    rw [List.forall_mem_append, List.forall_mem_append, List.forall_mem_singleton]
    refine ⟨fun n hn => ?_, hreferenced hf (v := .serialize) rfl, hgetter hf⟩
    split at hn
    · exact List.mem_singleton.1 hn ▸ hgetter hf
    · cases hn
  · rw [entityRoutines_deserializer]
    refine List.forall_mem_append.2 ⟨List.forall_mem_flatMap.2 fun f hf => ?_,
      List.forall_mem_singleton.2 (hown (create_mem_targets h))⟩
    exact hreferenced hf (v := .deserialize) rfl
  · rw [entityRoutines_destructor]
    refine List.forall_mem_append.2 ⟨List.forall_mem_append.2 ⟨List.forall_mem_map.2 fun f hf => ?_,
      List.forall_mem_flatMap.2 fun f hf => ?_⟩, hsetters⟩
    · exact hgetter (List.mem_of_mem_filter hf)
    · exact hreferenced (List.mem_of_mem_filter hf) (v := .destroy) rfl
  · exact List.nil_subset _
  · exact List.nil_subset _

end Plan

/-- If types may only name entities of the model and all of these are planned, every routine of an
entity that a script uses, whatever the entity, is generated in the same run: what a script calls
besides the runtime and the language, and what it hands over to the runtime for references. -/
theorem entity_routines_generated (m : Model) (plans : List Plan) (stamp : String)
    (h : planEntities m ∅ .reject = .ok plans) :
    ∀ p ∈ plans,
      ((Script.generate p stamp).flatMap fun s => s.routed.map fun x => (s.kind, x.2)) =
        p.scripts.map (fun x => (x.1, x.2.block stamp)) ∧
      ∀ x ∈ p.scripts, ∀ n ∈ Script.entityRoutinesIn x.1 x.2.code,
        n ∈ Plan.routedTargets stamp plans := by
  intro p hp
  have haccepted := accepted_of_planEntities h
  have hown : p.targets ⊆ plans.flatMap Plan.targets := fun n hn =>
    List.mem_flatMap.2 ⟨p, hp, hn⟩
  have hknown : ∀ f ∈ p.fields, ∀ v : Script.Verb, v.isAccessor = false →
      ∀ n, f.reference? = some n →
        Script.scriptName v (Text.upperFirst n) ∈ plans.flatMap Plan.targets := by
    intro f hf v hv n hn
    obtain ⟨q, hq, hname⟩ := exists_plan_of_reference h hp hf hn
    have htarget := q.mem_targets_of_class hv
    rw [Plan.names, hname] at htarget
    exact List.mem_flatMap.2 ⟨q, hq, htarget⟩
  refine ⟨p.routed_generate stamp, fun x hx n hn => ?_⟩
  rw [Plan.routedTargets_eq haccepted]
  have hlegible := (sound_of_planEntities h p hp).legible_script x hx
  exact (haccepted p hp).entityRoutines_subset hown hknown x hx
    (Script.entityRoutinesIn_code_subset hlegible hn)

/-- Two entities that refer to each other, and one of them to itself. -/
def guildModel : Model :=
  ⟨[⟨"guild", [⟨"members", "List<Hero>"⟩, ⟨"rival", "Optional<guild>"⟩], ∅, ∅⟩,
    ⟨"Hero", [⟨"home", "guild"⟩, ⟨"hp", "int"⟩], .ofList ["int"], ∅⟩]⟩

def guildPlan : Plan :=
  ⟨"guild", [⟨0, "members", "List<Hero>", ⟨⟨.entity, .list⟩, false, "Hero", none⟩⟩,
    ⟨1, "rival", "Optional<guild>", ⟨⟨.entity, .scalar⟩, true, "guild", none⟩⟩]⟩

def heroPlan : Plan :=
  ⟨"Hero", [⟨0, "home", "guild", ⟨⟨.entity, .scalar⟩, false, "guild", none⟩⟩,
    ⟨1, "hp", "int", ⟨⟨.primitive, .scalar⟩, false, "int", none⟩⟩]⟩

theorem guild_routines_generated :
    planEntities guildModel ∅ .reject = .ok [guildPlan, heroPlan] ∧
      Script.entityRoutinesIn .destroy (Script.destructor guildPlan).code =
        ["getGuildMembers", "getGuildRival", "destroyHero", "destroyGuild", "setGuildMembers",
          "setGuildRival"] ∧
      ∀ n ∈ Script.entityRoutinesIn .destroy (Script.destructor guildPlan).code,
        n ∈ Plan.routedTargets "now" [guildPlan, heroPlan] := by
  have hplans : planEntities guildModel ∅ .reject = .ok [guildPlan, heroPlan] := by
    decide +kernel
  have hscript : (.destroy, Script.destructor guildPlan) ∈ guildPlan.scripts := by
    simp [Plan.scripts]
  have hclosed := (entity_routines_generated guildModel _ "now" hplans guildPlan (by simp)).2
    (.destroy, Script.destructor guildPlan) hscript
  have hlegible := (sound_of_planEntities hplans guildPlan (by simp)).legible_script _ hscript
  refine ⟨hplans, ?_, hclosed⟩
  rw [Script.entityRoutinesIn_code hlegible]
  decide +kernel

end EntityScripts
