import EntityScripts.Proofs.LegibleScripts

/-!
Serializer and deserializer, read back from their texts. Each of them moves every field once, in
declaration order, and what the call says about the field is the same on both sides.
-/
namespace EntityScripts

namespace Script

/-- What a call says about the field that it moves to or from a JSON object. -/
structure JsonUse where
  label : String
  reference : Option String
  tag : Option String
deriving DecidableEq

def appendRoutines : List String := ["appendFieldToJsonObject", "appendEntityToJsonObject"]

def readRoutines : List String := ["getJsonObjectFieldValue", "getJsonObjectEntityValue"]

def tagAtEnd : List (List Token) → Option (Option String)
  | [] => some none
  | [[.word tag]] => some (some tag)
  | _ => none

/-- The entity in the name of a routine, behind its verb. -/
def entityBehind (verb routine : String) : Option String :=
  (Text.dropFront? verb.toList routine.toList).map String.ofList

/-- What is said by a label and the arguments behind it, of which a routine is the first if the field
is a reference. -/
def jsonUse (verb : String) (isReference : Bool) : List Token → List (List Token) → Option JsonUse
  | [.literal label], rest =>
    if isReference then
      match rest with
      | [.word routine] :: rest => do
        return ⟨label, some (← entityBehind verb routine), ← tagAtEnd rest⟩
      | _ => none
    else do
      return ⟨label, none, ← tagAtEnd rest⟩
  | _, _ => none

def appendUse (c : Call) : Option JsonUse :=
  match c.args with
  | _ :: label :: _ :: rest =>
    jsonUse "serialize" (c.routine = "appendEntityToJsonObject") label rest
  | _ => none

def readUse (c : Call) : Option JsonUse :=
  match c.args with
  | _ :: label :: rest =>
    jsonUse "deserialize" (c.routine = "getJsonObjectEntityValue") label rest
  | _ => none

/-- The calls of some routines, with what they say and the heads of the blocks around them. -/
def countedUses (routines : List String) (use : Call → Option JsonUse) (around : List String)
    (cs : List Call) : List (List String × Option JsonUse) :=
  (cs.filter (·.routine ∈ routines)).map fun c => (around, use c)

def usesIn (routines : List String) (use : Call → Option JsonUse) (ls : List CodeLine) :
    List (List String × Option JsonUse) :=
  ls.flatMap fun l => countedUses routines use l.around (calls l.code)

def appendsIn (text : String) : List (List String × Option JsonUse) :=
  usesIn appendRoutines appendUse (outline text)

def readsIn (text : String) : List (List String × Option JsonUse) :=
  usesIn readRoutines readUse (outline text)

section
variable {routines : List String} {use : Call → Option JsonUse}

@[simp] theorem countedUses_nil (around : List String) : countedUses routines use around [] = [] :=
  rfl

theorem countedUses_of_mem {routine : String} (h : routine ∈ routines) (around : List String)
    (args : List (List Token)) (cs : List Call) :
    countedUses routines use around (⟨routine, args⟩ :: cs) =
      (around, use ⟨routine, args⟩) :: countedUses routines use around cs := by
  simp [countedUses, h]

theorem countedUses_of_not_mem {routine : String} (h : routine ∉ routines) (around : List String)
    (args : List (List Token)) (cs : List Call) :
    countedUses routines use around (⟨routine, args⟩ :: cs) =
      countedUses routines use around cs := by
  simp [countedUses, h]

@[simp] theorem usesIn_nil : usesIn routines use [] = [] := rfl

theorem usesIn_append (a b : List CodeLine) :
    usesIn routines use (a ++ b) = usesIn routines use a ++ usesIn routines use b := by
  simp [usesIn]

theorem usesIn_flatMap {α : Type} (xs : List α) (f : α → List CodeLine) :
    usesIn routines use (xs.flatMap f) = xs.flatMap fun x => usesIn routines use (f x) := by
  simp [usesIn, List.flatMap_assoc]

theorem usesIn_cons (l : CodeLine) (ls : List CodeLine) :
    usesIn routines use (l :: ls) =
      countedUses routines use l.around (calls l.code) ++ usesIn routines use ls := rfl

end

end Script

def PlannedField.jsonUse (f : PlannedField) : Script.JsonUse where
  label := f.name
  reference := if f.isEntity then some (Text.upperFirst f.classified.element) else none
  tag := if f.container = .scalar then none else some f.container.name

namespace Script

theorem tag?_eq (k : ContainerKind) :
    k.tag? = if k = .scalar then none else some k.name := by
  cases k <;> rfl

theorem tagAtEnd_tagArgs (k : ContainerKind) :
    tagAtEnd (k.tagArgs.map Expr.spelled) = some k.tag? := by
  cases h : k.tag? <;> simp [ContainerKind.tagArgs, h, tagAtEnd, Expr.spelled]

theorem callsOfAll_tagArgs (k : ContainerKind) : Expr.callsOfAll k.tagArgs = [] := by
  cases h : k.tag? <;> simp [ContainerKind.tagArgs, h, Expr.callsOfAll, Expr.calls]

theorem entityBehind_append (verb entity : String) :
    entityBehind verb (verb ++ entity) = some entity := by
  have h : Text.dropFront? verb.toList (verb ++ entity).toList = some entity.toList :=
    Text.dropFront?_eq_some_iff.2 (by simp)
  rw [entityBehind, h, Option.map_some, String.ofList_toList]

theorem jsonUse_reference {verb entity : String} {f : PlannedField}
    (h : f.reference? = some entity) :
    jsonUse verb true [.literal f.name]
      ([.word (verb ++ Text.upperFirst entity)] :: f.container.tagArgs.map Expr.spelled) =
      some f.jsonUse := by
  have hentity : f.isEntity = true ∧ f.classified.element = entity := by
    simpa [PlannedField.reference?] using h
  simp [jsonUse, entityBehind_append, tagAtEnd_tagArgs, tag?_eq, PlannedField.jsonUse, hentity]

theorem jsonUse_plain (verb : String) {f : PlannedField} (h : f.reference? = none) :
    jsonUse verb false [.literal f.name] (f.container.tagArgs.map Expr.spelled) =
      some f.jsonUse := by
  have hentity : f.isEntity = false := by simpa [PlannedField.reference?] using h
  simp [jsonUse, tagAtEnd_tagArgs, tag?_eq, PlannedField.jsonUse, hentity]

/-- An append call makes no calls but those that give the value, and says what it has to. -/
theorem appendCall_eq (f : PlannedField) (value : Expr) :
    ∃ routine args, appendCall f value = .run (.call routine args) ∧ routine ∈ appendRoutines ∧
      Expr.callsOfAll args = value.calls ∧
      appendUse ⟨routine, args.map Expr.spelled⟩ = some f.jsonUse := by
  simp only [appendCall]
  split
  · rename_i entity he
    refine ⟨_, _, rfl, by simp [appendRoutines], ?_, jsonUse_reference he⟩
    simp [Expr.callsOfAll, Expr.calls, callsOfAll_tagArgs]
  · rename_i he
    refine ⟨_, _, rfl, by simp [appendRoutines], ?_, jsonUse_plain "serialize" he⟩
    simp [Expr.callsOfAll, Expr.calls, callsOfAll_tagArgs]

/-- A read call makes no other calls, and says what it has to. -/
theorem readCall_eq (f : PlannedField) :
    ∃ routine args, readCall f = .call routine args ∧ routine ∈ readRoutines ∧
      Expr.callsOfAll args = [] ∧ readUse ⟨routine, args.map Expr.spelled⟩ = some f.jsonUse := by
  simp only [readCall]
  split
  · rename_i entity he
    refine ⟨_, _, rfl, by simp [readRoutines], ?_, jsonUse_reference he⟩
    simp [Expr.callsOfAll, Expr.calls, callsOfAll_tagArgs]
  · rename_i he
    refine ⟨_, _, rfl, by simp [readRoutines], ?_, jsonUse_plain "deserialize" he⟩
    simp [Expr.callsOfAll, Expr.calls, callsOfAll_tagArgs]

end Script

namespace Plan

open Script

variable {p : Plan} {f : PlannedField} {stamp : String}

theorem getter_not_mem_appendRoutines (p : Plan) (name : String) :
    p.names.getter name ∉ appendRoutines := by
  simp only [appendRoutines, List.mem_cons, List.not_mem_nil, or_false]
  rintro (he | he) <;> simpa [Names.getter] using congrArg (·.toList.head?) he

theorem create_not_mem_readRoutines (p : Plan) : p.names.create ∉ readRoutines := by
  simp only [readRoutines, List.mem_cons, List.not_mem_nil, or_false]
  rintro (he | he) <;> simpa [Names.create, createName] using congrArg (·.toList.head?) he

theorem countedUses_getCall (p : Plan) (f : PlannedField) (around : List String) :
    countedUses appendRoutines appendUse around (p.getCall f).calls = [] :=
  countedUses_of_not_mem (getter_not_mem_appendRoutines p f.name) around _ []

theorem Sound.usesIn_appendCall (h : p.Sound) (hf : f ∈ p.fields) (around : List String) :
    usesIn appendRoutines appendUse (outlineOfAll around [appendCall f (p.getCall f)]) =
      [(around, some f.jsonUse)] := by
  have hlegible := h.legible_appendCall hf (h.accepted.legible_getCall hf)
  obtain ⟨routine, args, he, hroutine, hcalls, huse⟩ := appendCall_eq f (p.getCall f)
  rw [he] at hlegible ⊢
  rw [outlineOfAll_run, usesIn_cons, calls_run hlegible, Expr.calls, hcalls,
    countedUses_of_mem hroutine, countedUses_getCall, huse]
  rfl

/-- The append call of an optional field stands behind a test of the field's presence. -/
theorem Sound.usesIn_appendField (h : p.Sound) (hf : f ∈ p.fields) :
    usesIn appendRoutines appendUse (outlineOfAll [] (appendField p f)) =
      [(if f.isOptional then [presenceTest (p.getCall f).text] else [], some f.jsonUse)] := by
  cases ho : f.isOptional with
  | false => simpa [appendField, guardedBy, ho] using h.usesIn_appendCall hf []
  | true =>
    have hif : "if" ∉ appendRoutines := by decide
    have hpresent : "isOptionalPresent" ∉ appendRoutines := by decide
    rw [appendField, guardedBy, ho, if_pos rfl, if_pos rfl, outlineOfAll_block, outlineOfAll_nil,
      List.append_nil, usesIn_cons, h.usesIn_appendCall hf, text_when_isPresent,
      calls_presenceTest (h.accepted.legible_getCall hf), countedUses_of_not_mem hif,
      countedUses_of_not_mem hpresent, countedUses_getCall]
    rfl

theorem Sound.appendsIn_serializer (h : p.Sound) (hs : '\n' ∉ stamp.toList) :
    appendsIn ((serializer p).text stamp) = p.fields.map fun f =>
      (if f.isOptional then [presenceTest (p.getCall f).text] else [], some f.jsonUse) := by
  have hjson : IsWord "jsonObject" := .of_all (by decide) (by decide)
  have hmake : (Expr.call "createJsonObject" []).Legible := ⟨.of_all (by decide) (by decide), trivial⟩
  have hencode : (Expr.call "encodeJson" [.name "jsonObject"]).Legible :=
    ⟨.of_all (by decide) (by decide), hjson, trivial⟩
  have hobject := h.accepted.isName_object.isWord
  have hresult := h.accepted.isName_jsonResult.isWord
  have hfields : usesIn appendRoutines appendUse (outlineOfAll [] (p.fields.flatMap (appendField p))) =
      p.fields.map fun f =>
        (if f.isOptional then [presenceTest (p.getCall f).text] else [], some f.jsonUse) := by
    rw [outlineOfAll_flatMap, usesIn_flatMap, List.map_eq_flatMap]
    exact List.flatMap_congr fun f hf => h.usesIn_appendField hf
  have hcreate : "createJsonObject" ∉ appendRoutines := by decide
  have hcode : "encodeJson" ∉ appendRoutines := by decide
  rw [appendsIn, h.legible_serializer.outline_text hs, serializer, outlineOfAll_append,
    outlineOfAll_append, usesIn_append, usesIn_append, hfields]
  simp only [outlineOfAll_declare, outlineOfAll_blank, outlineOfAll_return, outlineOfAll_nil,
    usesIn_cons, usesIn_nil, calls_empty, calls_declare hobject (legible_argument 0),
    calls_declare hjson hmake, calls_declare hresult hencode, calls_return (e := .name _) hresult,
    calls_argument, Expr.calls, Expr.callsOfAll, countedUses_nil, countedUses_of_not_mem hcreate,
    countedUses_of_not_mem hcode, List.nil_append, List.append_nil]

theorem missingWarning_eq (routine : String) (f : PlannedField) :
    ∃ args, missingWarning routine f = .run (.call "logger" args) ∧ Expr.callsOfAll args = [] :=
  ⟨_, rfl, by simp [Expr.callsOfAll, Expr.calls]⟩

theorem Sound.usesIn_readCall (h : p.Sound) (hf : f ∈ p.fields) (around : List String) :
    usesIn readRoutines readUse (outlineOfAll around [.declare f.name (readCall f)]) =
      [(around, some f.jsonUse)] := by
  have hlegible := h.legible_readCall hf
  obtain ⟨routine, args, he, hroutine, hcalls, huse⟩ := readCall_eq f
  rw [he] at hlegible ⊢
  rw [outlineOfAll_declare, usesIn_cons, calls_declare (h.accepted.isName_field hf).isWord hlegible,
    Expr.calls, hcalls, countedUses_of_mem hroutine, huse]
  rfl

/-- No call behind the read call reads a field. -/
theorem Sound.usesIn_missing (h : p.Sound) (hf : f ∈ p.fields) :
    usesIn readRoutines readUse (outlineOfAll []
      [.block (.when (.negation (isPresent (.name f.name)))) [missingWarning p.names.deserialize f],
        .blank]) = [] := by
  obtain ⟨-, ⟨⟨hmissing, hwarning, -⟩, -⟩⟩ := h.legible_readField hf
  obtain ⟨args, hw, hargs⟩ := missingWarning_eq p.names.deserialize f
  have hhead : calls (Head.when (.negation (isPresent (.name f.name)))).text = _ :=
    calls_when hmissing
  have hif : "if" ∉ readRoutines := by decide
  have hpresent : "isOptionalPresent" ∉ readRoutines := by decide
  have hlogger : "logger" ∉ readRoutines := by decide
  rw [hw] at hwarning ⊢
  rw [outlineOfAll_block, usesIn_append, usesIn_cons, hhead, outlineOfAll_run, outlineOfAll_nil,
    usesIn_cons, calls_run hwarning]
  simp only [isPresent, Expr.calls, hargs, outlineOfAll_blank, outlineOfAll_nil, usesIn_cons,
    usesIn_nil, calls_empty, Expr.callsOfAll, countedUses_nil, countedUses_of_not_mem hif,
    countedUses_of_not_mem hpresent, countedUses_of_not_mem hlogger, List.append_nil]

theorem Sound.usesIn_readField (h : p.Sound) (hf : f ∈ p.fields) :
    usesIn readRoutines readUse (outlineOfAll [] (readField p f)) = [([], some f.jsonUse)] := by
  have hsplit : readField p f = [.declare f.name (readCall f)] ++
      [.block (.when (.negation (isPresent (.name f.name)))) [missingWarning p.names.deserialize f],
        .blank] := rfl
  rw [hsplit, outlineOfAll_append, usesIn_append, h.usesIn_readCall hf, h.usesIn_missing hf]
  rfl

theorem Sound.readsIn_deserializer (h : p.Sound) (hs : '\n' ∉ stamp.toList) :
    readsIn ((deserializer p).text stamp) = p.fields.map fun f => ([], some f.jsonUse) := by
  have hstring : IsWord "jsonString" := .of_all (by decide) (by decide)
  have hjson : IsWord "jsonObject" := .of_all (by decide) (by decide)
  have hdecode : (Expr.call "decodeJson" [.name "jsonString"]).Legible :=
    ⟨.of_all (by decide) (by decide), hstring, trivial⟩
  have hfields : usesIn readRoutines readUse (outlineOfAll [] (p.fields.flatMap (readField p))) =
      p.fields.map fun f => ([], some f.jsonUse) := by
    rw [outlineOfAll_flatMap, usesIn_flatMap, List.map_eq_flatMap]
    exact List.flatMap_congr fun f hf => h.usesIn_readField hf
  have hdecoder : "decodeJson" ∉ readRoutines := by decide
  rw [readsIn, h.legible_deserializer.outline_text hs, deserializer, outlineOfAll_append,
    outlineOfAll_append, usesIn_append, usesIn_append, hfields]
  simp only [outlineOfAll_declare, outlineOfAll_blank, outlineOfAll_return, outlineOfAll_nil,
    usesIn_cons, usesIn_nil, calls_empty, calls_declare hstring (legible_argument 0),
    calls_declare hjson hdecode, calls_return h.legible_createCall, calls_argument, Expr.calls,
    Expr.callsOfAll, Expr.callsOfAll_names, countedUses_nil, countedUses_of_not_mem hdecoder,
    countedUses_of_not_mem (create_not_mem_readRoutines p), List.nil_append, List.append_nil]

end Plan

/-- Serializer and deserializer agree. In the text of each, the calls that move fields are one for
every field, in declaration order, and on both sides they give the field's name, the entity that it
refers to and the kind of its container. A read call stands outside of all blocks. An append call
stands in the block of a presence test if the field is optional, and outside of all blocks
otherwise. -/
theorem json_calls_agree (m : Model) (filter : NameSet) (policy : UnknownTypes)
    (plans : List Plan) (stamp : String) (h : planEntities m filter policy = .ok plans)
    (hs : '\n' ∉ stamp.toList) :
    ∀ p ∈ plans, ∃ serializing deserializing : Script.Block,
      Script.blocksOf .serialize (Script.generate p stamp) = [serializing] ∧
      Script.blocksOf .deserialize (Script.generate p stamp) = [deserializing] ∧
      Script.appendsIn serializing.text = p.fields.map (fun f =>
        (if f.isOptional then
          [Script.presenceTest (p.names.getter f.name ++ "(" ++ p.names.object ++ ")")]
        else [], some f.jsonUse)) ∧
      Script.readsIn deserializing.text = p.fields.map (fun f => ([], some f.jsonUse)) := by
  intro p hp
  have hsound := sound_of_planEntities h p hp
  refine ⟨_, _, rfl, rfl, ?_, hsound.readsIn_deserializer hs⟩
  have hcall (f : PlannedField) :
      (p.getCall f).text = p.names.getter f.name ++ "(" ++ p.names.object ++ ")" :=
    Script.Expr.text_ofName _ _
  simpa only [Script.Routine.block, hcall] using hsound.appendsIn_serializer hs

theorem squad_json_calls_agree :
    planEntities squadModel ∅ .permissive = .ok [squadPlan] ∧ '\n' ∉ "now".toList ∧
      ∃ serializing deserializing : Script.Block,
        Script.appendsIn serializing.text =
          [([Script.presenceTest "getSquadUnits(squad)"], some ⟨"units", some "Unit", some "List"⟩),
            ([], some ⟨"rank", none, none⟩), ([], some ⟨"camps", some "Camp", some "Array"⟩)] ∧
        Script.readsIn deserializing.text =
          [([], some ⟨"units", some "Unit", some "List"⟩), ([], some ⟨"rank", none, none⟩),
            ([], some ⟨"camps", some "Camp", some "Array"⟩)] := by
  have hstamp : '\n' ∉ "now".toList := by decide
  obtain ⟨s, d, -, -, hs, hd⟩ := json_calls_agree squadModel ∅ .permissive [squadPlan] "now"
    planEntities_squad hstamp squadPlan (by simp)
  refine ⟨planEntities_squad, hstamp, s, d, hs.trans ?_, hd.trans ?_⟩
  · decide +kernel
  · decide +kernel

end EntityScripts
