import EntityScripts.Proofs.LegibleScripts

/-!
Fields are stored by position. The parameters of the constructor, the arguments that it takes, the
calls that store them, the slots of the accessors and the arguments that the deserializer hands over
all follow the order of the fields, in the texts of the scripts.
-/
namespace EntityScripts

namespace Script

def signatureIn (text : String) : List Call :=
  ((headerLines text).filter (beginsWith functionMark)).flatMap calls

def paramLinesIn (text : String) : List String :=
  (headerLines text).filter (beginsWith "///@param ")

def codeIn (text : String) : List String := (outline text).map (·.code)

def localsIn (text : String) : List String := (codeIn text).filter (beginsWith "var ")

def setterCallsIn (text : String) : List Call :=
  ((codeIn text).flatMap calls).filter (beginsWith "set" ·.routine)

theorem beginsWith_entry {front tag : String} (ht : ∀ rest, beginsWith front (tag ++ rest) = false)
    (p : Param) : beginsWith front (p.entry tag) = false := by
  rw [Param.entry, String.append_assoc, String.append_assoc, String.append_assoc]
  exact ht _

theorem filter_entry_eq_nil {front tag : String}
    (ht : ∀ rest, beginsWith front (tag ++ rest) = false) (ps : List Param) :
    (ps.map (Param.entry tag)).filter (beginsWith front) = [] := by
  simp [List.filter_eq_nil_iff, beginsWith_entry ht]

theorem filter_entry_eq_self {front tag : String}
    (ht : ∀ p : Param, beginsWith front (p.entry tag) = true) (ps : List Param) :
    (ps.map (Param.entry tag)).filter (beginsWith front) = ps.map (Param.entry tag) := by
  simp [List.filter_eq_self, ht]

/-- Of the lines of a header, only those with its name, its parameters and its result can begin with a
text that begins none of the other tags. -/
theorem Header.filter_lines (h : Header) (stamp : String) {front : String}
    (hother : ∀ tag ∈ ["///@description ", "///@throws ", "///@generated \x7b"],
      ∀ rest, beginsWith front (tag ++ rest) = false) :
    (h.lines stamp).filter (beginsWith front) =
      [functionMark ++ " " ++ h.name ++ "(" ++ Text.joinWith ", " (h.params.map (·.name)) ++
        ")"].filter (beginsWith front) ++
      (h.params.map (Param.entry "///@param")).filter (beginsWith front) ++
      (h.result.toList.map (Param.entry "///@return")).filter (beginsWith front) := by
  simp only [List.forall_mem_cons] at hother
  obtain ⟨hdescription, hthrows, hgenerated, -⟩ := hother
  have hexception : beginsWith front "///@throws \x7bException\x7d" = false :=
    hthrows "\x7bException\x7d"
  have hstamp : beginsWith front ("///@generated \x7b" ++ stamp ++ "\x7d") = false := by
    rw [String.append_assoc]
    exact hgenerated _
  simp only [lines, List.filter_append, List.filter_cons, List.filter_nil, hdescription, hexception,
    hstamp, List.append_nil, Bool.false_eq_true, if_false]

theorem Header.filter_function (h : Header) (stamp : String) :
    (h.lines stamp).filter (beginsWith functionMark) =
      [functionMark ++ " " ++ h.name ++ "(" ++ Text.joinWith ", " (h.params.map (·.name)) ++ ")"] := by
  have hname : beginsWith functionMark
      (functionMark ++ " " ++ h.name ++ "(" ++ Text.joinWith ", " (h.params.map (·.name)) ++ ")") =
      true := by
    simp only [String.append_assoc]
    exact beginsWith_append _ _
  have hentry : ∀ tag ∈ ["///@param", "///@return"],
      ∀ rest, beginsWith functionMark (tag ++ rest) = false := by
    simp [beginsWith, functionMark, Text.dropFront?]
  rw [h.filter_lines stamp (by simp [beginsWith, functionMark, Text.dropFront?]),
    filter_entry_eq_nil (hentry "///@param" (by simp)),
    filter_entry_eq_nil (hentry "///@return" (by simp)), List.filter_cons_of_pos hname,
    List.filter_nil, List.append_nil, List.append_nil]

theorem Header.filter_param (h : Header) (stamp : String) :
    (h.lines stamp).filter (beginsWith "///@param ") = h.params.map (Param.entry "///@param") := by
  have hname (rest : String) : beginsWith "///@param " (functionMark ++ rest) = false := by
    simp [beginsWith, functionMark, Text.dropFront?]
  have hresult (rest : String) : beginsWith "///@param " ("///@return" ++ rest) = false := by
    simp [beginsWith, Text.dropFront?]
  have hparam (p : Param) : beginsWith "///@param " (p.entry "///@param") = true := by
    simp [beginsWith, Param.entry, Text.dropFront?]
  rw [h.filter_lines stamp (by simp [beginsWith, Text.dropFront?]), filter_entry_eq_self hparam,
    filter_entry_eq_nil hresult]
  simp only [String.append_assoc, List.filter_cons, hname, List.filter_nil, Bool.false_eq_true,
    if_false, List.nil_append, List.append_nil]

theorem calls_functionLine {e : Expr} (h : e.Legible) :
    calls (functionMark ++ " " ++ e.text) = e.calls := by
  have hfunction : IsWord "function" := .of_all (by decide) (by decide)
  have hend : IsBoundary [] := by simp [IsBoundary]
  have htext : (functionMark ++ " " ++ e.text).toList =
      '/' :: '/' :: '/' :: '@' :: ("function".toList ++ ' ' :: (e.text.toList ++ [])) := by
    simp [functionMark]
  rw [calls, tokens, htext, tokensOf_mark (by decide) (by decide) (by decide),
    tokensOf_mark (by decide) (by decide) (by decide),
    tokensOf_mark (by decide) (by decide) (by decide),
    tokensOf_mark (by decide) (by decide) (by decide),
    tokensOf_word hfunction (isBoundary_cons (by decide)), tokensOf_blank,
    Expr.tokensOf_text hend e h, tokensOf]
  rw [callsIn_mark, callsIn_mark, callsIn_mark, callsIn_mark, callsIn_word (noArgs_spelled e _),
    Expr.callsIn_spelled (by simp [NoArgs]) e h, callsIn, List.append_nil]

/-- The function line of a header reads like a call with the parameters. -/
theorem signatureIn_text {r : Routine} (hr : r.Legible) {stamp : String}
    (hs : '\n' ∉ stamp.toList)
    (h : (Expr.call r.header.name (r.header.params.map fun q => .name q.name)).Legible) :
    signatureIn (r.text stamp) =
      [⟨r.header.name, r.header.params.map fun q => [.word q.name]⟩] := by
  have hline := calls_functionLine h
  rw [Expr.text_ofNames, Expr.calls_ofNames] at hline
  rw [signatureIn, hr.headerLines_text hs, Header.filter_function, List.flatMap_singleton]
  simpa only [String.append_assoc] using hline

end Script

/-- A canonical type has no comma to be replaced. -/
theorem PlannedField.Typed.joinArguments_type {f : PlannedField} (h : f.Typed) :
    Script.joinArguments f.type.toList = f.type.toList := by
  refine Script.joinArguments_eq_self fun hc => ?_
  exact absurd (h.type _ hc) (by decide)

/-- Where the scripts of a plan have its fields: always at their positions. -/
structure StoresByPosition (p : Plan) (create deserialize : Script.Block)
    (getters setters : List Script.Block) : Prop where
  target : create.target = some p.names.create
  signature : Script.signatureIn create.text =
    [⟨p.names.create, p.fields.map fun f => [.word f.name]⟩]
  params : Script.paramLinesIn create.text =
    p.fields.map fun f => "///@param \x7b" ++ f.type ++ "\x7d " ++ f.name
  locals : Script.localsIn create.text =
    (p.fields.mapIdx fun i f => "var " ++ f.name ++ " = argument" ++ Nat.repr i ++ ";") ++
      ["var " ++ p.names.object ++ " = createEntity(" ++ p.names.className ++ ");"]
  stores : Script.setterCallsIn create.text = p.fields.map fun f =>
    ⟨p.names.setter f.name, [[.word p.names.object],
      if f.isOptional then [.word f.name]
      else [.word "assertNoOptional", .mark '(', .word f.name, .mark ')']]⟩
  getters : getters.map (fun b => (b.target, Script.codeIn b.text)) = p.fields.mapIdx fun i f =>
    (some (p.names.getter f.name), ["return argument0[@ " ++ Nat.repr i ++ "];"])
  setters : setters.map (fun b => (b.target, Script.codeIn b.text)) = p.fields.mapIdx fun i f =>
    (some (p.names.setter f.name), ["argument0[@ " ++ Nat.repr i ++ "] = argument1;"])
  rebuilds : ∃ line, (Script.codeIn deserialize.text).getLast? = some line ∧
    Script.beginsWith "return " line = true ∧
    Script.calls line = [⟨p.names.create, p.fields.map fun f => [.word f.name]⟩]

namespace Plan

open Script

variable {p : Plan} {f : PlannedField} {stamp : String}

theorem Classified.map_index (h : p.Classified) {α : Type} (g : Nat → PlannedField → α) :
    p.fields.map (fun f => g f.index f) = p.fields.mapIdx g := by
  refine List.ext_getElem (by simp) fun i hi _ => ?_
  have hi : i < p.fields.length := by simpa using hi
  have hindex : p.fields[i].index = i := by
    have hget := congrArg (·[i]?) h.index
    simpa [hi] using hget
  simp [hindex]

def argumentLine (f : PlannedField) : String :=
  "var " ++ f.name ++ " = argument" ++ Nat.repr f.index ++ ";"

def creationLine (p : Plan) : String :=
  "var " ++ p.names.object ++ " = createEntity(" ++ p.names.className ++ ");"

def storeCall (p : Plan) (f : PlannedField) : Expr :=
  .call (p.names.setter f.name) [.name p.names.object, storedValue f]

theorem argumentLine_eq (f : PlannedField) :
    argumentLine f = "var " ++ f.name ++ " = " ++ (argument f.index).text ++ ";" := by
  apply String.toList_injective
  simp [argument, Expr.text, argumentLine]

theorem creationLine_eq (p : Plan) :
    p.creationLine = "var " ++ p.names.object ++ " = " ++
      (Expr.call "createEntity" [.name p.names.className]).text ++ ";" := by
  rw [Expr.text_ofName]
  apply String.toList_injective
  simp [creationLine]

theorem codeIn_constructor (h : p.Sound) (hs : '\n' ∉ stamp.toList) :
    codeIn ((constructor p).text stamp) =
      p.fields.map argumentLine ++ ["", p.creationLine, ""] ++
      p.fields.map (fun f => (p.storeCall f).text ++ ";") ++
      (if p.fields.isEmpty then [] else [""]) ++ ["return " ++ p.names.object ++ ";"] := by
  rw [codeIn, h.legible_constructor.outline_text hs, constructor]
  simp only [outlineOfAll_append, outlineOfAll_map_declare, setCall, outlineOfAll_map_run,
    outlineOfAll_declare, outlineOfAll_blank, outlineOfAll_return, outlineOfAll_nil, blankUnless,
    List.map_append, List.map_map, Function.comp_def, ← argumentLine_eq, ← creationLine_eq]
  cases p.fields.isEmpty <;> rfl

theorem localsIn_constructor (h : p.Sound) (hs : '\n' ∉ stamp.toList) :
    localsIn ((constructor p).text stamp) = p.fields.map argumentLine ++ [p.creationLine] := by
  have hargument (f : PlannedField) : beginsWith "var " (argumentLine f) = true := by
    simp [beginsWith, argumentLine, Text.dropFront?]
  have hstore (f : PlannedField) : beginsWith "var " ((p.storeCall f).text ++ ";") = false := by
    simp [beginsWith, storeCall, Expr.text, Names.setter, Text.dropFront?]
  have hcreation : beginsWith "var " p.creationLine = true := by
    simp [beginsWith, creationLine, Text.dropFront?]
  have hreturn : beginsWith "var " ("return " ++ p.names.object ++ ";") = false := by
    simp [beginsWith, Text.dropFront?]
  have hblank : beginsWith "var " "" = false := by decide
  rw [localsIn, codeIn_constructor h hs]
  simp [List.filter_map, Function.comp_def, hargument, hstore, hblank, hcreation, hreturn]

theorem calls_storeCall (h : p.Sound) (hf : f ∈ p.fields) :
    (calls ((p.storeCall f).text ++ ";")).filter (beginsWith "set" ·.routine) =
      [⟨p.names.setter f.name, [[.word p.names.object],
        if f.isOptional then [.word f.name]
        else [.word "assertNoOptional", .mark '(', .word f.name, .mark ')']]⟩] := by
  have hname := h.accepted.isName_field hf
  have hlegible : (p.storeCall f).Legible := h.accepted.legible_setCall hf (legible_storedValue hname)
  have hsetter : beginsWith "set" (p.names.setter f.name) = true := by
    simp [beginsWith, Names.setter, Text.dropFront?]
  have hassert : beginsWith "set" "assertNoOptional" = false := by decide
  rw [calls_run hlegible]
  cases ho : f.isOptional with
  | false =>
    simp [storeCall, storedValue, ho, Expr.calls, Expr.callsOfAll, Expr.spelled, Expr.spelledArgs,
      hsetter, hassert]
  | true =>
    simp [storeCall, storedValue, ho, Expr.calls, Expr.callsOfAll, Expr.spelled, hsetter]

theorem calls_argumentLine (hf : TypeExpr.IsName f.name) : calls (argumentLine f) = [] := by
  rw [argumentLine_eq, calls_declare hf.isWord (legible_argument f.index), calls_argument]

theorem calls_creationLine (h : p.Accepted) :
    calls p.creationLine = [⟨"createEntity", [[.word p.names.className]]⟩] := by
  have hlegible : (Expr.call "createEntity" [.name p.names.className]).Legible :=
    ⟨.of_all (by decide) (by decide), h.isName_class.isWord, trivial⟩
  rw [creationLine_eq, calls_declare h.isName_object.isWord hlegible]
  simp [Expr.calls, Expr.callsOfAll, Expr.spelled]

theorem setterCallsIn_constructor (h : p.Sound) (hs : '\n' ∉ stamp.toList) :
    setterCallsIn ((constructor p).text stamp) = p.fields.map fun f =>
      ⟨p.names.setter f.name, [[.word p.names.object],
        if f.isOptional then [.word f.name]
        else [.word "assertNoOptional", .mark '(', .word f.name, .mark ')']]⟩ := by
  have harguments : (p.fields.map argumentLine).flatMap calls = [] := by
    simp only [List.flatMap_eq_nil_iff, List.forall_mem_map]
    exact fun f hf => calls_argumentLine (h.accepted.isName_field hf)
  have hstores : ((p.fields.map fun f => (p.storeCall f).text ++ ";").flatMap calls).filter
      (beginsWith "set" ·.routine) = p.fields.map fun f =>
        ⟨p.names.setter f.name, [[.word p.names.object],
          if f.isOptional then [.word f.name]
          else [.word "assertNoOptional", .mark '(', .word f.name, .mark ')']]⟩ := by
    rw [List.flatMap_map, List.filter_flatMap, List.map_eq_flatMap]
    exact List.flatMap_congr fun f hf => calls_storeCall h hf
  have hblank : (if p.fields.isEmpty then [] else [""]).flatMap calls = [] := by
    split <;> simp [calls_empty]
  have hreturn : calls ("return " ++ p.names.object ++ ";") = [] :=
    calls_return (e := .name p.names.object) h.accepted.isName_object.isWord
  have hcreate : beginsWith "set" "createEntity" = false := by decide
  rw [setterCallsIn, codeIn_constructor h hs]
  simp only [List.flatMap_append, List.filter_append, harguments, hstores, hblank,
    List.flatMap_cons, List.flatMap_nil, calls_empty, calls_creationLine h.accepted, hreturn,
    List.filter_cons, hcreate, List.filter_nil]
  simp

theorem codeIn_getter (h : p.Sound) (hf : f ∈ p.fields) (hs : '\n' ∉ stamp.toList) :
    codeIn ((getter p f).text stamp) = ["return argument0[@ " ++ Nat.repr f.index ++ "];"] := by
  have hslot : "return " ++ (slot f).text ++ ";" =
      "return argument0[@ " ++ Nat.repr f.index ++ "];" := by
    apply String.toList_injective
    simp [slot, Expr.text, Text.joinWith]
  rw [codeIn, (h.legible_getter hf).outline_text hs, getter]
  simp [hslot]

theorem codeIn_setter (h : p.Sound) (hf : f ∈ p.fields) (hs : '\n' ∉ stamp.toList) :
    codeIn ((setter p f).text stamp) =
      ["argument0[@ " ++ Nat.repr f.index ++ "] = argument1;"] := by
  have hslot : (slot f).text ++ " = " ++ (argument 1).text ++ ";" =
      "argument0[@ " ++ Nat.repr f.index ++ "] = argument1;" := by
    apply String.toList_injective
    simp [slot, argument, Expr.text, Text.joinWith]
    decide
  rw [codeIn, (h.legible_setter hf).outline_text hs, setter]
  simp [hslot]

theorem getLast?_codeIn_deserializer (h : p.Sound) (hs : '\n' ∉ stamp.toList) :
    (codeIn ((deserializer p).text stamp)).getLast? = some ("return " ++
      (Expr.call p.names.create (p.fields.map fun f => .name f.name)).text ++ ";") := by
  rw [codeIn, h.legible_deserializer.outline_text hs, deserializer, outlineOfAll_append,
    outlineOfAll_return, outlineOfAll_nil, List.map_append, List.map_singleton,
    List.getLast?_concat]

theorem signatureIn_constructor (h : p.Sound) (hs : '\n' ∉ stamp.toList) :
    signatureIn ((constructor p).text stamp) =
      [⟨p.names.create, p.fields.map fun f => [.word f.name]⟩] := by
  have hparams {α : Type} (g : String → α) :
      (constructor p).header.params.map (fun q => g q.name) = p.fields.map fun f => g f.name := by
    simp [constructor, Function.comp_def]
  have hcall : (Expr.call (constructor p).header.name
      ((constructor p).header.params.map fun q => .name q.name)).Legible := by
    rw [hparams]
    exact h.legible_createCall
  rw [signatureIn_text h.legible_constructor hs hcall, hparams fun n => [Token.word n]]
  rfl

theorem paramLinesIn_constructor (h : p.Sound) (hs : '\n' ∉ stamp.toList) :
    paramLinesIn ((constructor p).text stamp) =
      p.fields.map fun f => "///@param \x7b" ++ f.type ++ "\x7d " ++ f.name := by
  rw [paramLinesIn, h.legible_constructor.headerLines_text hs, Header.filter_param]
  refine List.map_map.trans (List.map_congr_left fun f hf => ?_)
  have htype := (h.classified.typed f hf).joinArguments_type
  apply String.toList_injective
  simp [Param.entry, htype]

theorem Sound.storesByPosition (h : p.Sound) (hs : '\n' ∉ stamp.toList) :
    StoresByPosition p ((constructor p).block stamp) ((deserializer p).block stamp)
      (p.fields.map fun f => (getter p f).block stamp)
      (p.fields.map fun f => (setter p f).block stamp) where
  target := rfl
  signature := signatureIn_constructor h hs
  params := paramLinesIn_constructor h hs
  locals := by
    rw [← h.classified.map_index]
    exact localsIn_constructor h hs
  stores := setterCallsIn_constructor h hs
  getters := by
    rw [← h.classified.map_index, List.map_map]
    refine List.map_congr_left fun f hf => ?_
    change (some (p.names.getter f.name), codeIn ((getter p f).text stamp)) = _
    rw [codeIn_getter h hf hs]
  setters := by
    rw [← h.classified.map_index, List.map_map]
    refine List.map_congr_left fun f hf => ?_
    change (some (p.names.setter f.name), codeIn ((setter p f).text stamp)) = _
    rw [codeIn_setter h hf hs]
  rebuilds := by
    refine ⟨_, getLast?_codeIn_deserializer h hs, ?_, ?_⟩
    · rw [String.append_assoc]
      exact beginsWith_append _ _
    · rw [calls_return h.legible_createCall, Expr.calls_ofNames]

end Plan

/-- In the scripts of an accepted plan the order of the fields is that of the constructor's
parameters, of the arguments that it takes and stores, of the slots of the accessors, and of the
arguments with which the deserializer calls the constructor. -/
theorem fields_stored_by_position (m : Model) (filter : NameSet) (policy : UnknownTypes)
    (plans : List Plan) (stamp : String) (h : planEntities m filter policy = .ok plans)
    (hs : '\n' ∉ stamp.toList) :
    ∀ p ∈ plans, ∃ create deserialize : Script.Block,
      Script.blocksOf .create (Script.generate p stamp) = [create] ∧
      Script.blocksOf .deserialize (Script.generate p stamp) = [deserialize] ∧
      StoresByPosition p create deserialize
        (Script.blocksOf .getters (Script.generate p stamp))
        (Script.blocksOf .setters (Script.generate p stamp)) := by
  intro p hp
  have hgetters : Script.blocksOf .getters (Script.generate p stamp) =
      p.fields.map fun f => (Script.getter p f).block stamp := by
    simp [Script.blocksOf, Script.generate]
  have hsetters : Script.blocksOf .setters (Script.generate p stamp) =
      p.fields.map fun f => (Script.setter p f).block stamp := by
    simp [Script.blocksOf, Script.generate]
  rw [hgetters, hsetters]
  exact ⟨_, _, rfl, rfl, (sound_of_planEntities h p hp).storesByPosition hs⟩

theorem squad_fields_stored_by_position :
    planEntities squadModel ∅ .permissive = .ok [squadPlan] ∧ '\n' ∉ "now".toList ∧
      ∃ create deserialize : Script.Block,
        Script.blocksOf .create (Script.generate squadPlan "now") = [create] ∧
        Script.blocksOf .deserialize (Script.generate squadPlan "now") = [deserialize] ∧
        StoresByPosition squadPlan create deserialize
          (Script.blocksOf .getters (Script.generate squadPlan "now"))
          (Script.blocksOf .setters (Script.generate squadPlan "now")) := by
  have hstamp : '\n' ∉ "now".toList := by decide
  exact ⟨planEntities_squad, hstamp, fields_stored_by_position squadModel ∅ .permissive [squadPlan]
    "now" planEntities_squad hstamp squadPlan (by simp)⟩

end EntityScripts
