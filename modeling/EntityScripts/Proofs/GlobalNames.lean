import EntityScripts.Proofs.JsonAgreement
import EntityScripts.Proofs.ReservedNames
import Mathlib.Data.List.TakeWhile

/-!
The names that the code of a routine takes from outside, and the variables for fields that have one
of them. Validation does not look at such names, so a field may take any of them.
-/
namespace EntityScripts

namespace Script

def controlWords : List String := ["if", "for", "while"]

def isRoutineCall (c : Call) : Bool := c.routine ∉ controlWords

def callsOfCode (code : String) : List Call :=
  (linesOfCode code).flatMap fun l => (calls l).filter isRoutineCall

def Head.calls : Head → List Call
  | .when condition => condition.calls
  | .whileLeft left => left.calls
  | .count _ bound => bound.calls
  | .keys var map => (firstKey map).calls ++ (hasKey var).calls ++ (nextKey var map).calls

mutual
def Statement.calls : Statement → List Call
  | .declare _ value => value.calls
  | .run e | .return e => e.calls
  | .assign target value => target.calls ++ value.calls
  | .blank => []
  | .block head body => head.calls ++ callsInAll body

def callsInAll : List Statement → List Call
  | [] => []
  | s :: ss => s.calls ++ callsInAll ss
end

theorem callsInAll_append (a b : List Statement) :
    callsInAll (a ++ b) = callsInAll a ++ callsInAll b := by
  induction a with
  | nil => rfl
  | cons s a ih => rw [List.cons_append, callsInAll, ih, callsInAll, List.append_assoc]

theorem callsInAll_flatMap {α : Type} (xs : List α) (f : α → List Statement) :
    callsInAll (xs.flatMap f) = xs.flatMap fun x => callsInAll (f x) := by
  induction xs with
  | nil => rfl
  | cons x xs ih => rw [List.flatMap_cons, callsInAll_append, ih, List.flatMap_cons]

theorem callsIn_between {c : Char} {e : Expr} (h : e.Legible) (hc : c ≠ '(') (ts : List Token) :
    callsIn (e.spelled ++ .mark c :: ts) = e.calls ++ callsIn ts := by
  rw [Expr.callsIn_spelled (by simp [NoArgs, hc]) e h, callsIn_mark]

theorem Head.filter_calls_text {head : Head} (h : head.Legible) :
    (Script.calls head.text).filter isRoutineCall = head.calls.filter isRoutineCall := by
  have hnil : callsIn [] = [] := rfl
  have hcontrol {w : String} (hw : w ∈ controlWords) (ts : List Token) :
      (callsIn (.word w :: .mark '(' :: ts)).filter isRoutineCall =
        (callsIn ts).filter isRoutineCall := by
    rw [callsIn, List.filter_cons_of_neg]
    simpa [isRoutineCall] using hw
  have hword {w : String} {c : Char} (hc : c ≠ '(') (ts : List Token) :
      callsIn (.word w :: .mark c :: ts) = callsIn ts := by
    rw [callsIn_word (by simp [NoArgs, hc]), callsIn_mark]
  have hfor (var : String) (ts : List Token) :
      (callsIn (.word "for" :: .mark '(' :: .word "var" :: .word var :: .mark '=' :: ts)).filter
        isRoutineCall = (callsIn ts).filter isRoutineCall := by
    rw [hcontrol (by decide), callsIn_word (by simp [NoArgs]), hword (by decide)]
  rw [Script.calls, head.tokens_text h]
  cases head with
  | «when» condition =>
    have hinside : callsIn (condition.spelled ++ [.mark ')']) = condition.calls := by
      rw [callsIn_between h (by decide), hnil, List.append_nil]
    exact (hcontrol (by decide) _).trans (congrArg (List.filter isRoutineCall) hinside)
  | whileLeft left =>
    have hinside : callsIn (left.spelled ++ [.mark '>', .word "0", .mark ')']) = left.calls := by
      rw [callsIn_between h (by decide), hword (by decide), hnil, List.append_nil]
    exact (hcontrol (by decide) _).trans (congrArg (List.filter isRoutineCall) hinside)
  | count var bound =>
    have hinside : callsIn (.word "0" :: .mark ';' :: .word var :: .mark '<' :: (bound.spelled ++
        [.mark ';', .word var, .mark '+', .mark '+', .mark ')'])) = bound.calls := by
      rw [hword (by decide), hword (by decide), callsIn_between h.2 (by decide),
        hword (by decide), callsIn_mark, callsIn_mark, hnil, List.append_nil]
    exact (hfor var _).trans (congrArg (List.filter isRoutineCall) hinside)
  | keys var map =>
    have hsemi : ';' ≠ '(' := by decide
    have hclose : ')' ≠ '(' := by decide
    rw [spelled]
    simp only [List.cons_append, List.append_assoc, hfor, callsIn_between (legible_firstKey h.2) hsemi,
      callsIn_between (legible_hasKey h.1) hsemi, callsIn_between (legible_nextKey h.1 h.2) hclose,
      hword (by decide : '=' ≠ '('), hnil, calls, List.append_nil]

theorem calls_assign {target value : Expr} (ht : target.Legible) (hv : value.Legible) :
    calls (target.text ++ " = " ++ value.text ++ ";") = target.calls ++ value.calls := by
  have hlegible : (Statement.assign target value).Legible := ⟨ht, hv⟩
  have htokens : tokens (target.text ++ " = " ++ value.text ++ ";") =
      target.spelled ++ .mark '=' :: (value.spelled ++ [.mark ';']) := by
    have hcode := Statement.tokens_code hlegible
    simpa [Statement.code, Statement.spelled] using hcode
  rw [calls, htokens, callsIn_between ht (by decide), callsIn_statement hv]

/-- The line of a statement has its calls, if there is no block inside it. -/
theorem Statement.calls_code {s : Statement} (h : s.Legible)
    (hs : ∀ head body, s ≠ .block head body) : Script.calls s.code = s.calls := by
  cases s with
  | declare var value => exact calls_declare h.1 h.2
  | run e => exact calls_run h
  | assign target value => exact calls_assign h.1 h.2
  | «return» value => exact calls_return h
  | blank => exact calls_empty
  | block head body => exact absurd rfl (hs head body)

mutual
theorem filter_calls_within : ∀ s : Statement, s.Legible →
    (s.within.flatMap fun s => (calls s.code).filter isRoutineCall) = s.calls.filter isRoutineCall
  | .declare .., h | .run _, h | .assign .., h | .return _, h | .blank, h => by
    rw [Statement.within, List.flatMap_singleton, Statement.calls_code h]
    all_goals simp
  | .block head body, h => by
    rw [Statement.within, List.flatMap_cons, Statement.code, head.filter_calls_text h.1,
      filter_calls_withinAll body h.2, Statement.calls, List.filter_append]

theorem filter_calls_withinAll : ∀ ss : List Statement, AllLegible ss →
    ((withinAll ss).flatMap fun s => (calls s.code).filter isRoutineCall) =
      (callsInAll ss).filter isRoutineCall
  | [], _ => rfl
  | s :: ss, ⟨hs, hss⟩ => by
    rw [withinAll, List.flatMap_append, filter_calls_within s hs, filter_calls_withinAll ss hss,
      callsInAll, List.filter_append]
end

/-- The printed code has the calls of its statements. -/
theorem callsOfCode_bodyText {ss : List Statement} (h : AllLegible ss) :
    callsOfCode (bodyText ss) = (callsInAll ss).filter isRoutineCall := by
  rw [callsOfCode, linesOfCode_bodyText h, List.flatMap_map, filter_calls_withinAll ss h]

example : callsOfCode "\tif (isOptionalPresent(hp)) \x7b\n\t\tdestroyUnit(hp);\n\t\x7d\n" =
    [⟨"isOptionalPresent", [[.word "hp"]]⟩, ⟨"destroyUnit", [[.word "hp"]]⟩] := by
  cbv

def ownerOf (w : String) : String := String.ofList (w.toList.takeWhile (· ≠ '.'))

/-- The names from outside that a call has: its routine, and some of its arguments. -/
def Call.globals (constants : Call → List (List Token)) (c : Call) : List String :=
  c.routine :: ((constants c).flatMap wordsOf).map ownerOf

/-- The names from outside that code has, if constants are at these places of its calls. -/
def globalsIn (constants : Call → List (List Token)) (code : String) : List String :=
  (callsOfCode code).flatMap (Call.globals constants)

/-- The class that an entity is made of. -/
def classArgs (c : Call) : List (List Token) :=
  if c.routine = "createEntity" then c.args else []

/-- The deserializer and the tag that a field is read by, and the level of a message. -/
def readArgs (c : Call) : List (List Token) :=
  if c.routine ∈ readRoutines then c.args.drop 2
  else if c.routine = "logger" then c.args.drop 1
  else []

/-- The tag that a data structure is released by. -/
def releaseArgs (c : Call) : List (List Token) :=
  if c.routine = "destroyDataStructure" then (c.args.drop 1).take 1 else []

/-- A routine declares a variable with a name that its code has from outside. -/
def Routine.Captures (r : Routine) (constants : Call → List (List Token)) (n : String) : Prop :=
  n ∈ variablesIn r.code ∧ n ∈ globalsIn constants r.code

def globalsOfAll (constants : Call → List (List Token)) (ss : List Statement) : List String :=
  (callsInAll ss).flatMap (Call.globals constants)

section
variable {constants : Call → List (List Token)} {n : String}

theorem mem_globalsIn_bodyText {ss : List Statement} (h : AllLegible ss) (hn : n ∉ controlWords)
    (hnone : ∀ c, isRoutineCall c = false → constants c = []) :
    n ∈ globalsIn constants (bodyText ss) ↔ n ∈ globalsOfAll constants ss := by
  rw [globalsIn, globalsOfAll, callsOfCode_bodyText h, List.mem_flatMap, List.mem_flatMap]
  constructor
  · intro ⟨c, hc, hmem⟩
    exact ⟨c, (List.mem_filter.1 hc).1, hmem⟩
  · intro ⟨c, hc, hmem⟩
    refine ⟨c, List.mem_filter.2 ⟨hc, ?_⟩, hmem⟩
    cases hroutine : isRoutineCall c with
    | true => rfl
    | false =>
      rw [Call.globals, hnone c hroutine] at hmem
      cases List.mem_singleton.1 hmem
      simp [isRoutineCall, hn] at hroutine

theorem globalsOfAll_append (a b : List Statement) :
    globalsOfAll constants (a ++ b) = globalsOfAll constants a ++ globalsOfAll constants b := by
  rw [globalsOfAll, callsInAll_append, List.flatMap_append]
  rfl

theorem globalsOfAll_cons (s : Statement) (ss : List Statement) :
    globalsOfAll constants (s :: ss) =
      s.calls.flatMap (Call.globals constants) ++ globalsOfAll constants ss := by
  rw [globalsOfAll, callsInAll, List.flatMap_append]
  rfl

theorem globalsOfAll_flatMap {α : Type} (xs : List α) (f : α → List Statement) :
    globalsOfAll constants (xs.flatMap f) = xs.flatMap fun x => globalsOfAll constants (f x) := by
  rw [globalsOfAll, callsInAll_flatMap, List.flatMap_assoc]
  rfl

theorem globalsOfAll_map {α : Type} (xs : List α) (f : α → Statement) :
    globalsOfAll constants (xs.map f) =
      xs.flatMap fun x => (f x).calls.flatMap (Call.globals constants) := by
  rw [List.map_eq_flatMap, globalsOfAll_flatMap]
  simp [globalsOfAll, callsInAll]

end

theorem ownerOf_of_isName {w : String} (h : TypeExpr.IsName w) : ownerOf w = w := by
  have hall : ∀ c ∈ w.toList, decide (c ≠ '.') = true := by
    intro c hc
    refine decide_eq_true fun he => ?_
    have hdot := h.nameChar c hc
    rw [he] at hdot
    exact absurd hdot (by decide)
  rw [ownerOf, List.takeWhile_eq_self_iff.2 hall, String.ofList_toList]

def loopRoutines : ContainerKind → List String
  | .scalar => []
  | .array => ["array_length"]
  | .list => ["ds_list_size"]
  | .map => ["ds_map_find_first", "is_undefined", "ds_map_find_next"]
  | .stack => ["ds_stack_size", "ds_stack_pop"]
  | .grid => ["ds_grid_height", "ds_grid_width"]
  | .queue => ["ds_queue_size", "ds_queue_dequeue"]
  | .priorityQueue => ["ds_priority_size", "ds_priority_delete_min"]

def readGlobals (f : PlannedField) : List String :=
  (match f.reference? with
    | some entity => ["getJsonObjectEntityValue", deserializeName entity]
    | none => ["getJsonObjectFieldValue"]) ++ f.container.tag?.toList

def releaseGlobals (f : PlannedField) : List String :=
  (if f.isOptional then ["isOptionalPresent"] else []) ++
  (match f.reference? with
    | some entity => loopRoutines f.container ++ [destroyName entity]
    | none => []) ++
  (if f.container.ownsStructure then "destroyDataStructure" :: f.container.tag?.toList else [])

theorem ownerOf_tagArgs (k : ContainerKind) :
    ((k.tagArgs.map Expr.spelled).flatMap wordsOf).map ownerOf = k.tag?.toList := by
  cases k <;> simp [ContainerKind.tagArgs, ContainerKind.tag?, ContainerKind.isScalar, Expr.spelled,
    wordsOf] <;> decide

theorem globals_readCall {f : PlannedField}
    (h : ∀ entity, f.reference? = some entity → TypeExpr.IsName entity) :
    (readCall f).calls.flatMap (Call.globals readArgs) = readGlobals f := by
  have htags := ownerOf_tagArgs f.container
  rw [readCall, readGlobals]
  cases hr : f.reference? with
  | none =>
    simp [Expr.calls, Expr.callsOfAll, callsOfAll_tagArgs, Call.globals, readArgs, readRoutines, htags]
  | some entity =>
    have hroutine := ownerOf_of_isName (isName_deserializeName (h entity hr))
    simp [Expr.calls, Expr.callsOfAll, callsOfAll_tagArgs, Call.globals, readArgs, readRoutines,
      Expr.spelled, wordsOf, hroutine]
    exact htags

theorem globals_missingWarning (routine : String) (f : PlannedField) :
    (missingWarning routine f).calls.flatMap (Call.globals readArgs) = ["logger", "LogType"] := by
  have hlevel : ownerOf "LogType.WARNING" = "LogType" := by decide
  simp [missingWarning, Statement.calls, Expr.calls, Expr.callsOfAll, Call.globals, readArgs,
    readRoutines, Expr.spelled, wordsOf, hlevel]

theorem globals_isPresent {constants : Call → List (List Token)}
    (hnone : ∀ args, constants ⟨"isOptionalPresent", args⟩ = []) {e : Expr} :
    (isPresent e).calls.flatMap (Call.globals constants) =
      "isOptionalPresent" :: e.calls.flatMap (Call.globals constants) := by
  simp [isPresent, Expr.calls, Expr.callsOfAll, Call.globals, hnone]

/-- The test that something is there adds its routine to the names of a block. -/
theorem globalsOfAll_guardedBy {constants : Call → List (List Token)}
    (hnone : ∀ args, constants ⟨"isOptionalPresent", args⟩ = []) (tested : Bool) (n : String)
    (body : List Statement) :
    globalsOfAll constants (guardedBy tested (isPresent (.name n)) body) =
      (if tested then ["isOptionalPresent"] else []) ++ globalsOfAll constants body := by
  cases tested with
  | false => rfl
  | true =>
    have hblock : globalsOfAll constants (guardedBy true (isPresent (.name n)) body) =
        (isPresent (.name n)).calls.flatMap (Call.globals constants) ++
          globalsOfAll constants body := by
      simp [guardedBy, globalsOfAll, callsInAll, Statement.calls, Head.calls]
    rw [hblock, globals_isPresent hnone]
    simp [Expr.calls]

theorem globals_readField (p : Plan) {f : PlannedField}
    (h : ∀ entity, f.reference? = some entity → TypeExpr.IsName entity) :
    globalsOfAll readArgs (readField p f) =
      readGlobals f ++ ["isOptionalPresent", "logger", "LogType"] := by
  have hpresent (args : List (List Token)) : readArgs ⟨"isOptionalPresent", args⟩ = [] := by
    simp [readArgs, readRoutines]
  have hwarning := globals_missingWarning p.names.deserialize f
  simp only [readField, globalsOfAll_cons, Statement.calls, Head.calls, globals_readCall h,
    Expr.calls, List.flatMap_append, callsInAll, List.append_nil, globals_isPresent hpresent,
    hwarning]
  rfl

theorem globals_destroyElements (f : PlannedField) {entity : String} (h : f.reference? = some entity) :
    globalsOfAll releaseArgs (destroyElements f) =
      loopRoutines f.container ++ [destroyName entity] := by
  simp only [destroyElements, h]
  cases f.container <;>
    simp [ContainerKind.traversal, ContainerKind.Traversal.visit, ContainerKind.Traversal.wrap,
      ContainerKind.Traversal.binding, ContainerKind.elementVar, globalsOfAll, callsInAll,
      Statement.calls, Head.calls, firstKey, hasKey, nextKey, Expr.calls, Expr.callsOfAll,
      Expr.spelled, Call.globals, releaseArgs, loopRoutines]

theorem globals_release (f : PlannedField) (owner : String) :
    globalsOfAll releaseArgs (f.container.release? f.name owner).toList =
      if f.container.ownsStructure then "destroyDataStructure" :: f.container.tag?.toList else [] := by
  cases f.container <;>
    simp [ContainerKind.release?, ContainerKind.ownsStructure, ContainerKind.tag?,
      ContainerKind.isScalar, ContainerKind.name, globalsOfAll, callsInAll, Statement.calls,
      Expr.calls, Expr.callsOfAll, Expr.spelled, Call.globals, releaseArgs, wordsOf] <;> decide

theorem globals_teardownSegment (p : Plan) (f : PlannedField) :
    globalsOfAll releaseArgs (teardownSegment p f) = releaseGlobals f := by
  have hpresent (args : List (List Token)) : releaseArgs ⟨"isOptionalPresent", args⟩ = [] := by
    simp [releaseArgs]
  have hteardown : globalsOfAll releaseArgs (teardown p.names.className f) =
      (match f.reference? with
        | some entity => loopRoutines f.container ++ [destroyName entity]
        | none => []) ++
      (if f.container.ownsStructure then "destroyDataStructure" :: f.container.tag?.toList
        else []) := by
    rw [teardown, globalsOfAll_append, globals_release]
    cases hr : f.reference? with
    | none => simp [destroyElements, hr, globalsOfAll, callsInAll]
    | some entity => rw [globals_destroyElements f hr]
  have hblank : globalsOfAll releaseArgs [.blank] = [] := rfl
  rw [teardownSegment, globalsOfAll_append, hblank, globalsOfAll_guardedBy hpresent, hteardown,
    releaseGlobals, List.append_nil, List.append_assoc]

end Script

namespace Plan

open Script

variable {p : Plan} {f : PlannedField}

theorem setter_ne_createEntity (p : Plan) (name : String) : p.names.setter name ≠ "createEntity" := by
  intro he
  simpa [Names.setter] using congrArg (·.toList.head?) he

theorem setter_ne_destroyDataStructure (p : Plan) (name : String) :
    p.names.setter name ≠ "destroyDataStructure" := by
  intro he
  simpa [Names.setter] using congrArg (·.toList.head?) he

theorem create_ne_logger (p : Plan) : p.names.create ≠ "logger" := by
  intro he
  simpa [Names.create, createName] using congrArg (·.toList.head?) he

theorem globals_setCall_classArgs (p : Plan) (f : PlannedField) :
    (p.setCall f (storedValue f)).calls.flatMap (Call.globals classArgs) =
      p.names.setter f.name :: if f.isOptional then [] else ["assertNoOptional"] := by
  have hset := p.setter_ne_createEntity f.name
  cases ho : f.isOptional <;>
    simp [setCall, storedValue, ho, Statement.calls, Expr.calls, Expr.callsOfAll, Call.globals,
      classArgs, hset]

theorem globals_setCall_releaseArgs (p : Plan) (f : PlannedField) :
    (p.setCall f (.name "undefined")).calls.flatMap (Call.globals releaseArgs) =
      [p.names.setter f.name] := by
  have hset := p.setter_ne_destroyDataStructure f.name
  simp [setCall, Statement.calls, Expr.calls, Expr.callsOfAll, Call.globals, releaseArgs, hset]

theorem globals_getCall (p : Plan) (f : PlannedField) :
    (p.getCall f).calls.flatMap (Call.globals releaseArgs) = [p.names.getter f.name] := by
  simp [getCall, Expr.calls, Expr.callsOfAll, Call.globals, releaseArgs]

theorem globals_blankUnless {constants : Call → List (List Token)} (nothing : Bool) :
    globalsOfAll constants (blankUnless nothing) = [] := by
  cases nothing <;> rfl

theorem Accepted.globals_constructor (h : p.Accepted) :
    globalsOfAll classArgs (constructor p).body =
      ["createEntity", p.names.className] ++ p.fields.flatMap fun f =>
        p.names.setter f.name :: if f.isOptional then [] else ["assertNoOptional"] := by
  have harguments : globalsOfAll classArgs
      (p.fields.map fun f => .declare f.name (argument f.index)) = [] := by
    rw [globalsOfAll_map]
    simp [Statement.calls, calls_argument]
  have hstores : globalsOfAll classArgs (p.fields.map fun f => p.setCall f (storedValue f)) =
      p.fields.flatMap fun f =>
        p.names.setter f.name :: if f.isOptional then [] else ["assertNoOptional"] := by
    rw [globalsOfAll_map]
    exact List.flatMap_congr fun f _ => p.globals_setCall_classArgs f
  have hclass := ownerOf_of_isName h.isName_class
  rw [constructor]
  simp only [globalsOfAll_append, harguments, hstores, globals_blankUnless]
  simp [globalsOfAll, callsInAll, Statement.calls, Expr.calls, Expr.callsOfAll, Call.globals,
    classArgs, Expr.spelled, wordsOf, hclass]

theorem Sound.globals_deserializer (h : p.Sound) :
    globalsOfAll readArgs (deserializer p).body =
      ["decodeJson"] ++ (p.fields.flatMap fun f =>
        readGlobals f ++ ["isOptionalPresent", "logger", "LogType"]) ++ [p.names.create] := by
  have hreads : globalsOfAll readArgs (p.fields.flatMap (readField p)) = p.fields.flatMap fun f =>
      readGlobals f ++ ["isOptionalPresent", "logger", "LogType"] := by
    rw [globalsOfAll_flatMap]
    exact List.flatMap_congr fun f hf =>
      globals_readField p fun entity he => h.isName_reference hf he
  have hcreate := p.create_not_mem_readRoutines
  have hlogger := p.create_ne_logger
  rw [deserializer]
  simp only [globalsOfAll_append, hreads]
  simp [globalsOfAll, callsInAll, Statement.calls, Expr.calls, Expr.callsOfAll, Call.globals,
    Expr.callsOfAll_names, readArgs, hcreate, hlogger, calls_argument]

theorem globals_destructor (p : Plan) :
    globalsOfAll releaseArgs (destructor p).body =
      (p.fields.filter ownsPayload).map (fun f => p.names.getter f.name) ++
      (p.fields.filter ownsPayload).flatMap releaseGlobals ++
      p.fields.map fun f => p.names.setter f.name := by
  have hgets : globalsOfAll releaseArgs ((p.fields.filter ownsPayload).map fun f =>
      .declare f.name (p.getCall f)) =
      (p.fields.filter ownsPayload).map fun f => p.names.getter f.name := by
    rw [globalsOfAll_map, List.map_eq_flatMap]
    exact List.flatMap_congr fun f _ => p.globals_getCall f
  have hreleases : globalsOfAll releaseArgs ((p.fields.filter ownsPayload).flatMap
      (teardownSegment p)) = (p.fields.filter ownsPayload).flatMap releaseGlobals := by
    rw [globalsOfAll_flatMap]
    exact List.flatMap_congr fun f _ => globals_teardownSegment p f
  have hclears : globalsOfAll releaseArgs (p.fields.map fun f => p.setCall f (.name "undefined")) =
      p.fields.map fun f => p.names.setter f.name := by
    rw [globalsOfAll_map, List.map_eq_flatMap]
    exact List.flatMap_congr fun f _ => p.globals_setCall_releaseArgs f
  have htakes : globalsOfAll releaseArgs [.declare p.names.object (argument 0), .blank] = [] := by
    simp [globalsOfAll, callsInAll, Statement.calls, calls_argument]
  rw [destructor]
  simp only [globalsOfAll_append, htakes, hgets, globals_blankUnless, hreleases, hclears,
    List.nil_append, List.append_nil]

theorem Accepted.field_not_mem_controlWords (h : p.Accepted) (hf : f ∈ p.fields) :
    f.name ∉ controlWords := by
  have hreserved : ∀ w ∈ controlWords, w ∈ reservedWords := by decide
  intro hmem
  exact (Validation.isUsable_of_nameIssue? (h.fieldName f hf)).free (.inl (hreserved _ hmem))

theorem routine_ne_of_control {c : Call} {r : String} (hc : isRoutineCall c = false)
    (hr : r ∉ controlWords) : c.routine ≠ r := by
  intro he
  simp [isRoutineCall, he, hr] at hc

theorem Sound.captures_constructor_iff (h : p.Sound) (hf : f ∈ p.fields) :
    (constructor p).Captures classArgs f.name ↔
      f.name ∈ ["createEntity", p.names.className] ∨ ∃ g ∈ p.fields,
        f.name = p.names.setter g.name ∨ g.isOptional = false ∧ f.name = "assertNoOptional" := by
  have hnone (c : Call) (hc : isRoutineCall c = false) : classArgs c = [] := by
    rw [classArgs, if_neg (routine_ne_of_control hc (by decide))]
  have hdeclared : f.name ∈ variablesIn (constructor p).code := by
    rw [h.legible_constructor.variablesIn_code, declaredIn_constructor]
    exact List.mem_append_left _ (List.mem_map_of_mem hf)
  have hglobals := mem_globalsIn_bodyText h.legible_constructor.body
    (h.accepted.field_not_mem_controlWords hf) hnone
  have hassert (g : PlannedField) : f.name ∈ (if g.isOptional then [] else ["assertNoOptional"]) ↔
      g.isOptional = false ∧ f.name = "assertNoOptional" := by
    cases g.isOptional <;> simp
  rw [Routine.Captures, and_iff_right hdeclared, Routine.code, hglobals,
    h.accepted.globals_constructor, List.mem_append, List.mem_flatMap]
  simp only [List.mem_cons, hassert]

theorem Sound.captures_deserializer_iff (h : p.Sound) (hf : f ∈ p.fields) :
    (deserializer p).Captures readArgs f.name ↔
      f.name ∈ ["decodeJson", "isOptionalPresent", "logger", "LogType", p.names.create] ∨
        ∃ g ∈ p.fields, f.name ∈ readGlobals g := by
  have hnone (c : Call) (hc : isRoutineCall c = false) : readArgs c = [] := by
    have hroutines : ∀ r ∈ readRoutines, r ∉ controlWords := by decide
    have hread : c.routine ∉ readRoutines := fun hm =>
      routine_ne_of_control hc (hroutines _ hm) rfl
    rw [readArgs, if_neg hread, if_neg (routine_ne_of_control hc (by decide))]
  have hdeclared : f.name ∈ variablesIn (deserializer p).code := by
    rw [h.legible_deserializer.variablesIn_code, declaredIn_deserializer]
    exact List.mem_append_right _ (List.mem_map_of_mem hf)
  have hglobals := mem_globalsIn_bodyText h.legible_deserializer.body
    (h.accepted.field_not_mem_controlWords hf) hnone
  rw [Routine.Captures, and_iff_right hdeclared, Routine.code, hglobals, h.globals_deserializer]
  simp only [List.mem_append, List.mem_flatMap, List.mem_cons, List.not_mem_nil, or_false]
  constructor
  · intro hmem
    obtain (hdecode | ⟨g, hg, hread | hcheck⟩) | hcreate := hmem
    · exact .inl (.inl hdecode)
    · exact .inr ⟨g, hg, hread⟩
    · exact .inl (.inr (hcheck.imp_right fun hlog => hlog.imp_right .inl))
    · exact .inl (.inr (.inr (.inr (.inr hcreate))))
  · intro hmem
    obtain (hdecode | hpresent | hlogger | hlevel | hcreate) | ⟨g, hg, hread⟩ := hmem
    · exact .inl (.inl hdecode)
    · exact .inl (.inr ⟨f, hf, .inr (.inl hpresent)⟩)
    · exact .inl (.inr ⟨f, hf, .inr (.inr (.inl hlogger))⟩)
    · exact .inl (.inr ⟨f, hf, .inr (.inr (.inr hlevel))⟩)
    · exact .inr hcreate
    · exact .inl (.inr ⟨g, hg, .inl hread⟩)

theorem Sound.declares_in_destructor_iff (h : p.Sound) (hf : f ∈ p.fields) :
    f.name ∈ variablesIn (destructor p).code ↔ ownsPayload f = true := by
  have hname : f.name ∈ p.fields.map (·.name) := List.mem_map_of_mem hf
  have hobject : f.name ≠ p.names.object := h.accepted.field_ne_object hf
  have hloops : f.name ∉ p.loopVariables :=
    h.accepted.not_mem_others (fun v hv => .inr (p.loopVariables_subset hv)) hname
  rw [h.legible_destructor.variablesIn_code, declaredIn_destructor]
  simp only [List.mem_append, List.mem_singleton, hobject, hloops, false_or, or_false]
  constructor
  · intro hmem
    obtain ⟨g, hg, he⟩ := List.mem_map.1 hmem
    obtain ⟨hg, hown⟩ := List.mem_filter.1 hg
    have hsame : g = f := List.inj_on_of_nodup_map h.accepted.distinct hg hf he
    exact hsame ▸ hown
  · intro hown
    exact List.mem_map_of_mem (List.mem_filter.2 ⟨hf, hown⟩)

theorem Sound.captures_destructor_iff (h : p.Sound) (hf : f ∈ p.fields) :
    (destructor p).Captures releaseArgs f.name ↔
      ownsPayload f = true ∧ ∃ g ∈ p.fields, f.name = p.names.setter g.name ∨
        ownsPayload g = true ∧ (f.name = p.names.getter g.name ∨ f.name ∈ releaseGlobals g) := by
  have hnone (c : Call) (hc : isRoutineCall c = false) : releaseArgs c = [] := by
    rw [releaseArgs, if_neg (routine_ne_of_control hc (by decide))]
  have hglobals := mem_globalsIn_bodyText h.legible_destructor.body
    (h.accepted.field_not_mem_controlWords hf) hnone
  rw [Routine.Captures, h.declares_in_destructor_iff hf, Routine.code, hglobals, globals_destructor]
  simp only [List.mem_append, List.mem_flatMap, List.mem_map, List.mem_filter]
  refine and_congr_right fun _ => ⟨fun hmem => ?_, fun hmem => ?_⟩
  · obtain (⟨g, ⟨hg, hown⟩, he⟩ | ⟨g, ⟨hg, hown⟩, hrelease⟩) | ⟨g, hg, he⟩ := hmem
    · exact ⟨g, hg, .inr ⟨hown, .inl he.symm⟩⟩
    · exact ⟨g, hg, .inr ⟨hown, .inr hrelease⟩⟩
    · exact ⟨g, hg, .inl he.symm⟩
  · obtain ⟨g, hg, he | ⟨hown, he | hrelease⟩⟩ := hmem
    · exact .inr ⟨g, hg, he.symm⟩
    · exact .inl (.inl ⟨g, ⟨hg, hown⟩, he.symm⟩)
    · exact .inl (.inr ⟨g, ⟨hg, hown⟩, hrelease⟩)

end Plan

/-- The variable for a field hides a name from outside only if the field itself is called so. The names
are those of routines and constants that its own routines make use of, for this field or another. -/
theorem field_captures_global_iff (m : Model) (filter : NameSet) (policy : UnknownTypes)
    (plans : List Plan) (h : planEntities m filter policy = .ok plans) :
    ∀ p ∈ plans, ∀ f ∈ p.fields,
      ((Script.constructor p).Captures Script.classArgs f.name ↔
        f.name ∈ ["createEntity", p.names.className] ∨ ∃ g ∈ p.fields,
          f.name = p.names.setter g.name ∨ g.isOptional = false ∧ f.name = "assertNoOptional") ∧
      ((Script.deserializer p).Captures Script.readArgs f.name ↔
        f.name ∈ ["decodeJson", "isOptionalPresent", "logger", "LogType", p.names.create] ∨
          ∃ g ∈ p.fields, f.name ∈ Script.readGlobals g) ∧
      ((Script.destructor p).Captures Script.releaseArgs f.name ↔
        Script.ownsPayload f = true ∧ ∃ g ∈ p.fields, f.name = p.names.setter g.name ∨
          Script.ownsPayload g = true ∧
            (f.name = p.names.getter g.name ∨ f.name ∈ Script.releaseGlobals g)) := by
  intro p hp f hf
  have hsound := sound_of_planEntities h p hp
  exact ⟨hsound.captures_constructor_iff hf, hsound.captures_deserializer_iff hf,
    hsound.captures_destructor_iff hf⟩

/-- An entity named `Mob` with a field of this name makes an entity of its argument. -/
theorem class_captured :
    ¬∀ (m : Model) (filter : NameSet) (policy : UnknownTypes) (plans : List Plan),
      planEntities m filter policy = .ok plans → ∀ p ∈ plans, ∀ f ∈ p.fields,
        ¬(Script.constructor p).Captures Script.classArgs f.name ∧
        ¬(Script.deserializer p).Captures Script.readArgs f.name ∧
        ¬(Script.destructor p).Captures Script.releaseArgs f.name := by
  intro h
  have hplans : planEntities (numberModel "Mob" "Mob") ∅ .permissive =
      .ok [numberPlan "Mob" "Mob"] := by
    decide +kernel
  have hsound := sound_of_planEntities hplans (numberPlan "Mob" "Mob") (by simp)
  have hfield : (⟨0, "Mob", "int", ⟨⟨.primitive, .scalar⟩, false, "int", none⟩⟩ : PlannedField) ∈
      (numberPlan "Mob" "Mob").fields := List.mem_singleton_self _
  have hclass : "Mob" ∈ ["createEntity", (numberPlan "Mob" "Mob").names.className] := by
    decide +kernel
  have hcaptures := (hsound.captures_constructor_iff hfield).2 (.inl hclass)
  exact (h _ _ _ _ hplans _ (by simp) _ hfield).1 hcaptures

/-- The variable for `units` in the destructor of `Squad` hides nothing. -/
theorem squad_units_hides_nothing :
    planEntities squadModel ∅ .permissive = .ok [squadPlan] ∧
      ¬(Script.destructor squadPlan).Captures Script.releaseArgs "units" := by
  have hfield : (⟨0, "units", "Optional<List<unit>>", ⟨⟨.entity, .list⟩, true, "unit", none⟩⟩ :
      PlannedField) ∈ squadPlan.fields := by simp [squadPlan]
  have hiff := (field_captures_global_iff _ _ _ _ planEntities_squad squadPlan (by simp) _ hfield).2.2
  refine ⟨planEntities_squad, fun hcaptures => ?_⟩
  have hnone : ∀ g ∈ squadPlan.fields, ¬("units" = squadPlan.names.setter g.name ∨
      Script.ownsPayload g = true ∧
        ("units" = squadPlan.names.getter g.name ∨ "units" ∈ Script.releaseGlobals g)) := by
    decide +kernel
  obtain ⟨_, g, hg, hname⟩ := hiff.1 hcaptures
  exact hnone g hg hname

end EntityScripts
