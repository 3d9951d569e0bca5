import EntityScripts.Classification
import EntityScripts.Validation

/-!
Plans: the selected entities of a model with every field classified. Everything that can be wrong
with a model is found here, before any text is made.
-/
namespace EntityScripts

structure PlannedField where
  /-- The storage slot: the position among the declared fields. -/
  index : Nat
  name : String
  /-- The declared type in its canonical text. -/
  type : String
  classified : Classified
deriving DecidableEq

namespace PlannedField

def container (f : PlannedField) : ContainerKind := f.classified.container
def isEntity (f : PlannedField) : Bool := f.classified.isEntity
def isOptional (f : PlannedField) : Bool := f.classified.optional

def reference? (f : PlannedField) : Option String :=
  if f.isEntity then some f.classified.element else none

end PlannedField

structure Plan where
  name : String
  fields : List PlannedField
deriving DecidableEq

structure PlanError where
  entity : String
  field : String
  type : String
  reason : TypeError
deriving DecidableEq

def PlanError.message (e : PlanError) : String :=
  "entity '" ++ e.entity ++ "' field '" ++ e.field ++ "' has unusable type '" ++ e.type ++ "': " ++
    e.reason.message

def Entity.context (e : Entity) (entities : NameSet) (policy : UnknownTypes) : TypeContext :=
  ⟨e.primitives, e.enums, entities, policy⟩

namespace Plan

def field? (p : Plan) (name : String) : Option PlannedField :=
  p.fields.find? (·.name = name)

def planField (ctx : TypeContext) (index : Nat) (f : Field) : Except TypeError PlannedField :=
  match TypeExpr.parse f.type with
  | .error e => .error (.parse e)
  | .ok e => return ⟨index, f.name, e.text, ← classifyExpr ctx e⟩

def planFields (entity : String) (ctx : TypeContext) (index : Nat) :
    List Field → Except PlanError (List PlannedField)
  | [] => .ok []
  | f :: fs =>
    match planField ctx index f with
    | .error reason => .error ⟨entity, f.name, f.type, reason⟩
    | .ok p => return p :: (← planFields entity ctx (index + 1) fs)

def ofEntity (e : Entity) (ctx : TypeContext) : Except PlanError Plan :=
  return ⟨e.name, ← planFields e.name ctx 0 e.fields⟩

end Plan

inductive PlanningError where
  | entityNotFound (name : String)
  | invalid (error : ValidationError)
  | unusable (error : PlanError)
deriving DecidableEq

def entityNotFoundMessage (name : String) : String :=
  "entity '" ++ name ++ "' wasn't found in the model"

def PlanningError.message : PlanningError → String
  | entityNotFound name => entityNotFoundMessage name
  | invalid error => error.message
  | unusable error => error.message

def planEach (entities : NameSet) (policy : UnknownTypes) :
    List Entity → Except PlanError (List Plan)
  | [] => .ok []
  | e :: es => do
    let p ← Plan.ofEntity e (e.context entities policy)
    return p :: (← planEach entities policy es)

/-- Plans the entities that the filter names. A missing entity comes first, then a repeated entity
name anywhere in the model, then the issues of the selected entities, then their types. -/
def planEntities (m : Model) (filter : NameSet) (policy : UnknownTypes) :
    Except PlanningError (List Plan) := do
  let selected ← (m.select filter).mapError .entityNotFound
  (Validation.validateUnique m).mapError .invalid
  (Validation.validateEach selected).mapError .invalid
  (planEach m.names policy selected).mapError .unusable

end EntityScripts
