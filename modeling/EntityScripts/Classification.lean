import EntityScripts.Category
import EntityScripts.NameSet
import EntityScripts.TypeExpr.Parser

/-!
Classifying a field's type. `Optional` may only stand around the whole type, and the elements of a
container are plain names; the family is decided by the element, for a map by its values.
-/
namespace EntityScripts

/-- What to do with an element type that is neither a primitive nor an enum: take any name for an
entity, or only those of the model. -/
inductive UnknownTypes where
  | permissive
  | reject
deriving DecidableEq, Repr

namespace UnknownTypes

def all : List UnknownTypes := [permissive, reject]

def name : UnknownTypes → String
  | permissive => "permissive"
  | reject => "reject"

def decode : Json.Decoder UnknownTypes :=
  Json.decodeChoice (all.map fun p => (p.name, p))

end UnknownTypes

structure TypeContext where
  primitives : NameSet
  enums : NameSet
  entities : NameSet
  policy : UnknownTypes

structure Classified where
  category : Category
  optional : Bool
  /-- The contained type; for a map the type of its values. -/
  element : String
  key : Option String
deriving DecidableEq

def Classified.container (c : Classified) : ContainerKind := c.category.container
def Classified.isEntity (c : Classified) : Bool := c.category.isEntity

inductive TypeError where
  | misplacedOptional (expr : String)
  | nestedContainer (expr : String)
  | parse (error : TypeExpr.ParseError)
  | unknownType (name : String)
deriving DecidableEq

def TypeError.message : TypeError → String
  | misplacedOptional expr =>
    "'Optional' may only wrap the whole field type, found '" ++ expr ++ "'"
  | nestedContainer expr =>
    "containers nested inside containers are not supported, found '" ++ expr ++ "'"
  | parse error => error.message
  | unknownType name =>
    "unknown type '" ++ name ++ "' is neither a primitive, an enum nor a model entity"

namespace TypeContext

def valueKind (ctx : TypeContext) (name : String) : Except TypeError ValueKind :=
  if name ∈ ctx.primitives ∨ name ∈ ctx.enums then .ok .primitive
  else match ctx.policy with
    | .permissive => .ok .entity
    | .reject => if name ∈ ctx.entities then .ok .entity else .error (.unknownType name)

end TypeContext

def elementName (whole : TypeExpr) : TypeExpr → Except TypeError String
  | .named n => .ok n
  | .optional _ => .error (.misplacedOptional whole.text)
  | .array _ | .container .. => .error (.nestedContainer whole.text)

def TypeExpr.unwrap : TypeExpr → Bool × TypeExpr
  | .optional e => (true, e)
  | e => (false, e)

structure Shape where
  container : ContainerKind
  key : Option String
  element : String

/-- The shape of `e`, which is `whole` without its outermost `Optional`. -/
def shapeOf (whole : TypeExpr) : TypeExpr → Except TypeError Shape
  | .named n => .ok ⟨.scalar, none, n⟩
  | .array e => return ⟨.array, none, ← elementName whole e⟩
  | .optional _ => .error (.misplacedOptional whole.text)
  | .container .map [k, v] => do
    let key ← elementName whole k
    return ⟨.map, some key, ← elementName whole v⟩
  | .container .map args => .error (.parse (.arity ContainerKind.map.name 2 args.length))
  | .container kind [e] => return ⟨kind, none, ← elementName whole e⟩
  | .container kind args => .error (.parse (.arity kind.name kind.arity args.length))

def classifyExpr (ctx : TypeContext) (e : TypeExpr) : Except TypeError Classified := do
  let (optional, inner) := e.unwrap
  let shape ← shapeOf e inner
  if let some key := shape.key then
    let _ ← ctx.valueKind key
  let value ← ctx.valueKind shape.element
  pure ⟨⟨value, shape.container⟩, optional, shape.element, shape.key⟩

def classify (ctx : TypeContext) (s : String) : Except TypeError Classified :=
  match TypeExpr.parse s with
  | .error e => .error (.parse e)
  | .ok e => classifyExpr ctx e

end EntityScripts
