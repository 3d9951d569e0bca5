import EntityScripts.Json.Record

/-!
Entities and models. An entity is a named record type; the order of its fields is the storage layout
of the scripts made for it. A model is the list of its entities in document order.
-/
namespace EntityScripts

structure Field where
  name : String
  type : String
deriving DecidableEq

structure Entity where
  name : String
  fields : List Field
  primitives : NameSet
  enums : NameSet
deriving DecidableEq

namespace Entity

def empty (name : String) : Entity := ⟨name, [], ∅, ∅⟩

def addField (e : Entity) (f : Field) : Entity :=
  { e with fields := e.fields ++ [f] }

def isValueType (e : Entity) (name : String) : Bool :=
  name ∈ e.primitives ∨ name ∈ e.enums

def field? (e : Entity) (name : String) : Option Field :=
  e.fields.find? (·.name = name)

def position? (e : Entity) (name : String) : Option Nat :=
  e.fields.findIdx? (·.name = name)

open Json

def fieldsToJson (fs : List Field) : Json :=
  .object (fs.map fun f => (f.name, .text f.type))

def toJson (e : Entity) : Json :=
  .object [("name", .text e.name), ("schema", fieldsToJson e.fields),
    ("primitives", .ofTexts e.primitives.toList), ("enums", .ofTexts e.enums.toList)]

/-- Fields in the order of the object, repeated names included. -/
def decodeFields : Decoder (List Field) := fun src d => do
  let es ← Json.decodeMembers .fieldList decodeText src d
  pure (es.map fun e => ⟨e.1, e.2⟩)

def record : Record Entity :=
  Entity.mk <$> .required "name" decodeText <*> .required "schema" decodeFields <*>
    .defaulted "primitives" decodeNameSet ∅ <*> .defaulted "enums" decodeNameSet ∅

def decode : Decoder Entity := record.decode "EntitySchema"

end Entity

structure Model where
  entities : List Entity
deriving DecidableEq

namespace Model

def entity? (m : Model) (name : String) : Option Entity :=
  m.entities.find? (·.name = name)

def names (m : Model) : NameSet :=
  .ofList (m.entities.map (·.name))

/-- The first name of the filter, in ascending order, that no entity has. -/
def missing? (m : Model) (filter : NameSet) : Option String :=
  filter.toList.find? fun name => (m.entity? name).isNone

/-- The entities that the filter names, in model order; an empty filter names all. -/
def selected (m : Model) (filter : NameSet) : List Entity :=
  if filter.isEmpty then m.entities else m.entities.filter fun e => e.name ∈ filter

def select (m : Model) (filter : NameSet) : Except String (List Entity) :=
  match m.missing? filter with
  | some name => .error name
  | none => .ok (m.selected filter)

open Json

def toJson (m : Model) : Json :=
  .list (m.entities.map Entity.toJson)

def decode : Decoder Model := fun src d =>
  Model.mk <$> decodeList Entity.decode src d

def ofString (s : String) : Except Fault Model :=
  decodeString decode s

end Model
end EntityScripts
