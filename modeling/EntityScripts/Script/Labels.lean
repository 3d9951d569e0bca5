import EntityScripts.Json.Printer
import EntityScripts.Plan
import EntityScripts.Text.LetterCase

/-!
Label maps: for every field of an entity, a key made of the entity's name and the field's, and the
field's name as its label.
-/
namespace EntityScripts

structure LabelMap where
  /-- Keys and labels in declaration order, repeated keys included. -/
  entries : List (String × String)
deriving DecidableEq

namespace LabelMap

def ofPlan (p : Plan) : LabelMap :=
  ⟨p.fields.map fun f => (Text.lowerFirst p.name ++ "." ++ f.name, f.name)⟩

def merged (maps : List LabelMap) : LabelMap :=
  ⟨maps.flatMap (·.entries)⟩

/-- The label of a key; the first entry counts. -/
def get? (m : LabelMap) (key : String) : Option String :=
  m.entries.lookup key

def toJson (m : LabelMap) : Json :=
  .object (m.entries.map fun e => (e.1, .text e.2))

def text (m : LabelMap) : String :=
  m.toJson.indented "\t"

end LabelMap
end EntityScripts
