import EntityScripts.Json.Record
import EntityScripts.TypeExpr.Container

/-!
The sixteen categories of fields: a family, plain values or references to entities, and a shape.
-/
namespace EntityScripts

inductive ValueKind where
  | primitive
  | entity
deriving DecidableEq, Repr

def ValueKind.all : List ValueKind := [primitive, entity]

def ValueKind.name : ValueKind → String
  | primitive => "Primitive"
  | entity => "Entity"

structure Category where
  value : ValueKind
  container : ContainerKind
deriving DecidableEq, Repr

namespace Category

def isEntity (c : Category) : Bool := c.value = .entity

def text (c : Category) : String := c.value.name ++ "-" ++ c.container.name

def all : List Category :=
  ValueKind.all.flatMap fun v => ContainerKind.all.map (⟨v, ·⟩)

def rank (c : Category) : Nat := all.idxOf c

open Json

def toJson (c : Category) : Json :=
  .object [("value", .text c.value.name), ("container", .text c.container.name)]

def decodeValueKind : Decoder ValueKind :=
  decodeChoice (ValueKind.all.map fun v => (v.name, v))

def decodeContainer : Decoder ContainerKind :=
  decodeChoice (ContainerKind.all.map fun k => (k.name, k))

def record : Record Category :=
  Category.mk <$> .required "value" decodeValueKind <*> .required "container" decodeContainer

def decode : Decoder Category := record.decode "FieldCategory"

theorem mem_all (c : Category) : c ∈ all := by
  obtain ⟨v, k⟩ := c
  cases v <;> cases k <;> decide

end Category
end EntityScripts
