import EntityScripts.Text.LetterCase

/-!
Names of the scripts of an entity. Every one is a verb with the entity's name behind it, and an
accessor has the field's name behind that, each with its first letter in upper case.
-/
namespace EntityScripts.Script

open Text

def createName (entity : String) : String := "create" ++ upperFirst entity
def serializeName (entity : String) : String := "serialize" ++ upperFirst entity
def deserializeName (entity : String) : String := "deserialize" ++ upperFirst entity
def destroyName (entity : String) : String := "destroy" ++ upperFirst entity

structure Names where
  /-- The class, with its first letter in upper case. -/
  className : String
  /-- The variable that holds the entity, with its first letter in lower case. -/
  object : String
deriving DecidableEq

namespace Names

def ofEntity (entity : String) : Names :=
  ⟨upperFirst entity, lowerFirst entity⟩

def create (n : Names) : String := createName n.className
def serialize (n : Names) : String := serializeName n.className
def deserialize (n : Names) : String := deserializeName n.className
def destroy (n : Names) : String := destroyName n.className
def getter (n : Names) (field : String) : String := "get" ++ n.className ++ upperFirst field
def setter (n : Names) (field : String) : String := "set" ++ n.className ++ upperFirst field

end Names
end EntityScripts.Script
