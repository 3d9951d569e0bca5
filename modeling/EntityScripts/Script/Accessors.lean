import EntityScripts.Script.Routine

/-!
Accessors: a getter and a setter for each field, which read and write the field's slot.
-/
namespace EntityScripts.Script

open Plan

def slot (f : PlannedField) : Expr :=
  .element "argument0" "@" [Nat.repr f.index]

def getter (p : Plan) (f : PlannedField) : Routine where
  header :=
    { name := p.names.getter f.name
      description := "Getter."
      params := [p.objectParam]
      result := some ⟨f.name, f.type⟩ }
  body := [.return (slot f)]

def setter (p : Plan) (f : PlannedField) : Routine where
  header :=
    { name := p.names.setter f.name
      description := "Setter."
      params := [p.objectParam, ⟨f.name, f.type⟩]
      result := none }
  body := [.assign (slot f) (argument 1)]

end EntityScripts.Script
