import EntityScripts.Script.Routine

/-!
The constructor: it takes one argument for each field, in declaration order, and stores every one
through its setter. A required argument is asserted to be there.
-/
namespace EntityScripts.Script

open Plan

def storedValue (f : PlannedField) : Expr :=
  if f.isOptional then .name f.name else .call "assertNoOptional" [.name f.name]

def constructor (p : Plan) : Routine where
  header :=
    { name := p.names.create
      description := "Constructor for " ++ p.names.className ++ " entity."
      params := p.fields.map fun f => ⟨f.name, f.type⟩
      result := some p.objectParam }
  body :=
    p.fields.map (fun f => .declare f.name (argument f.index)) ++
    [.blank, .declare p.names.object (.call "createEntity" [.name p.names.className]), .blank] ++
    p.fields.map (fun f => p.setCall f (storedValue f)) ++
    blankUnless p.fields.isEmpty ++
    [.return (.name p.names.object)]

end EntityScripts.Script
