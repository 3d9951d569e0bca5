import EntityScripts.Script.Routine

/-!
The destructor: it reads every field that holds something to release, releases it, and then clears
every field. References are destroyed by the destructor of the entity they refer to, element by
element, before the data structure around them is released.
-/
namespace EntityScripts.Script

open Plan

def ownsPayload (f : PlannedField) : Bool :=
  f.isEntity || f.container.ownsStructure

def destroyElements (f : PlannedField) : List Statement :=
  match f.reference? with
  | some entity =>
    (f.container.traversal f.name).visit fun element =>
      [.run (.call (destroyName entity) [.name element])]
  | none => []

def teardown (owner : String) (f : PlannedField) : List Statement :=
  destroyElements f ++ (f.container.release? f.name owner).toList

def teardownSegment (p : Plan) (f : PlannedField) : List Statement :=
  guardedBy f.isOptional (isPresent (.name f.name)) (teardown p.names.className f) ++ [.blank]

def destructor (p : Plan) : Routine where
  header :=
    { name := p.names.destroy
      description := "Destroy " ++ p.names.className ++ " entity."
      params := [p.objectParam]
      result := none }
  body :=
    let owning := p.fields.filter ownsPayload
    [.declare p.names.object (argument 0), .blank] ++
    owning.map (fun f => .declare f.name (p.getCall f)) ++
    blankUnless owning.isEmpty ++
    owning.flatMap (teardownSegment p) ++
    p.fields.map (fun f => p.setCall f (.name "undefined"))

end EntityScripts.Script
