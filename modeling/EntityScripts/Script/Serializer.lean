import EntityScripts.Script.Routine

/-!
The serializer: it appends every field to a JSON object under its name. An optional field is
appended only if it is present, and a reference goes through the serializer of the entity it
refers to.
-/
namespace EntityScripts.Script

open Plan

def appendCall (f : PlannedField) (value : Expr) : Statement :=
  match f.reference? with
  | some entity =>
    .run (.call "appendEntityToJsonObject" ([.name "jsonObject", .literal f.name, value,
      .name (serializeName entity)] ++ f.container.tagArgs))
  | none =>
    .run (.call "appendFieldToJsonObject" ([.name "jsonObject", .literal f.name, value] ++
      f.container.tagArgs))

def jsonResult (p : Plan) : String := p.names.object ++ "JsonString"

def appendField (p : Plan) (f : PlannedField) : List Statement :=
  guardedBy f.isOptional (isPresent (p.getCall f)) [appendCall f (p.getCall f)]

def serializer (p : Plan) : Routine where
  header :=
    { name := p.names.serialize
      description := "Serialize " ++ p.names.className ++ " to JSON string."
      params := [p.objectParam]
      result := some ⟨jsonResult p, "String"⟩ }
  body :=
    [.declare p.names.object (argument 0), .blank,
      .declare "jsonObject" (.call "createJsonObject" []), .blank] ++
    p.fields.flatMap (appendField p) ++
    [.blank, .declare (jsonResult p) (.call "encodeJson" [.name "jsonObject"]), .blank,
      .return (.name (jsonResult p))]

end EntityScripts.Script
