import EntityScripts.Script.Routine

/-!
The deserializer: it reads every field of a JSON object by its name and hands all of them to the
constructor. A field that is absent is only logged; the constructor decides what is required.
-/
namespace EntityScripts.Script

open Plan

def readCall (f : PlannedField) : Expr :=
  match f.reference? with
  | some entity =>
    .call "getJsonObjectEntityValue" ([.name "jsonObject", .literal f.name,
      .name (deserializeName entity)] ++ f.container.tagArgs)
  | none =>
    .call "getJsonObjectFieldValue" ([.name "jsonObject", .literal f.name] ++ f.container.tagArgs)

def missingWarning (routine : String) (f : PlannedField) : Statement :=
  let what := if f.isOptional then "Optional field" else "Required field"
  .run (.call "logger" [.literal ("[" ++ routine ++ "] " ++ what ++ " \\\"" ++ f.name ++
    "\\\" is missing"), .name "LogType.WARNING"])

def readField (p : Plan) (f : PlannedField) : List Statement :=
  [.declare f.name (readCall f),
    .block (.when (.negation (isPresent (.name f.name)))) [missingWarning p.names.deserialize f],
    .blank]

def deserializer (p : Plan) : Routine where
  header :=
    { name := p.names.deserialize
      description := "Deserialize " ++ p.names.className ++ " from JSON String to " ++
        p.names.className ++ " entity."
      params := [⟨"jsonString", "String"⟩]
      result := some p.objectParam }
  body :=
    [.declare "jsonString" (argument 0), .blank,
      .declare "jsonObject" (.call "decodeJson" [.name "jsonString"]), .blank] ++
    p.fields.flatMap (readField p) ++
    [.return (.call p.names.create (p.fields.map fun f => .name f.name))]

end EntityScripts.Script
