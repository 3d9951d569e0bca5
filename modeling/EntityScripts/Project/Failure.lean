import EntityScripts.Json.Record
import EntityScripts.Plan
import EntityScripts.Project.Writer

/-!
Failures as a caller sees them: a kind and a message.
-/
namespace EntityScripts

/-- The kinds of failures. Those of models, selections, names and types stop a run before anything
is written; those of writing concern one entity. -/
inductive FailureKind where
  | classification
  | duplicateDestination
  | entityNotFound
  | io
  | modelNotFound
  | modelParse
  | scaffoldingMissing
  | schemaValidation
deriving DecidableEq

namespace FailureKind

def all : List FailureKind :=
  [classification, duplicateDestination, entityNotFound, io, modelNotFound, modelParse,
    scaffoldingMissing, schemaValidation]

def name : FailureKind → String
  | classification => "Classification"
  | duplicateDestination => "DuplicateDestination"
  | entityNotFound => "EntityNotFound"
  | io => "Io"
  | modelNotFound => "ModelNotFound"
  | modelParse => "ModelParse"
  | scaffoldingMissing => "ScaffoldingMissing"
  | schemaValidation => "SchemaValidation"

def isEntityLevel : FailureKind → Bool
  | duplicateDestination | scaffoldingMissing => true
  | _ => false

def decode : Json.Decoder FailureKind :=
  Json.decodeChoice (all.map fun k => (k.name, k))

end FailureKind

structure Failure where
  kind : FailureKind
  message : String
deriving DecidableEq

namespace Failure

def toJson (f : Failure) : Json :=
  .object [("kind", .text f.kind.name), ("message", .text f.message)]

def record : Json.Record Failure :=
  Failure.mk <$> .required "kind" FailureKind.decode <*> .required "message" Json.decodeText

def decode : Json.Decoder Failure := record.decode "Error"

end Failure

inductive LoadError where
  | notFound (path : Path)
  | malformed (path : Path) (fault : Json.Fault)
  | unreadable (path : Path)

/-- For a malformed file the text ends in front of the line and column of the fault. -/
def LoadError.message : LoadError → String
  | notFound path => "model file '" ++ path.text ++ "' wasn't found"
  | malformed path fault =>
    "model file '" ++ path.text ++ "' is not a valid entity model: " ++ fault.message
  | unreadable path => "failed to read model file '" ++ path.text ++ "'"

def LoadError.failure (e : LoadError) : Failure :=
  ⟨match e with
    | notFound _ => .modelNotFound
    | malformed .. => .modelParse
    | unreadable _ => .io, e.message⟩

def PlanningError.failure (e : PlanningError) : Failure :=
  ⟨match e with
    | entityNotFound _ => .entityNotFound
    | invalid _ => .schemaValidation
    | unusable _ => .classification, e.message⟩

def WriteError.failure (e : WriteError) : Failure :=
  ⟨match e with
    | duplicateDestination _ => .duplicateDestination
    | inaccessible .. => .io
    | scaffoldingMissing .. => .scaffoldingMissing, e.message⟩

end EntityScripts
