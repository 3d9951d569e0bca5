import EntityScripts.Entity
import EntityScripts.Text.Blank
import EntityScripts.Text.Search

/-!
Validation of entities before any of their types is looked at. Names are identifiers of the target
language that it does not reserve, no field takes the name of a local variable of the scripts, every
type has some text, and no two fields share a name. All issues of an entity are reported, field by
field.
-/
namespace EntityScripts

def reservedWords : List String := [
  "all", "and", "argument", "argument_count", "begin", "break", "case", "catch", "constructor",
  "continue", "default", "delete", "div", "do", "else", "end", "enum", "exit", "false",
  "finally", "for", "function", "global", "if", "mod", "new", "noone", "not", "or", "other",
  "repeat", "return", "self", "static", "switch", "then", "throw", "true", "try", "undefined",
  "until", "var", "while", "with", "xor"]

def scriptLocals : List String :=
  ["entity", "index", "jsonObject", "jsonString", "key", "xIndex", "yIndex"]

/-- The most bytes that a name may have. -/
def maxNameLength : Nat := 64

inductive NameKind where
  | entity
  | field
deriving DecidableEq

def NameKind.describe : NameKind → String
  | entity => "entity name"
  | field => "field name"

inductive Issue where
  | emptyName (kind : NameKind)
  | longName (kind : NameKind) (name : String)
  | notIdentifier (kind : NameKind) (name : String)
  | reservedName (kind : NameKind) (name : String)
  | localName (field : String)
  | blankType (field : String)
  | duplicateField (field : String)
  | duplicateEntity (name : String)
deriving DecidableEq

def Issue.message : Issue → String
  | emptyName kind => kind.describe ++ " is empty"
  | longName kind name =>
    kind.describe ++ " '" ++ name ++ "' exceeds max length " ++ Nat.repr maxNameLength
  | notIdentifier kind name => kind.describe ++ " '" ++ name ++ "' is not a valid identifier"
  | reservedName kind name => kind.describe ++ " '" ++ name ++ "' is a reserved word"
  | localName field => "field name '" ++ field ++ "' collides with a generated local variable"
  | blankType field => "field '" ++ field ++ "' has an empty type"
  | duplicateField field => "duplicate field name '" ++ field ++ "'"
  | duplicateEntity name => "duplicate entity name '" ++ name ++ "'"

structure ValidationError where
  entity : String
  issues : List Issue
deriving DecidableEq

def ValidationError.message (e : ValidationError) : String :=
  "entity '" ++ e.entity ++ "' failed validation: " ++
    Text.joinWith "; " (e.issues.map Issue.message)

namespace Validation

def isIdentStart (c : Char) : Bool := c.isAlpha || c = '_'
def isIdentRest (c : Char) : Bool := c.isAlphanum || c = '_'

def isIdentifier : List Char → Bool
  | [] => false
  | c :: cs => isIdentStart c && cs.all isIdentRest

/-- Whether a text is `argument` with a number behind it, the name of an argument slot. -/
def isArgumentSlot (cs : List Char) : Bool :=
  match Text.dropFront? "argument".toList cs with
  | some (d :: ds) => (d :: ds).all Char.isDigit
  | _ => false

def nameIssue? (kind : NameKind) (name : String) : Option Issue :=
  if name = "" then some (.emptyName kind)
  else if maxNameLength < name.utf8ByteSize then some (.longName kind name)
  else if !isIdentifier name.toList then some (.notIdentifier kind name)
  else if name ∈ reservedWords ∨ isArgumentSlot name.toList then some (.reservedName kind name)
  else none

/-- The entity name with an ASCII capital at its front made small, the object variable of the
scripts. -/
def objectLocal (entity : String) : String :=
  match entity.toList with
  | [] => ""
  | c :: cs => String.ofList (c.toLower :: cs)

def isLocalName (entity field : String) : Bool :=
  field ∈ scriptLocals ∨ field = objectLocal entity ∨ field = objectLocal entity ++ "JsonString"

def fieldIssues (entity : String) (earlier : List String) (f : Field) : List Issue :=
  ((nameIssue? .field f.name).or
    (if isLocalName entity f.name then some (.localName f.name) else none)).toList ++
  (if f.type.toList.all Text.isBlank then [.blankType f.name] else []) ++
  (if f.name ≠ "" ∧ f.name ∈ earlier then [.duplicateField f.name] else [])

def fieldListIssues (entity : String) (earlier : List String) : List Field → List Issue
  | [] => []
  | f :: fs => fieldIssues entity earlier f ++ fieldListIssues entity (f.name :: earlier) fs

def entityIssues (e : Entity) : List Issue :=
  (nameIssue? .entity e.name).toList ++ fieldListIssues e.name [] e.fields

def validateEntity (e : Entity) : Except ValidationError Unit :=
  match entityIssues e with
  | [] => .ok ()
  | issues => .error ⟨e.name, issues⟩

def repeated? (earlier : List String) : List String → Option String
  | [] => none
  | n :: ns => if n ∈ earlier then some n else repeated? (n :: earlier) ns

def validateUnique (m : Model) : Except ValidationError Unit :=
  match repeated? [] (m.entities.map (·.name)) with
  | none => .ok ()
  | some n => .error ⟨n, [.duplicateEntity n]⟩

def validateEach : List Entity → Except ValidationError Unit
  | [] => .ok ()
  | e :: es => do validateEntity e; validateEach es

/-- The whole model; the first entity with an issue decides. -/
def validateModel (m : Model) : Except ValidationError Unit := do
  validateUnique m
  validateEach m.entities

end Validation
end EntityScripts
