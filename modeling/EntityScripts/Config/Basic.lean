import EntityScripts.Classification
import EntityScripts.Config.Document
import EntityScripts.Project.FileTree

/-!
Configurations: what the flags of a run would say, read from a file. Relative paths in it are seen
from the directory that holds it.
-/
namespace EntityScripts

structure Config where
  model : Option Path
  project : Option Path
  entities : List String
  policy : Option UnknownTypes
  labels : Option Path
deriving DecidableEq

inductive ConfigError where
  | malformed (path : Path)
  | unreadable (path : Path) (cause : AccessError)
deriving DecidableEq

def ConfigError.message : ConfigError → String
  | malformed path => "failed to parse '" ++ path.text ++ "'"
  | unreadable path _ => "failed to read '" ++ path.text ++ "'"

namespace Config

def empty : Config := ⟨none, none, [], none, none⟩

def defaultFile : Path := ⟨"gmlgen.toml"⟩

def Value.text? : Value → Option String
  | .text s => some s
  | _ => none

def Value.isEmpty : Value → Bool
  | .list [] | .table _ [] => true
  | _ => false

/-- A policy is its name, or a table with that one key. -/
def Value.policy? : Value → Option UnknownTypes
  | .text s => (UnknownTypes.all.find? (·.name = s))
  | .table _ [(k, v)] => if v.isEmpty then UnknownTypes.all.find? (·.name = k) else none
  | _ => none

def addEntry (base : Path) (c : Config) (key : String) (v : Value) : Option Config :=
  let path := v.text?.map fun s => base.join ⟨s⟩
  match key, v with
  | "model", _ => path.map fun p => { c with model := some p }
  | "project", _ => path.map fun p => { c with project := some p }
  | "labels", _ => path.map fun p => { c with labels := some p }
  | "entities", .list items =>
    (items.mapM Value.text?).map fun names => { c with entities := names }
  | "unknown_types", v => v.policy?.map fun p => { c with policy := some p }
  | _, _ => none

/-- The configuration that a document describes, with paths seen from `base`. -/
def ofString? (base : Path) (s : String) : Option Config := do
  let es ← readDocument s
  es.foldlM (fun c e => addEntry base c e.1 e.2) empty

def load (t : FileTree) (path : Path) : Except ConfigError Config := do
  let s ← (t.readText path).mapError (.unreadable path)
  match ofString? path.parent s with
  | some c => .ok c
  | none => .error (.malformed path)

/-- The named configuration, else the default file if there is one, else nothing. -/
def discover (t : FileTree) (path : Option Path) : Except ConfigError Config :=
  match path with
  | some path => load t path
  | none => if t.isFile defaultFile then load t defaultFile else .ok empty

end Config
end EntityScripts
