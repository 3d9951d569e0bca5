import EntityScripts.Config.Basic
import EntityScripts.Dialogue.Build
import EntityScripts.Project.Run

/-!
Commands and the arguments that ask for them. Arguments that are not understood make no command.
-/
namespace EntityScripts

structure EntitiesArgs where
  config : Option Path
  model : Option Path
  project : Option Path
  entities : List String
  policy : Option UnknownTypes
  labels : Option Path
deriving DecidableEq

structure DialogueArgs where
  name : String
  input : Path
  language : String
  output : Option Path
deriving DecidableEq

inductive Command where
  | entities (args : EntitiesArgs)
  | dialogue (args : DialogueArgs)
deriving DecidableEq

inductive ResolveError where
  | noModel
  | noProject
deriving DecidableEq

def ResolveError.message : ResolveError → String
  | noModel => "no model given (use --model or `model` in the config)"
  | noProject => "no project given (use --project or `project` in the config)"

/-- The request that flags make, with the configuration where they say nothing, and the file for the
labels. -/
def EntitiesArgs.resolve (a : EntitiesArgs) (c : Config) :
    Except ResolveError (Request × Option Path) :=
  match a.model.or c.model with
  | none => .error .noModel
  | some model =>
    match a.project.or c.project with
    | none => .error .noProject
    | some root =>
      let names := if a.entities.isEmpty then c.entities else a.entities
      let policy := (a.policy.or c.policy).getD .permissive
      .ok (⟨NameSet.ofList names, model, root, policy⟩, a.labels.or c.labels)

namespace Command

abbrev Flag := String × String

def splitEquals : List Char → List Char × Option (List Char)
  | [] => ([], none)
  | c :: cs =>
    if c = '=' then ([], some cs)
    else
      let (name, value) := splitEquals cs
      (c :: name, value)

def isValue (arg : String) : Bool :=
  arg = "-" || arg.toList.head? ≠ some '-'

/-- The flags that the arguments give. A lone `--` ends them. -/
def flags (known : List String) : List String → Option (List Flag)
  | [] => some []
  | ["--"] => some []
  | arg :: rest =>
    match arg.toList with
    | '-' :: '-' :: cs =>
      let (name, value) := splitEquals cs
      let name := String.ofList name
      if name ∉ known then none
      else match value, rest with
        | some v, rest => (flags known rest).map ((name, String.ofList v) :: ·)
        | none, v :: rest => if isValue v then (flags known rest).map ((name, v) :: ·) else none
        | none, [] => none
    | _ => none

def values (fs : List Flag) (name : String) : List String :=
  fs.filterMap fun f => if f.1 = name then some f.2 else none

/-- The value of a flag that may be given once; the outer none stands for more. -/
def single (fs : List Flag) (name : String) : Option (Option String) :=
  match values fs name with
  | [] => some none
  | [v] => some (some v)
  | _ => none

def toPath (v : Option String) : Option (Option Path) :=
  match v with
  | none => some none
  | some "" => none
  | some s => some (some ⟨s⟩)

def toPolicy (v : Option String) : Option (Option UnknownTypes) :=
  match v with
  | none => some none
  | some s => (UnknownTypes.all.find? (·.name = s)).map some

def entitiesOf (env : NameMap String) (args : List String) : Option EntitiesArgs := do
  let fs ← flags ["config", "model", "project", "entity", "unknown-types", "labels"] args
  let config ← toPath (← single fs "config")
  let model ← toPath ((← single fs "model").or (env.get? "GMLGEN_MODEL"))
  let project ← toPath ((← single fs "project").or (env.get? "GMLGEN_PROJECT"))
  let policy ← toPolicy (← single fs "unknown-types")
  let labels ← toPath (← single fs "labels")
  some ⟨config, model, project, values fs "entity", policy, labels⟩

def dialogueOf (args : List String) : Option DialogueArgs := do
  let fs ← flags ["name", "input", "lang", "output"] args
  let name ← (← single fs "name")
  let input ← (← toPath (← single fs "input"))
  let language := (← single fs "lang").getD Dialogue.defaultLanguage
  let output ← toPath (← single fs "output")
  some ⟨name, input, language, output⟩

def ofArgs (env : NameMap String) : List String → Option Command
  | "entities" :: args => (entitiesOf env args).map entities
  | "dialogue" :: args => (dialogueOf args).map dialogue
  | _ => none

end Command
end EntityScripts
