import EntityScripts.NameSet
import EntityScripts.Project.FileTree
import EntityScripts.Project.Log
import EntityScripts.Script.Snippet

/-!
Writing generated blocks into the scripts of a project. A script is a directory with a logic unit
and a metadata unit, all of which exist before; only logic units are replaced, each at most once
by one writer, and never one that carries the override mark.
-/
namespace EntityScripts

open Script

/-- The mark of a logic unit that is not to be replaced. -/
def overrideMark : String := "///@override"

structure Asset where
  name : String
  directory : Path
  logic : Path
  metadata : Path
deriving DecidableEq

def Asset.ofName (scripts : Path) (name : String) : Asset :=
  let directory := scripts.join ⟨name⟩
  ⟨name, directory, directory.join ⟨name ++ ".gml"⟩, directory.join ⟨name ++ ".yy"⟩⟩

def Asset.missing? (a : Asset) (t : FileTree) : Option Path :=
  [a.directory, a.logic, a.metadata].find? fun p => !t.exists? p

inductive WriteError where
  | duplicateDestination (script : String)
  | inaccessible (path : Path) (cause : AccessError)
  | scaffoldingMissing (script : String) (path : Path)
deriving DecidableEq

def WriteError.message : WriteError → String
  | duplicateDestination script =>
    "script '" ++ script ++ "' is targeted by more than one generated block"
  | inaccessible path _ => "failed to access '" ++ path.text ++ "'"
  | scaffoldingMissing script path =>
    "script asset '" ++ script ++ "' is missing '" ++ path.text ++ "'"

structure Writer where
  scripts : Path
  claimed : NameSet
deriving DecidableEq

structure WriteReport where
  written : List String
  skipped : List String
deriving DecidableEq

structure WriteOutcome where
  writer : Writer
  tree : FileTree
  logs : List LogEntry
  report : Except WriteError WriteReport

namespace Writer

def forProject (root : Path) : Writer := ⟨root.join ⟨"scripts"⟩, ∅⟩

def asset (w : Writer) (name : String) : Asset := .ofName w.scripts name

/-- Finds the script of every block. The first block decides whose script is taken already, by this
writer or by an earlier block, or is not complete. -/
def resolve (w : Writer) (t : FileTree) (seen : List String) :
    List (String × Block) → Except WriteError (List (Asset × Block))
  | [] => .ok []
  | (target, b) :: rest =>
    if target ∈ w.claimed ∨ target ∈ seen then .error (.duplicateDestination target)
    else
      match (w.asset target).missing? t with
      | some path => .error (.scaffoldingMissing target path)
      | none => return (w.asset target, b) :: (← w.resolve t (target :: seen) rest)

structure Progress where
  tree : FileTree
  logs : List LogEntry
  report : WriteReport

def replace (entity : String) (p : Progress) (a : Asset) (b : Block) :
    Except WriteError Progress := do
  let current ← (p.tree.readText a.logic).mapError (.inaccessible a.logic)
  if Text.containsMark overrideMark.toList current.toList then
    pure { p with
      logs := p.logs ++ [⟨.warn, entity ++ ": " ++ a.name ++ ".gml couldn't be saved, " ++
        overrideMark ++ " exists"⟩]
      report := { p.report with skipped := p.report.skipped ++ [a.name] } }
  else
    let tree ← (p.tree.writeText a.logic b.text).mapError (.inaccessible a.logic)
    pure ⟨tree, p.logs ++ [⟨.debug, "saved " ++ a.logic.text⟩],
      { p.report with written := p.report.written ++ [a.name] }⟩

/-- Replaces logic units in their order, up to the first that cannot be read or written. -/
def replaceAll (entity : String) (p : Progress) :
    List (Asset × Block) → Progress × Except WriteError WriteReport
  | [] => (p, .ok p.report)
  | (a, b) :: rest =>
    match replace entity p a b with
    | .ok p => replaceAll entity p rest
    | .error e => (p, .error e)

def write (w : Writer) (t : FileTree) (entity : String) (snippets : List Snippet) : WriteOutcome :=
  let blocks := snippets.flatMap Snippet.routed
  match w.resolve t [] blocks with
  | .error e => ⟨w, t, [], .error e⟩
  | .ok assets =>
    let (p, report) := replaceAll entity ⟨t, [], ⟨[], []⟩⟩ assets
    ⟨{ w with claimed := w.claimed.insertAll (blocks.map (·.1)) }, p.tree, p.logs, report⟩

end Writer
end EntityScripts
