import EntityScripts.Project.Failure
import EntityScripts.Script.Generate

/-!
A run: load the model, plan it, and write the scripts of one entity after the other. Whatever is
wrong with the model stops the run before anything is written; what goes wrong in writing fails
the entity it belongs to, and the run goes on.
-/
namespace EntityScripts

open Script

structure Request where
  /-- The entities to generate; none means all. -/
  entities : NameSet
  model : Path
  root : Path
  policy : UnknownTypes
deriving DecidableEq

structure Summary where
  generated : List String
  written : List String
  skipped : List String
  failures : List (String × Failure)
  labels : List LabelMap
deriving DecidableEq

def Summary.empty : Summary := ⟨[], [], [], [], []⟩

def Summary.hasFailures (s : Summary) : Bool := !s.failures.isEmpty

def Summary.mergedLabels (s : Summary) : LabelMap := .merged s.labels

def loadModel (t : FileTree) (path : Path) : Except LoadError Model :=
  match t.read path with
  | .error .notFound => .error (.notFound path)
  | .error _ => .error (.unreadable path)
  | .ok content =>
    match Json.decodeSymbols Model.decode (Text.symbolsOfContent content) with
    | .error fault => .error (.malformed path fault)
    | .ok m => .ok m

structure RunState where
  writer : Writer
  tree : FileTree
  logs : List LogEntry
  summary : Summary

def writePlan (stamp : String) (s : RunState) (p : Plan) : RunState :=
  let out := s.writer.write s.tree p.name (generate p stamp)
  let summary := { s.summary with labels := s.summary.labels ++ [LabelMap.ofPlan p] }
  match out.report with
  | .ok report =>
    { writer := out.writer
      tree := out.tree
      logs := s.logs ++ out.logs ++ [⟨.info, "saved " ++ p.name⟩]
      summary := { summary with
        generated := summary.generated ++ [p.name]
        written := summary.written ++ report.written
        skipped := summary.skipped ++ report.skipped } }
  | .error e =>
    { writer := out.writer
      tree := out.tree
      logs := s.logs ++ out.logs ++ [⟨.warn, p.name ++ ": " ++ e.message⟩]
      summary := { summary with failures := summary.failures ++ [(p.name, e.failure)] } }

structure RunOutcome where
  tree : FileTree
  logs : List LogEntry
  result : Except Failure Summary

def Request.plans (r : Request) (t : FileTree) : Except Failure (List Plan) := do
  let m ← (loadModel t r.model).mapError LoadError.failure
  (planEntities m r.entities r.policy).mapError PlanningError.failure

def run (t : FileTree) (r : Request) (stamp : String) : RunOutcome :=
  match r.plans t with
  | .error f => ⟨t, [], .error f⟩
  | .ok plans =>
    let s := plans.foldl (writePlan stamp) ⟨.forProject r.root, t, [], .empty⟩
    ⟨s.tree, s.logs, .ok s.summary⟩

end EntityScripts
