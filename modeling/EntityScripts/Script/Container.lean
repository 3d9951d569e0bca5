import EntityScripts.Script.Body
import EntityScripts.TypeExpr.Container

/-!
How each kind of container looks in the target language: its tag in calls, how it is released, and
how its elements are visited.
-/
namespace EntityScripts.ContainerKind

open Script

def tag? (k : ContainerKind) : Option String :=
  if k.isScalar then none else some k.name

def tagArgs (k : ContainerKind) : List Expr :=
  (k.tag?.map Expr.name).toList

def tagText (k : ContainerKind) : String :=
  match k.tag? with
  | none => ""
  | some t => ", " ++ t

def release? (k : ContainerKind) (var owner : String) : Option Statement :=
  if k.ownsStructure then
    k.tag?.map fun tag => .run (.call "destroyDataStructure" [.name var, .name tag,
      .literal ("Unable to destroy " ++ tag ++ " " ++ var ++ " in " ++ owner)])
  else none

def elementVar : String := "entity"

/-- A walk over the elements of a container: the loops around the visit, outermost first, the value
of the current element, and the name by which it is visited. -/
structure Traversal where
  heads : List Head
  value? : Option Expr
  element : String

/-- The walk over the elements of `var`. A scalar is its own element; stacks and queues are
emptied. -/
def traversal (var : String) : ContainerKind → Traversal
  | scalar => ⟨[], none, var⟩
  | array =>
    ⟨[.count "index" (.call "array_length" [.name var])], some (.element var "@" ["index"]),
      elementVar⟩
  | list =>
    ⟨[.count "index" (.call "ds_list_size" [.name var])], some (.element var "|" ["index"]),
      elementVar⟩
  | map => ⟨[.keys "key" var], some (.element var "?" ["key"]), elementVar⟩
  | stack =>
    ⟨[.whileLeft (.call "ds_stack_size" [.name var])], some (.call "ds_stack_pop" [.name var]),
      elementVar⟩
  | grid =>
    ⟨[.count "yIndex" (.call "ds_grid_height" [.name var]),
      .count "xIndex" (.call "ds_grid_width" [.name var])],
      some (.element var "#" ["xIndex", "yIndex"]), elementVar⟩
  | queue =>
    ⟨[.whileLeft (.call "ds_queue_size" [.name var])], some (.call "ds_queue_dequeue" [.name var]),
      elementVar⟩
  | priorityQueue =>
    ⟨[.whileLeft (.call "ds_priority_size" [.name var])],
      some (.call "ds_priority_delete_min" [.name var]), elementVar⟩

namespace Traversal

def binding (t : Traversal) : List Statement :=
  (t.value?.map (Statement.declare t.element)).toList

def wrap (body : List Statement) : List Head → List Statement
  | [] => body
  | h :: hs => [.block h (wrap body hs)]

def visit (t : Traversal) (each : String → List Statement) : List Statement :=
  wrap (t.binding ++ each t.element) t.heads

def openIn (t : Traversal) (b : Body) : Body :=
  writeAll (t.heads.foldl (fun b h => b.openBlock h.text) b) t.binding

def closeIn (t : Traversal) (b : Body) : Body :=
  t.heads.foldl (fun b _ => b.closeBlock) b

end Traversal
end EntityScripts.ContainerKind
