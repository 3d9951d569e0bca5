/-!
The storage shapes of a field. Scalars and arrays are plain values of the target language; every
other kind is a data structure that the entity owns and has to release.
-/
namespace EntityScripts

inductive ContainerKind where
  | scalar
  | array
  | list
  | map
  | stack
  | grid
  | queue
  | priorityQueue
deriving DecidableEq, Repr

namespace ContainerKind

def all : List ContainerKind := [scalar, array, list, map, stack, grid, queue, priorityQueue]

def name : ContainerKind → String
  | scalar => "Scalar"
  | array => "Array"
  | list => "List"
  | map => "Map"
  | stack => "Stack"
  | grid => "Grid"
  | queue => "Queue"
  | priorityQueue => "PriorityQueue"

def ofHead? : String → Option ContainerKind
  | "List" => some list
  | "Map" => some map
  | "Stack" => some stack
  | "Grid" => some grid
  | "Queue" => some queue
  | "PriorityQueue" => some priorityQueue
  | _ => none

def isScalar : ContainerKind → Bool
  | scalar => true
  | _ => false

def ownsStructure : ContainerKind → Bool
  | scalar | array => false
  | _ => true

def arity : ContainerKind → Nat
  | scalar => 0
  | map => 2
  | _ => 1

theorem mem_all (k : ContainerKind) : k ∈ all := by
  cases k <;> decide

theorem name_injective {j k : ContainerKind} (h : j.name = k.name) : j = k := by
  cases j <;> cases k <;> first | rfl | exact absurd h (by decide)

end ContainerKind
end EntityScripts
