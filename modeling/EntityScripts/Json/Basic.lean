import EntityScripts.NameMap

/-!
JSON values. An object lists its members in the order in which they were given; `Json.tree` brings
every object into the form of a lookup tree, with ascending keys of which the last duplicate stays.
-/
namespace EntityScripts

/-- A number as a document gives it: exact while it fits 64 bits, else a floating point number. -/
inductive Number where
  | natural (n : Nat)
  /-- The negative integer `-(n + 1)`. -/
  | negative (n : Nat)
  | real (x : Float)

inductive Json where
  | null
  | flag (b : Bool)
  | number (n : Number)
  | text (s : String)
  | list (items : List Json)
  | object (members : List (String × Json))

namespace Json

mutual
/-- The value with every object sorted by its keys; the last of several equal keys stays. -/
def tree : Json → Json
  | null => null
  | flag b => flag b
  | number n => number n
  | text s => text s
  | list items => list (treeItems items)
  | object members => object (NameMap.ofList (treeMembers members)).entries

def treeItems : List Json → List Json
  | [] => []
  | j :: js => j.tree :: treeItems js

def treeMembers : List (String × Json) → List (String × Json)
  | [] => []
  | (k, j) :: ms => (k, j.tree) :: treeMembers ms
end

def member? (key : String) : Json → Option Json
  | object members => members.lookup key
  | _ => none

def text? : Json → Option String
  | text s => some s
  | _ => none

def items? : Json → Option (List Json)
  | list items => some items
  | _ => none

def ofText? : Option String → Json
  | none => null
  | some s => text s

def ofTexts (ss : List String) : Json :=
  list (ss.map text)

end Json
end EntityScripts
