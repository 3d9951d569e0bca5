import EntityScripts.Json.Decoder
import EntityScripts.Script.Header
import EntityScripts.Text.Blank

/-!
Generated blocks of text, in groups. A block with a target replaces the script of that name; a block
without one is information only.
-/
namespace EntityScripts.Script

inductive SnippetKind where
  | create
  | serialize
  | deserialize
  | destroy
  | getters
  | setters
  | labels
deriving DecidableEq, Repr

namespace SnippetKind

def all : List SnippetKind := [create, serialize, deserialize, destroy, getters, setters, labels]

def name : SnippetKind → String
  | create => "Create"
  | serialize => "Serialize"
  | deserialize => "Deserialize"
  | destroy => "Destroy"
  | getters => "Getters"
  | setters => "Setters"
  | labels => "Labels"

def decode : Json.Decoder SnippetKind :=
  Json.decodeChoice (all.map fun k => (k.name, k))

end SnippetKind

structure Block where
  target : Option String
  text : String
deriving DecidableEq

def Block.embeddedTarget? (b : Block) : Option String := do
  let rest ← Text.after? functionMark.toList b.text.toList
  let name := Text.trim (← Text.before? '(' rest)
  if name.isEmpty then none else some (String.ofList name)

structure Snippet where
  kind : SnippetKind
  blocks : List Block
deriving DecidableEq

def Snippet.routed (s : Snippet) : List (String × Block) :=
  s.blocks.filterMap fun b => b.target.map (·, b)

end EntityScripts.Script
