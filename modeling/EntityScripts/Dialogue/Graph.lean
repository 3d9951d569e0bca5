import EntityScripts.Json.Record

/-!
Dialogue graphs: nodes by name, each with the names of the nodes it leads to. Cycles are allowed.
-/
namespace EntityScripts.Dialogue

structure Choice where
  next : Option String
  text : String
  condition : Option String
deriving DecidableEq

inductive Node where
  | line (author : Option String) (text : String) (next : Option String) (choices : List Choice)
  | action (author : Option String) (action : String) (next : Option String)
  | branch (truthy : String) (falsy : Option String)
deriving DecidableEq

structure Graph where
  name : String
  start : String
  nodes : NameMap Node
deriving DecidableEq

def Node.successors : Node → List String
  | line _ _ next choices => next.toList ++ choices.filterMap (·.next)
  | action _ _ next => next.toList
  | branch truthy falsy => truthy :: falsy.toList

def Graph.successors (g : Graph) : List (String × List String) :=
  g.nodes.entries.map fun e => (e.1, e.2.successors)

open Json

def memberIfSome (key : String) (value : Option String) : List (String × Json) :=
  (value.map fun s => (key, Json.text s)).toList

def Choice.toJson (c : Choice) : Json :=
  .object ([("nextNode", .ofText? c.next), ("text", .text c.text)] ++
    memberIfSome "conditionData" c.condition)

def Node.toJson : Node → Json
  | line author words next choices =>
    .object ([("type", .text "line")] ++ memberIfSome "author" author ++
      [("text", .text words), ("nextNode", .ofText? next)] ++
      if choices.isEmpty then [] else [("choices", .list (choices.map Choice.toJson))])
  | action author deed next =>
    .object ([("type", .text "action")] ++ memberIfSome "author" author ++
      [("action", .text deed), ("nextNode", .ofText? next)])
  | branch truthy falsy =>
    .object [("type", .text "branch"), ("truthy", .text truthy), ("falsy", .ofText? falsy)]

def Graph.toJson (g : Graph) : Json :=
  .object [("name", .text g.name), ("startNode", .text g.start),
    ("nodes", .object (g.nodes.entries.map fun e => (e.1, e.2.toJson)))]

def Choice.record : Record Choice :=
  Choice.mk <$> .nullable "nextNode" decodeText <*> .required "text" decodeText <*>
    .defaulted "conditionData" (decodeOption decodeText) none

def Choice.decode : Decoder Choice := Choice.record.decode "DialogueChoice"

inductive NodeKind where
  | line
  | action
  | branch
deriving DecidableEq

def NodeKind.all : List (String × NodeKind) :=
  [("line", line), ("action", action), ("branch", branch)]

def NodeKind.describe : NodeKind → String
  | line => "struct variant DialogueNode::Line"
  | action => "struct variant DialogueNode::Action"
  | branch => "struct variant DialogueNode::Branch"

def NodeKind.record : NodeKind → Record Node
  | line =>
    Node.line <$> .nullable "author" decodeText <*> .required "text" decodeText <*>
      .nullable "nextNode" decodeText <*> .defaulted "choices" (decodeList Choice.decode) []
  | action =>
    Node.action <$> .nullable "author" decodeText <*> .required "action" decodeText <*>
      .nullable "nextNode" decodeText
  | branch => Node.branch <$> .required "truthy" decodeText <*> .nullable "falsy" decodeText

def tagKey : String := "type"

def decodeTag : Document → Except Fault NodeKind
  | .text s => do pickAlternative NodeKind.all (← s.value)
  | d => mismatch .tag d

/-- Reads the tag and holds back all other members until the kind is known. -/
def holdMembers (src : Source) (tag : Option NodeKind) :
    List (Leaf String × Document) → Except Fault (Option NodeKind × List (String × Json))
  | [] => .ok (tag, [])
  | (k, d) :: ms => do
    let k ← k.value
    if k = tagKey then
      if tag.isSome then .error (.duplicateField tagKey)
      else
        let kind ← decodeTag d
        holdMembers src (some kind) ms
    else
      let v ← readValue src d
      let (tag, held) ← holdMembers src tag ms
      pure (tag, (k, v) :: held)

/-- A node is an object with its tag among the members, or a list with its tag in front. -/
def Node.decode : Decoder Node
  | src, .object members close => do
    let (tag, held) ← holdMembers (← src.enter) none members
    close.ofObject
    match tag with
    | none => .error (.missingField tagKey)
    | some kind => kind.record.decodeMembers .held (Document.ofMembers held) .closed
  | src, .list [] close => do
    let _ ← src.enter
    close.ofList
    .error (.missingField tagKey)
  | src, .list (t :: items) close => do
    let src ← src.enter
    let kind ← decodeTag t
    let held ← readItems src items
    close.ofList
    kind.record.decodeItems kind.describe .held (Document.ofItems held) .closed
  | src, .keyless => do
    let _ ← src.enter
    .error .keyNotText
  | _, d => mismatch (.tagged "DialogueNode") d

def Graph.record : Record Graph :=
  Graph.mk <$> .required "name" decodeText <*> .required "startNode" decodeText <*>
    .required "nodes" (decodeNameMap Node.decode)

def Graph.decode : Decoder Graph := Graph.record.decode "Dialogue"

end EntityScripts.Dialogue
