import EntityScripts.Dialogue.Designer
import EntityScripts.Dialogue.Graph

/-!
Building a dialogue graph from a designer's document. The nodes are taken in their order and the
first that is at fault decides; the start node gives the entry point and is no node of the graph.
-/
namespace EntityScripts.Dialogue

open Json

def defaultLanguage : String := "en_EN"

inductive Reason where
  | undecodable (fault : Fault)
  | startWithoutNext
  | empty
  | missingText (lang : String)
  | choiceWithoutText (index : Nat) (lang : String)

def Reason.message : Reason → String
  | undecodable fault => fault.message
  | startWithoutNext => "START has no successor"
  | empty => "node has neither text nor branches"
  | missingText lang => "missing '" ++ lang ++ "' text"
  | choiceWithoutText index lang =>
    "choice #" ++ Nat.repr index ++ ": missing '" ++ lang ++ "' text"

inductive DialogueError where
  | duplicateNode (dialogue node : String)
  | missingNodes (dialogue : String)
  | missingStart (dialogue : String)
  | faultyNode (dialogue : String) (index : Nat) (node : String) (reason : Reason)

def DialogueError.message : DialogueError → String
  | duplicateNode dialogue node =>
    "dialogue '" ++ dialogue ++ "' defines node '" ++ node ++ "' more than once"
  | missingNodes dialogue => "dialogue '" ++ dialogue ++ "' has no designer[0].nodes array"
  | missingStart dialogue => "dialogue '" ++ dialogue ++ "' has no START node"
  | faultyNode dialogue index node reason =>
    "dialogue '" ++ dialogue ++ "' node #" ++ Nat.repr index ++ " ('" ++ node ++ "'): " ++
      reason.message

def Localized.inLanguage? (texts : Localized) (lang : String) : Option String :=
  (texts.get? lang).join

def normalizeChoices (lang : String) (index : Nat) :
    List DesignerChoice → Except Reason (List Choice)
  | [] => .ok []
  | c :: cs => do
    match Localized.inLanguage? c.text lang with
    | none => .error (.choiceWithoutText index lang)
    | some words =>
      let condition := if c.isCondition then c.condition else none
      return ⟨c.next, words, condition⟩ :: (← normalizeChoices lang (index + 1) cs)

/-- The graph's node for a designer's. Branches come before texts; a plain text is an action. -/
def normalize (lang : String) (n : DesignerNode) : Except Reason Node :=
  match n.branches.bind DesignerBranches.targets? with
  | some (truthy, falsy) => .ok (.branch truthy falsy)
  | none =>
    match n.text with
    | some (.action s) => .ok (.action n.author s n.next)
    | some (.localized texts) =>
      match Localized.inLanguage? texts lang with
      | none => .error (.missingText lang)
      | some words =>
        return .line n.author words n.next (← normalizeChoices lang 0 (n.choices.getD []))
    | none => .error .empty

def rawName (raw : Json) : String :=
  ((raw.member? "node_name").bind Json.text?).getD "<unnamed>"

structure Progress where
  start : Option String
  nodes : NameMap Node

def takeNode (dialogue lang : String) (index : Nat) (raw : Json) (p : Progress) :
    Except DialogueError Progress :=
  let faulty := DialogueError.faultyNode dialogue index (rawName raw)
  match decodeJson DesignerNode.decode raw with
  | .error fault => .error (faulty (.undecodable fault))
  | .ok node =>
    if node.name = startName then
      match node.next with
      | none => .error (faulty .startWithoutNext)
      | some next => .ok { p with start := some next }
    else
      match normalize lang node with
      | .error reason => .error (faulty reason)
      | .ok normalized =>
        if (p.nodes.get? node.name).isSome then .error (.duplicateNode dialogue node.name)
        else .ok { p with nodes := p.nodes.insert node.name normalized }

def takeNodes (dialogue lang : String) (index : Nat) (p : Progress) :
    List Json → Except DialogueError Progress
  | [] => .ok p
  | raw :: raws => do
    takeNodes dialogue lang (index + 1) (← takeNode dialogue lang index raw p) raws

/-- The raw nodes of a designer's document: those of its first element. -/
def rawNodes? (designer : Json) : Option (List Json) := do
  let first ← (← designer.items?).head?
  (← first.member? "nodes").items?

def build (dialogue : String) (designer : Json) (lang : String) : Except DialogueError Graph := do
  match rawNodes? designer with
  | none => .error (.missingNodes dialogue)
  | some raws =>
    let p ← takeNodes dialogue lang 0 ⟨none, ∅⟩ raws
    match p.start with
    | none => .error (.missingStart dialogue)
    | some start => pure ⟨dialogue, start, p.nodes⟩

end EntityScripts.Dialogue
