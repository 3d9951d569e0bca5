import EntityScripts.Command.Arguments
import EntityScripts.Json.Printer

/-!
Carrying out a command: what it prints and what it leaves behind. A command that fails prints its
error with everything that caused it.
-/
namespace EntityScripts.Command

structure Outcome where
  tree : FileTree
  code : Nat
  output : String
  errors : String
  logs : List LogEntry

def usageCode : Nat := 2

def indentCause (indent : String) (s : String) : String :=
  Text.joinWith ("\n" ++ indent)
    ((s.toList.splitOn '\n').map String.ofList)

def numberCauses (n : Nat) : List String → String
  | [] => ""
  | c :: cs => "\n    " ++ Nat.repr n ++ ": " ++ indentCause "       " c ++ numberCauses (n + 1) cs

def errorText (message : String) (causes : List String) : String :=
  "Error: " ++ message ++
    match causes with
    | [] => "\n"
    | [c] => "\n\nCaused by:\n    " ++ indentCause "    " c ++ "\n"
    | cs => "\n\nCaused by:" ++ numberCauses 0 cs ++ "\n"

def failed (tree : FileTree) (output : String) (logs : List LogEntry) (message : String)
    (causes : List String) : Outcome :=
  ⟨tree, 1, output, errorText message causes, logs⟩

def ConfigError.causes : ConfigError → List String
  | e@(.malformed _) => [e.message]
  | e@(.unreadable _ cause) => [e.message, cause.message]

def report (s : Summary) : String :=
  "generated " ++ Nat.repr s.generated.length ++ " entit(ies), " ++ Nat.repr s.written.length ++
    " script(s) written\n" ++
  String.join (s.skipped.map fun script => "  skipped " ++ script ++ " (override)\n") ++
  String.join (s.failures.map fun f => "  failed " ++ f.1 ++ ": " ++ f.2.message ++ "\n")

def finishEntities (tree : FileTree) (logs : List LogEntry) (s : Summary) : Outcome :=
  if s.hasFailures then
    failed tree (report s) logs (Nat.repr s.failures.length ++ " entit(ies) failed") []
  else ⟨tree, 0, report s, "", logs⟩

/-- A generation run. Labels are written behind the report, also when entities failed. -/
def runEntities (t : FileTree) (stamp : String) (a : EntitiesArgs) : Outcome :=
  match Config.discover t a.config with
  | .error e => failed t "" [] "load config" (ConfigError.causes e)
  | .ok c =>
    match a.resolve c with
    | .error e => failed t "" [] e.message []
    | .ok (request, labels) =>
      let out := run t request stamp
      match out.result with
      | .error f =>
        failed out.tree "" out.logs ("generate from '" ++ request.model.text ++ "'") [f.message]
      | .ok s =>
        match labels with
        | none => finishEntities out.tree out.logs s
        | some path =>
          match out.tree.writeText path s.mergedLabels.text with
          | .error e =>
            failed out.tree (report s) out.logs ("write labels to '" ++ path.text ++ "'")
              [e.message]
          | .ok tree =>
            finishEntities tree (out.logs ++ [⟨.info, "labels written to " ++ path.text⟩]) s

def dialogueLog (name : String) : LogEntry := ⟨.info, "dialogue " ++ name ++ " parsed"⟩

def graphText (g : Dialogue.Graph) : String := g.toJson.indented "  "

def runDialogue (t : FileTree) (a : DialogueArgs) : Outcome :=
  match t.readText a.input with
  | .error e => failed t "" [] ("read '" ++ a.input.text ++ "'") [e.message]
  | .ok s =>
    match Json.decodeString Json.decodeTree s with
    | .error f => failed t "" [] ("parse '" ++ a.input.text ++ "'") [f.message]
    | .ok designer =>
      match Dialogue.build a.name designer a.language with
      | .error e => failed t "" [] e.message []
      | .ok g =>
        let logs := [dialogueLog a.name]
        match a.output with
        | none => ⟨t, 0, graphText g ++ "\n", "", logs⟩
        | some path =>
          match t.writeText path (graphText g) with
          | .error e => failed t "" logs ("write '" ++ path.text ++ "'") [e.message]
          | .ok t =>
            let written := "dialogue " ++ a.name ++ " written to " ++ path.text
            ⟨t, 0, "", "", logs ++ [⟨.info, written⟩]⟩

def carryOut (t : FileTree) (stamp : String) : Command → Outcome
  | entities args => runEntities t stamp args
  | dialogue args => runDialogue t args

def scriptPaths (root : Path) (plans : List Plan) : List Path :=
  let targets := plans.flatMap fun p =>
    ((Script.generate p "").flatMap Script.Snippet.routed).map (·.1)
  targets.flatMap fun target =>
    let a := (Writer.forProject root).asset target
    [a.directory, a.logic, a.metadata]

/-- The paths that a command looks at, as far as the tree tells. With everything that it names in
the tree, a command finds there what it needs. -/
def paths (t : FileTree) : Command → List Path
  | dialogue a => a.input :: a.output.toList
  | entities a =>
    a.config.getD Config.defaultFile ::
      match Config.discover t a.config with
      | .error _ => []
      | .ok c =>
        match a.resolve c with
        | .error _ => []
        | .ok (request, labels) =>
          request.model :: labels.toList ++
            match request.plans t with
            | .error _ => []
            | .ok plans => scriptPaths request.root plans

end EntityScripts.Command
