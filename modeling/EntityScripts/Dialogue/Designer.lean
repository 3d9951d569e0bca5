import EntityScripts.Json.Record

/-!
The documents that a dialogue designer exports.
-/
namespace EntityScripts.Dialogue

open Json

/-- Texts by language; one that was left blank has none. -/
abbrev Localized := NameMap (Option String)

def startName : String := "START"

/-- A plain text is an action; texts by language are a line. -/
inductive DesignerText where
  | action (s : String)
  | localized (texts : Localized)
deriving DecidableEq

structure DesignerChoice where
  next : Option String
  text : Localized
  isCondition : Bool
  condition : Option String
deriving DecidableEq

structure DesignerBranches where
  truthy : Option Json
  falsy : Option Json

structure DesignerNode where
  name : String
  character : Option (List String)
  next : Option String
  text : Option DesignerText
  choices : Option (List DesignerChoice)
  branches : Option DesignerBranches

/-- The first of the characters. -/
def DesignerNode.author (n : DesignerNode) : Option String :=
  n.character.bind List.head?

/-- The nodes on either side, when the true side names one. -/
def DesignerBranches.targets? (b : DesignerBranches) : Option (String × Option String) := do
  let truthy ← (← b.truthy).text?
  pure (truthy, b.falsy.bind Json.text?)

def localizedOf? : List (String × Json) → Option (List (String × Option String))
  | [] => some []
  | (k, .null) :: ms => (localizedOf? ms).map ((k, none) :: ·)
  | (k, .text s) :: ms => (localizedOf? ms).map ((k, some s) :: ·)
  | _ :: _ => none

def DesignerText.ofJson? : Json → Option DesignerText
  | .text s => some (action s)
  | .object members => (localizedOf? members).map fun es => localized (.ofList es)
  | _ => none

def DesignerText.decode : Decoder DesignerText := fun src d => do
  match DesignerText.ofJson? (← readValue src d) with
  | some t => pure t
  | none => .error (.noAlternative "DesignerText")

def decodeLocalized : Decoder Localized :=
  decodeNameMap (decodeOption decodeText)

def DesignerChoice.record : Record DesignerChoice :=
  DesignerChoice.mk <$> .defaulted "next" (decodeOption decodeText) none <*>
    .required "text" decodeLocalized <*> .defaulted "is_condition" decodeFlag false <*>
    .defaulted "condition" (decodeOption decodeText) none

def DesignerChoice.decode : Decoder DesignerChoice :=
  DesignerChoice.record.decode "DesignerChoice"

def DesignerBranches.record : Record DesignerBranches :=
  DesignerBranches.mk <$> .defaulted "True" (decodeOption decodeTree) none <*>
    .defaulted "False" (decodeOption decodeTree) none

def DesignerBranches.decode : Decoder DesignerBranches :=
  DesignerBranches.record.decode "DesignerBranches"

def DesignerNode.record : Record DesignerNode :=
  DesignerNode.mk <$> .required "node_name" decodeText <*>
    .defaulted "character" (decodeOption (decodeList decodeText)) none <*>
    .defaulted "next" (decodeOption decodeText) none <*>
    .defaulted "text" (decodeOption DesignerText.decode) none <*>
    .defaulted "choices" (decodeOption (decodeList DesignerChoice.decode)) none <*>
    .defaulted "branches" (decodeOption DesignerBranches.decode) none

def DesignerNode.decode : Decoder DesignerNode := DesignerNode.record.decode "DesignerNode"

end EntityScripts.Dialogue
