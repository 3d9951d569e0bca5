import EntityScripts.Json.Reader

/-!
Decoders: what a document has to look like for a value of a type. A decoder walks the document in
its order, so the first fault in the text decides.
-/
namespace EntityScripts.Json

inductive Source where
  /-- A text; `room` is how many lists and objects may still be opened inside each other. -/
  | text (room : Nat)
  | tree
  /-- A value that was held back until its kind was known. -/
  | held

def Source.fresh : Source := .text 127

def Source.enter : Source → Except Fault Source
  | text 0 => .error .tooDeep
  | text (n + 1) => .ok (text n)
  | tree => .ok tree
  | held => .ok held

abbrev Decoder (α : Type) := Source → Document → Except Fault α

/-- The fault of a document that is not what was wanted. A number or text is read for the message.
-/
def mismatch {α : Type} (wanted : Wanted) : Document → Except Fault α
  | .null => .error (.wrongType .null wanted)
  | .flag b => .error (.wrongType (.flag b) wanted)
  | .number n => do .error (.wrongType (.number (← n.value)) wanted)
  | .text s => do .error (.wrongType (.text (← s.value)) wanted)
  | .list .. => .error (.wrongType .list wanted)
  | .object .. | .keyless => .error (.wrongType .object wanted)
  | .misspelt f | .broken f => .error f

mutual
def readValue (src : Source) : Document → Except Fault Json
  | .null => .ok .null
  | .flag b => .ok (.flag b)
  | .number n => .number <$> n.value
  | .text s => .text <$> s.value
  | .list items close => do
    let items ← readItems (← src.enter) items
    close.ofList
    pure (.list items)
  | .object members close => do
    let members ← readMembers (← src.enter) members
    close.ofObject
    pure (.object members)
  | .keyless => do
    let _ ← src.enter
    .error .keyNotText
  | .misspelt f | .broken f => .error f

def readItems (src : Source) : List Document → Except Fault (List Json)
  | [] => .ok []
  | d :: ds => return (← readValue src d) :: (← readItems src ds)

def readMembers (src : Source) : List (Leaf String × Document) → Except Fault (List (String × Json))
  | [] => .ok []
  | (k, d) :: ms => do
    let k ← k.value
    let v ← readValue src d
    return (k, v) :: (← readMembers src ms)
end

def decodeTree : Decoder Json := fun src d => Json.tree <$> readValue src d

def decodeText : Decoder String
  | _, .text s => s.value
  | _, d => mismatch .text d

def decodeFlag : Decoder Bool
  | _, .flag b => .ok b
  | _, d => mismatch .flag d

def decodeOption {α : Type} (dec : Decoder α) : Decoder (Option α)
  | _, .null => .ok none
  | src, d => some <$> dec src d

def decodeItems {α : Type} (dec : Decoder α) (src : Source) : List Document → Except Fault (List α)
  | [] => .ok []
  | d :: ds => return (← dec src d) :: (← decodeItems dec src ds)

def decodeList {α : Type} (dec : Decoder α) : Decoder (List α)
  | src, .list items close => do
    let items ← decodeItems dec (← src.enter) items
    close.ofList
    pure items
  | _, d => mismatch .list d

def decodeEntries {α : Type} (dec : Decoder α) (src : Source) :
    List (Leaf String × Document) → Except Fault (List (String × α))
  | [] => .ok []
  | (k, d) :: ms => do
    let k ← k.value
    let v ← dec src d
    return (k, v) :: (← decodeEntries dec src ms)

/-- The members of an object, in their order and with repeated keys. -/
def decodeMembers {α : Type} (wanted : Wanted) (dec : Decoder α) : Decoder (List (String × α))
  | src, .object members close => do
    let es ← decodeEntries dec (← src.enter) members
    close.ofObject
    pure es
  | src, .keyless => do
    let _ ← src.enter
    .error .keyNotText
  | _, d => mismatch wanted d

def decodeNameSet : Decoder NameSet := fun src d =>
  NameSet.ofList <$> decodeList decodeText src d

def decodeNameMap {α : Type} (dec : Decoder α) : Decoder (NameMap α) := fun src d =>
  NameMap.ofList <$> decodeMembers .object dec src d

def pickAlternative {α : Type} (known : List (String × α)) (name : String) : Except Fault α :=
  match known.lookup name with
  | some a => .ok a
  | none => .error (.unknownAlternative name (known.map Prod.fst))

def decodeNothing : Document → Except Fault Unit
  | .null => .ok ()
  | d => mismatch .nothing d

/-- One of several named alternatives: its name, or an object with that one key and null. -/
def decodeChoice {α : Type} (known : List (String × α)) : Decoder α
  | _, .text s => do pickAlternative known (← s.value)
  | .text room, .object [] .endOfText => do
    let _ ← (Source.text room).enter
    .error .endInObject
  | .text room, .object [] _ => do
    let _ ← (Source.text room).enter
    .error .expectedValue
  | .text room, .object ((k, d) :: ms) close => do
    let _ ← (Source.text room).enter
    let a ← pickAlternative known (← k.value)
    decodeNothing d
    if ms.isEmpty then close.ofSingleton else .error .expectedValue
    pure a
  | .text room, .keyless => do
    let _ ← (Source.text room).enter
    .error .keyNotText
  | .text _, .broken f => .error f
  | .text _, _ => .error .expectedValue
  | _, .object [(k, d)] _ => do
    let a ← pickAlternative known (← k.value)
    decodeNothing d
    pure a
  | _, .object .. => .error .manyAlternatives
  | _, d => mismatch .alternative d

def decodeSymbols {α : Type} (dec : Decoder α) (cs : List Text.Symbol) : Except Fault α := do
  let reading := read cs
  let a ← dec .fresh reading.document
  if reading.trailing then .error .trailingCharacters else pure a

def decodeString {α : Type} (dec : Decoder α) (s : String) : Except Fault α :=
  decodeSymbols dec (Text.symbolsOfText s)

def decodeJson {α : Type} (dec : Decoder α) (j : Json) : Except Fault α :=
  dec .tree (.ofJson j)

end EntityScripts.Json
