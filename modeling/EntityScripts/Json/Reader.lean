import EntityScripts.Json.Token

/-!
Reading a JSON text into a document, one token at a time. The lists and objects still open form a
stack; a completed value goes into the topmost of them, and where the text stops being JSON the open
ones are closed around that place.
-/
namespace EntityScripts.Json

open Text (Symbol)

/-- A list or object that is still open, with what it holds so far, the latest first. -/
inductive Open where
  | list (items : List Document)
  | object (members : List (Leaf String × Document)) (key : Leaf String)

inductive Expect where
  | value
  | firstItem
  | nextItem (items : List Document)
  | itemAfterComma (items : List Document)
  | firstKey
  | colon (members : List (Leaf String × Document)) (key : Leaf String)
  | nextMember (members : List (Leaf String × Document))
  | keyAfterComma (members : List (Leaf String × Document))
  | done (value : Document)

structure Reading where
  document : Document
  trailing : Bool

/-- A completed value goes into the list or object around it. -/
def complete (d : Document) : List Open → Expect × List Open
  | [] => (.done d, [])
  | .list items :: opened => (.nextItem (d :: items), opened)
  | .object members key :: opened => (.nextMember ((key, d) :: members), opened)

/-- Closes everything that is still open around a place where the text breaks off. -/
def closeAll (d : Document) : List Open → Document
  | [] => d
  | .list items :: opened => closeAll (.list (d :: items).reverse .endOfText) opened
  | .object members key :: opened =>
    closeAll (.object ((key, d) :: members).reverse .endOfText) opened

def breakOff (d : Document) (opened : List Open) : Reading := ⟨closeAll d opened, false⟩

def Token.document : Token → Document
  | .null => .null
  | .flag b => .flag b
  | .number n => .number n
  | .text s => .text s
  | .misspelt f => .misspelt f
  | _ => .broken .expectedValue

def Token.isValue : Token → Bool
  | .null | .flag _ | .number _ | .text _ => true
  | _ => false

def startValue (t : Token) (opened : List Open) : Option (Expect × List Open) :=
  match t with
  | .openList => some (.firstItem, opened)
  | .openObject => some (.firstKey, opened)
  | t => if t.isValue then some (complete t.document opened) else none

/-- The document that the tokens make, from a point between two tokens on. -/
def run (expect : Expect) (opened : List Open) : List Token → Reading
  | [] =>
    match expect with
    | .value => breakOff (.broken .endInValue) opened
    | .firstItem => breakOff (.list [] .endOfText) opened
    | .nextItem items => breakOff (.list items.reverse .endOfText) opened
    | .itemAfterComma items => breakOff (.list items.reverse .endAfterComma) opened
    | .firstKey => breakOff (.object [] .endOfText) opened
    | .colon members key =>
      breakOff (.object ((key, .broken .endInObject) :: members).reverse .endOfText) opened
    | .nextMember members => breakOff (.object members.reverse .endOfText) opened
    | .keyAfterComma members => breakOff (.object members.reverse .endAfterComma) opened
    | .done d => ⟨d, false⟩
  | t :: ts =>
    match expect with
    | .value =>
      match startValue t opened with
      | some (e, o) => run e o ts
      | none => breakOff t.document opened
    | .firstItem =>
      match t with
      | .closeList =>
        let next := complete (.list [] .closed) opened
        run next.1 next.2 ts
      | t =>
        match startValue t (.list [] :: opened) with
        | some (e, o) => run e o ts
        | none => breakOff t.document (.list [] :: opened)
    | .nextItem items =>
      match t with
      | .comma => run (.itemAfterComma items) opened ts
      | .closeList =>
        let next := complete (.list items.reverse .closed) opened
        run next.1 next.2 ts
      | _ => breakOff (.list items.reverse .missingComma) opened
    | .itemAfterComma items =>
      match t with
      | .closeList => breakOff (.list items.reverse .danglingComma) opened
      | t =>
        match startValue t (.list items :: opened) with
        | some (e, o) => run e o ts
        | none => breakOff t.document (.list items :: opened)
    | .firstKey =>
      match t with
      | .closeObject =>
        let next := complete (.object [] .closed) opened
        run next.1 next.2 ts
      | .text key => run (.colon [] key) opened ts
      | _ => breakOff .keyless opened
    | .colon members key =>
      match t with
      | .colon => run .value (.object members key :: opened) ts
      | _ => breakOff (.object ((key, .broken .expectedColon) :: members).reverse .endOfText) opened
    | .nextMember members =>
      match t with
      | .comma => run (.keyAfterComma members) opened ts
      | .closeObject =>
        let next := complete (.object members.reverse .closed) opened
        run next.1 next.2 ts
      | _ => breakOff (.object members.reverse .missingComma) opened
    | .keyAfterComma members =>
      match t with
      | .text key => run (.colon members key) opened ts
      | .closeObject => breakOff (.object members.reverse .danglingComma) opened
      | _ => breakOff (.object members.reverse .missingKey) opened
    | .done d => ⟨d, true⟩

def read (cs : List Symbol) : Reading :=
  run .value [] (tokens cs)

end EntityScripts.Json
