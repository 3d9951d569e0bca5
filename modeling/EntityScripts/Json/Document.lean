import EntityScripts.Json.Numeral

/-!
Documents: JSON text as far as it can be read. A document keeps the values in the order of the text
and marks the place where the text stops being JSON, so a decoder that walks it in that order meets
the first fault of the text or of the shape, whichever comes first. What is read and what is passed
over are held to different rules, and a document answers for both.
-/
namespace EntityScripts.Json

/-- A numeral, a text or a key: what reading it gives, and whether it can be passed over. -/
structure Leaf (α : Type) where
  value : Except Fault α
  skipped : Except Fault Unit

def Leaf.sound {α : Type} (a : α) : Leaf α := ⟨.ok a, .ok ()⟩

/-- What stands where the next comma or the closing bracket is due. -/
inductive Close where
  | closed
  | endOfText
  | missingComma
  | danglingComma
  | endAfterComma
  | missingKey

namespace Close

def ofList : Close → Except Fault Unit
  | closed => .ok ()
  | endOfText => .error .endInList
  | danglingComma => .error .trailingComma
  | endAfterComma => .error .endInValue
  | missingComma | missingKey => .error .expectedListComma

def ofSkippedList : Close → Except Fault Unit
  | danglingComma => .error .expectedValue
  | c => c.ofList

/-- The end of a list that was to stop here. -/
def ofFullList : Close → Except Fault Unit
  | closed => .ok ()
  | endOfText => .error .endInList
  | danglingComma => .error .trailingComma
  | _ => .error .trailingCharacters

def ofObject : Close → Except Fault Unit
  | closed => .ok ()
  | endOfText => .error .endInObject
  | danglingComma => .error .trailingComma
  | endAfterComma => .error .endInValue
  | missingComma => .error .expectedObjectComma
  | missingKey => .error .keyNotText

def ofSkippedObject : Close → Except Fault Unit
  | danglingComma => .error .keyNotText
  | endAfterComma => .error .endInObject
  | c => c.ofObject

/-- The end of an object that was to hold one member. -/
def ofSingleton : Close → Except Fault Unit
  | closed => .ok ()
  | endOfText => .error .endInObject
  | _ => .error .expectedValue

end Close

inductive Document where
  | null
  | flag (b : Bool)
  | number (n : Leaf Number)
  | text (s : Leaf String)
  | list (items : List Document) (close : Close)
  | object (members : List (Leaf String × Document)) (close : Close)
  /-- An object whose first key is no text. -/
  | keyless
  | misspelt (fault : Fault)
  | broken (fault : Fault)

namespace Document

mutual
/-- Passes over a value: only the form of the text counts. -/
def skip : Document → Except Fault Unit
  | null | flag _ => .ok ()
  | number n => n.skipped
  | text s => s.skipped
  | list items close => do skipItems items; close.ofSkippedList
  | object members close => do skipMembers members; close.ofSkippedObject
  | keyless => .error .keyNotText
  | misspelt f | broken f => .error f

def skipItems : List Document → Except Fault Unit
  | [] => .ok ()
  | d :: ds => do skip d; skipItems ds

def skipMembers : List (Leaf String × Document) → Except Fault Unit
  | [] => .ok ()
  | (k, d) :: ms => do k.skipped; skip d; skipMembers ms
end

mutual
def ofJson : Json → Document
  | .null => null
  | .flag b => flag b
  | .number n => number (.sound n)
  | .text s => text (.sound s)
  | .list items => list (ofItems items) .closed
  | .object members => object (ofMembers members) .closed

def ofItems : List Json → List Document
  | [] => []
  | j :: js => ofJson j :: ofItems js

def ofMembers : List (String × Json) → List (Leaf String × Document)
  | [] => []
  | (k, j) :: ms => (.sound k, ofJson j) :: ofMembers ms
end

end Document
end EntityScripts.Json
