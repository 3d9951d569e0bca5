import EntityScripts.Json.Decoder

/-!
Decoders of records. A record is an object, whose unknown keys are passed over, or a list of its
fields in the declared order. A record decoder knows its fields and how to build the record from
them, and record decoders are combined field by field.
-/
namespace EntityScripts.Json

structure Slots where
  find : Nat → String → Except Fault (Option Document)
  absent : Nat → String → Fault
  named : Bool

structure Record (α : Type) where
  /-- The names of the fields, each with a test of its value. -/
  fields : List (String × Decoder Unit)
  /-- Builds the value from its fields, of which the first has this position. -/
  build : Source → Slots → Nat → Except Fault α

namespace Record
variable {α β : Type}

def map (f : α → β) (r : Record α) : Record β :=
  ⟨r.fields, fun src slots i => f <$> r.build src slots i⟩

def both (r : Record (α → β)) (s : Record α) : Record β :=
  ⟨r.fields ++ s.fields, fun src slots i => do
    let f ← r.build src slots i
    let a ← s.build src slots (i + r.fields.length)
    pure (f a)⟩

instance : Applicative Record where
  pure a := ⟨[], fun _ _ _ => .ok a⟩
  map := map
  seq r s := both r (s ())

/-- One field; `absent` says what stands for it when it is left out. -/
def field (name : String) (dec : Decoder α) (absent : Slots → Option α) : Record α :=
  ⟨[(name, fun src d => do let _ ← dec src d; pure ())], fun src slots i => do
    match ← slots.find i name with
    | some d => dec src d
    | none =>
      match absent slots with
      | some a => pure a
      | none => .error (slots.absent i name)⟩

def required (name : String) (dec : Decoder α) : Record α :=
  field name dec fun _ => none

/-- A field that may be null, or left out of an object. -/
def nullable (name : String) (dec : Decoder α) : Record (Option α) :=
  field name (decodeOption dec) fun slots => if slots.named then some none else none

def defaulted (name : String) (dec : Decoder α) (value : α) : Record α :=
  field name dec fun _ => some value

end Record

/-- The members that a record knows, in the order of the object. A second member for one field is a
fault even before its value is looked at. -/
def gather {α : Type} (r : Record α) (src : Source) (seen : List (String × Document)) :
    List (Leaf String × Document) → Except Fault (List (String × Document))
  | [] => .ok []
  | (k, d) :: ms => do
    let k ← k.value
    match r.fields.lookup k with
    | none =>
      d.skip
      gather r src seen ms
    | some test =>
      if (seen.lookup k).isSome then .error (.duplicateField k)
      else
        test src d
        return (k, d) :: (← gather r src ((k, d) :: seen) ms)

def Slots.ofMembers (members : List (String × Document)) : Slots :=
  ⟨fun _ name => .ok (members.lookup name), fun _ name => .missingField name, true⟩

/-- The fields of a list. One that is missing is looked for at the end of the list first, and the
list counts as ending at its position. -/
def Slots.ofItems (describe : String) (count : Nat) (items : List Document) (close : Close) :
    Slots :=
  { find := fun i _ =>
      match items[i]? with
      | some d => .ok (some d)
      | none => do close.ofList; pure none
    absent := fun i _ => .wrongLength i (.record describe count)
    named := false }

def endRecord (src : Source) (count : Nat) (items : List Document) (close : Close) :
    Except Fault Unit :=
  if items.length ≤ count then close.ofFullList
  else match src with
    | .text _ => .error .trailingCharacters
    | .tree => .error (.wrongLength items.length .fewer)
    | .held => .error (.wrongLength items.length (.exactly count))

def Record.decodeItems {α : Type} (describe : String) (r : Record α) (src : Source)
    (items : List Document) (close : Close) : Except Fault α := do
  let a ← r.build src (.ofItems describe r.fields.length items close) 0
  endRecord src r.fields.length items close
  pure a

def Record.decodeMembers {α : Type} (r : Record α) (src : Source)
    (members : List (Leaf String × Document)) (close : Close) : Except Fault α := do
  let found ← gather r src [] members
  close.ofObject
  r.build src (.ofMembers found) 0

def Record.decode {α : Type} (name : String) (r : Record α) : Decoder α
  | src, .object members close => do r.decodeMembers (← src.enter) members close
  | src, .list items close => do r.decodeItems ("struct " ++ name) (← src.enter) items close
  | src, .keyless => do
    let _ ← src.enter
    .error .keyNotText
  | _, d => mismatch (.record name) d

end EntityScripts.Json
