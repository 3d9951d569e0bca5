import EntityScripts.Json.Fault

/-!
Writing JSON, on one line or over several. A text is written with the short escapes where there are
such, other control characters by their code point, and everything else as it is.
-/
namespace EntityScripts.Json

def writeChar (c : Char) : List Char :=
  if c = '"' then ['\\', '"']
  else if c = '\\' then ['\\', '\\']
  else if c = '\x08' then ['\\', 'b']
  else if c = '\x0c' then ['\\', 'f']
  else if c = '\n' then ['\\', 'n']
  else if c = '\r' then ['\\', 'r']
  else if c = '\t' then ['\\', 't']
  else if c.toNat < 16 then ['\\', 'u', '0', '0', '0'] ++ Nat.toDigits 16 c.toNat
  else if c.toNat < 32 then ['\\', 'u', '0', '0'] ++ Nat.toDigits 16 c.toNat
  else [c]

def writeText (s : String) : List Char :=
  '"' :: s.toList.flatMap writeChar ++ ['"']

/-- How values are laid out: what comes before an item at a depth, and behind the colon of a key. -/
structure Layout where
  lineBreak : Nat → List Char
  afterColon : List Char

def Layout.compact : Layout := ⟨fun _ => [], []⟩

def Layout.indented (unit : String) : Layout :=
  ⟨fun depth => '\n' :: (List.replicate depth unit.toList).flatten, [' ']⟩

mutual
def writeAt (layout : Layout) (depth : Nat) : Json → List Char
  | .null => "null".toList
  | .flag true => "true".toList
  | .flag false => "false".toList
  | .number n => n.text.toList
  | .text s => writeText s
  | .list [] => ['[', ']']
  | .list (j :: js) =>
    '[' :: layout.lineBreak (depth + 1) ++ writeAt layout (depth + 1) j ++
      writeItems layout (depth + 1) js ++ layout.lineBreak depth ++ [']']
  | .object [] => ['\x7b', '\x7d']
  | .object ((k, j) :: ms) =>
    '\x7b' :: layout.lineBreak (depth + 1) ++ writeText k ++ ':' :: layout.afterColon ++
      writeAt layout (depth + 1) j ++ writeMembers layout (depth + 1) ms ++
      layout.lineBreak depth ++ ['\x7d']

def writeItems (layout : Layout) (depth : Nat) : List Json → List Char
  | [] => []
  | j :: js => ',' :: layout.lineBreak depth ++ writeAt layout depth j ++ writeItems layout depth js

def writeMembers (layout : Layout) (depth : Nat) : List (String × Json) → List Char
  | [] => []
  | (k, j) :: ms =>
    ',' :: layout.lineBreak depth ++ writeText k ++ ':' :: layout.afterColon ++
      writeAt layout depth j ++ writeMembers layout depth ms
end

def compact (j : Json) : String :=
  String.ofList (writeAt .compact 0 j)

def indented (unit : String) (j : Json) : String :=
  String.ofList (writeAt (.indented unit) 0 j)

end EntityScripts.Json
