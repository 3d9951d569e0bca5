import EntityScripts.Text.Blank

/-!
Tokens of a type expression. Blanks may stand between tokens and nowhere else; a name is the longest
run of ASCII letters, digits and underscores.
-/
namespace EntityScripts.TypeExpr

open Text

inductive Token where
  | name (cs : List Char)
  | openArgs
  | closeArgs
  | comma
  | colons
  | brackets
  | stray (c : Char)
deriving DecidableEq

def isNameChar (c : Char) : Bool :=
  c.isAlphanum || c = '_'

def nextToken (c : Char) (cs : List Char) : Token × List Char :=
  if isNameChar c then (.name (c :: cs.takeWhile isNameChar), cs.dropWhile isNameChar)
  else match c, cs with
    | '<', cs => (.openArgs, cs)
    | '>', cs => (.closeArgs, cs)
    | ',', cs => (.comma, cs)
    | ':', ':' :: cs => (.colons, cs)
    | '[', ']' :: cs => (.brackets, cs)
    | c, cs => (.stray c, cs)

def Token.chars : Token → List Char
  | name cs => cs
  | openArgs => ['<']
  | closeArgs => ['>']
  | comma => [',']
  | colons => [':', ':']
  | brackets => ['[', ']']
  | stray c => [c]

theorem chars_nextToken (c : Char) (cs : List Char) :
    (nextToken c cs).1.chars ++ (nextToken c cs).2 = c :: cs := by
  unfold nextToken
  split
  · simp [Token.chars, List.takeWhile_append_dropWhile]
  · split <;> simp [Token.chars]

theorem length_nextToken_le (c : Char) (cs : List Char) :
    (nextToken c cs).2.length ≤ cs.length := by
  unfold nextToken
  split
  · exact (List.dropWhile_sublist _).length_le
  · split <;> simp

def byteLength : List Char → Nat
  | [] => 0
  | c :: cs => c.utf8Size + byteLength cs

structure Lexeme where
  token : Token
  /-- How many bytes stand before it. -/
  offset : Nat
  rest : List Char

def lexemes (offset : Nat) : List Char → List Lexeme
  | [] => []
  | c :: cs =>
    if isBlank c then lexemes (offset + c.utf8Size) cs
    else
      let next := nextToken c cs
      ⟨next.1, offset, c :: cs⟩ :: lexemes (offset + byteLength next.1.chars) next.2
termination_by cs => cs.length
decreasing_by
  · simp
  · exact Nat.lt_succ_of_le (length_nextToken_le c cs)

end EntityScripts.TypeExpr
