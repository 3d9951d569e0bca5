import EntityScripts.TypeExpr.Container

/-!
Type expressions of fields, and their canonical text: no blanks, and `::` between arguments.
-/
namespace EntityScripts

inductive TypeExpr where
  | named (name : String)
  | optional (inner : TypeExpr)
  | array (element : TypeExpr)
  | container (kind : ContainerKind) (args : List TypeExpr)

namespace TypeExpr

mutual
def chars : TypeExpr → List Char
  | named n => n.toList
  | optional e => "Optional<".toList ++ e.chars ++ ['>']
  | array e => e.chars ++ ['[', ']']
  | container k args => k.name.toList ++ '<' :: argChars args ++ ['>']

def argChars : List TypeExpr → List Char
  | [] => []
  | [e] => e.chars
  | e :: f :: rest => e.chars ++ ':' :: ':' :: argChars (f :: rest)
end

def text (e : TypeExpr) : String :=
  String.ofList e.chars

def name? : TypeExpr → Option String
  | named n => some n
  | _ => none

def isOptional : TypeExpr → Bool
  | optional _ => true
  | _ => false

end TypeExpr
end EntityScripts
