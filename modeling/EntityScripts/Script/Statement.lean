import EntityScripts.Text.Search

/-!
The part of the target language that scripts are made of, and its text.
-/
namespace EntityScripts.Script

inductive Expr where
  | name (s : String)
  /-- A text literal, as it stands between its quotes. -/
  | literal (raw : String)
  | call (routine : String) (args : List Expr)
  /-- An element of an array or data structure, by the accessor sign of its kind. -/
  | element (owner accessor : String) (indices : List String)
  | negation (e : Expr)

namespace Expr

mutual
def text : Expr → String
  | name s => s
  | literal raw => "\"" ++ raw ++ "\""
  | call routine args => routine ++ "(" ++ argsText args ++ ")"
  | element owner accessor indices =>
    owner ++ "[" ++ accessor ++ " " ++ Text.joinWith ", " indices ++ "]"
  | negation e => "!" ++ e.text

def argsText : List Expr → String
  | [] => ""
  | [e] => e.text
  | e :: f :: rest => e.text ++ ", " ++ argsText (f :: rest)
end

end Expr

/-- What stands before the brace of a block. -/
inductive Head where
  | when (condition : Expr)
  | whileLeft (left : Expr)
  | count (var : String) (bound : Expr)
  | keys (var map : String)

def Head.text : Head → String
  | .when condition => "if (" ++ condition.text ++ ")"
  | whileLeft left => "while (" ++ left.text ++ " > 0)"
  | count var bound =>
    "for (var " ++ var ++ " = 0; " ++ var ++ " < " ++ bound.text ++ "; " ++ var ++ "++)"
  | keys var map =>
    "for (var " ++ var ++ " = ds_map_find_first(" ++ map ++ "); !is_undefined(" ++ var ++ "); " ++
      var ++ " = ds_map_find_next(" ++ map ++ ", " ++ var ++ "))"

inductive Statement where
  | declare (var : String) (value : Expr)
  | run (e : Expr)
  | assign (target value : Expr)
  | return (value : Expr)
  | blank
  | block (head : Head) (body : List Statement)

/-- A block if the condition is to be tested, the statements themselves otherwise. -/
def guardedBy (tested : Bool) (condition : Expr) (body : List Statement) : List Statement :=
  if tested then [.block (.when condition) body] else body

end EntityScripts.Script
