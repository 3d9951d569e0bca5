import EntityScripts.Script.Statement

/-!
The body of a routine as text. Every line is indented by one tab more than the number of blocks that
are open around it.
-/
namespace EntityScripts.Script

structure Body where
  text : String
  depth : Nat
deriving DecidableEq

def tabs (n : Nat) : String :=
  String.ofList (List.replicate n '\t')

namespace Body

def empty : Body := ⟨"", 0⟩

def line (t : String) (b : Body) : Body :=
  { b with text := b.text ++ tabs (b.depth + 1) ++ t ++ "\n" }

def blank (b : Body) : Body :=
  { b with text := b.text ++ "\n" }

def openBlock (head : String) (b : Body) : Body :=
  let b := b.line (head ++ " \x7b")
  { b with depth := b.depth + 1 }

/-- Closes the innermost block; with none open the brace stands at the outermost level. -/
def closeBlock (b : Body) : Body :=
  Body.line "\x7d" { b with depth := b.depth - 1 }

end Body

mutual
def Statement.write (b : Body) : Statement → Body
  | .declare var value => b.line ("var " ++ var ++ " = " ++ value.text ++ ";")
  | .run e => b.line (e.text ++ ";")
  | .assign target value => b.line (target.text ++ " = " ++ value.text ++ ";")
  | .return value => b.line ("return " ++ value.text ++ ";")
  | .blank => b.blank
  | .block head body => (writeAll (b.openBlock head.text) body).closeBlock

def writeAll (b : Body) : List Statement → Body
  | [] => b
  | s :: ss => writeAll (s.write b) ss
end

def bodyText (ss : List Statement) : String :=
  (writeAll .empty ss).text

mutual
/-- A statement closes the blocks it opens. -/
theorem depth_write (b : Body) : ∀ s : Statement, (s.write b).depth = b.depth
  | .declare .. | .run _ | .assign .. | .return _ => rfl
  | .blank => rfl
  | .block head body => by
    simp [Statement.write, Body.closeBlock, Body.openBlock, Body.line, depth_writeAll _ body]

theorem depth_writeAll (b : Body) : ∀ ss : List Statement, (writeAll b ss).depth = b.depth
  | [] => rfl
  | s :: ss => by rw [writeAll, depth_writeAll _ ss, depth_write b s]
end

end EntityScripts.Script
