import EntityScripts.Plan
import EntityScripts.Script.Container
import EntityScripts.Script.Names
import EntityScripts.Script.Snippet

/-!
Routines: a header and statements. The calls of accessors that the routines share are here too.
-/
namespace EntityScripts

namespace Script

structure Routine where
  header : Header
  body : List Statement

def Routine.text (r : Routine) (stamp : String) : String :=
  r.header.text stamp ++ bodyText r.body

def Routine.block (r : Routine) (stamp : String) : Block :=
  ⟨some r.header.name, r.text stamp⟩

def argument (i : Nat) : Expr := .name ("argument" ++ Nat.repr i)

def isPresent (e : Expr) : Expr := .call "isOptionalPresent" [e]

end Script

namespace Plan

open Script

def names (p : Plan) : Names := .ofEntity p.name

def getCall (p : Plan) (f : PlannedField) : Expr :=
  .call (p.names.getter f.name) [.name p.names.object]

def setCall (p : Plan) (f : PlannedField) (value : Expr) : Statement :=
  .run (.call (p.names.setter f.name) [.name p.names.object, value])

def objectParam (p : Plan) : Param := ⟨p.names.object, p.names.className⟩

end Plan

def blankUnless (nothing : Bool) : List Script.Statement :=
  if nothing then [] else [.blank]

end EntityScripts
