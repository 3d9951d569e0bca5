import EntityScripts.Text.Search

/-!
Headers of routines: the comment lines that name a routine, its parameters and its result, and carry
the stamp of the run that made it.
-/
namespace EntityScripts.Script

def functionMark : String := "///@function"

structure Param where
  name : String
  type : String
deriving DecidableEq

structure Header where
  name : String
  description : String
  params : List Param
  /-- What the routine gives back, with the name it has inside. -/
  result : Option Param
deriving DecidableEq

/-- A type with `::` where a comma and a blank separate arguments. -/
def joinArguments : List Char → List Char
  | ',' :: ' ' :: cs => ':' :: ':' :: joinArguments cs
  | c :: cs => c :: joinArguments cs
  | [] => []

def Param.line (tag : String) (p : Param) : String :=
  tag ++ " \x7b" ++ String.ofList (joinArguments p.type.toList) ++ "\x7d " ++ p.name ++ "\n"

def concat : List String → String
  | [] => ""
  | s :: ss => s ++ concat ss

namespace Header

def text (h : Header) (stamp : String) : String :=
  functionMark ++ " " ++ h.name ++ "(" ++ Text.joinWith ", " (h.params.map (·.name)) ++ ")\n" ++
  "///@description " ++ h.description ++ "\n" ++
  concat (h.params.map (Param.line "///@param")) ++
  concat (h.result.toList.map (Param.line "///@return")) ++
  "///@throws \x7bException\x7d\n" ++
  "///@generated \x7b" ++ stamp ++ "\x7d\n\n"

end Header
end EntityScripts.Script
