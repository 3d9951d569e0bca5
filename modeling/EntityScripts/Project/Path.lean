/-!
Paths as they are written. Joining and taking the parent work on the text and never look at files.
-/
namespace EntityScripts

structure Path where
  text : String
deriving DecidableEq

namespace Path

def isAbsolute (p : Path) : Bool :=
  p.text.toList.head? = some '/'

/-- The path `q` seen from `p`. An absolute `q` stays as it is; an empty one adds a separator. -/
def join (p q : Path) : Path :=
  if q.isAbsolute || p.text = "" then q
  else if p.text.toList.getLast? = some '/' then ⟨p.text ++ q.text⟩
  else ⟨p.text ++ "/" ++ q.text⟩

def trimEnd : List Char → List Char
  | ['/'] => ['/']
  | '/' :: cs => trimEnd cs
  | ['.', '/'] => ['/']
  | '.' :: '/' :: cs => trimEnd cs
  | cs => cs

def parent (p : Path) : Path :=
  ⟨String.ofList (trimEnd (p.text.toList.reverse.dropWhile (· ≠ '/'))).reverse⟩

def splitSlash : List Char → List (List Char)
  | [] => [[]]
  | c :: cs =>
    if c = '/' then [] :: splitSlash cs
    else match splitSlash cs with
      | [] => [[c]]
      | part :: parts => (c :: part) :: parts

/-- The parts between the separators; an empty last part comes from a separator at the end. -/
def parts (p : Path) : List String :=
  (splitSlash p.text.toList).map String.ofList

def names (p : Path) : List String :=
  p.parts.filter (· ≠ "")

def endsInSeparator (p : Path) : Bool :=
  p.text.toList.getLast? = some '/'

/-- Whether a part stands for a directory by its place alone. -/
def isDots (part : String) : Bool := part = "." || part = ".."

end Path
end EntityScripts
