import EntityScripts.Project.Path

/-!
File trees: directories and files by their location. A path is followed part by part from the root
or from the working directory, and every part that is gone through has to be a directory.
-/
namespace EntityScripts

/-- The names on the way down from the root. -/
abbrev Location := List String

inductive Entry where
  | directory
  | file (content : ByteArray)

instance : DecidableEq Entry
  | .directory, .directory => isTrue rfl
  | .directory, .file _ => isFalse Entry.noConfusion
  | .file _, .directory => isFalse Entry.noConfusion
  | .file a, .file b =>
    match ByteArray.instDecidableEq a b with
    | isTrue h => isTrue (congrArg Entry.file h)
    | isFalse h => isFalse fun e => h (Entry.file.inj e)

inductive AccessError where
  | notFound
  | notDirectory
  | isDirectory
  | nameTooLong
  | nulInName
  | notText
deriving DecidableEq

def AccessError.message : AccessError → String
  | notFound => "No such file or directory (os error 2)"
  | notDirectory => "Not a directory (os error 20)"
  | isDirectory => "Is a directory (os error 21)"
  | nameTooLong => "File name too long (os error 36)"
  | nulInName => "file name contained an unexpected NUL byte"
  | notText => "stream did not contain valid UTF-8"

structure FileTree where
  /-- What is there, the latest first. The root is always a directory. -/
  entries : List (Location × Entry)
  workingDirectory : Location

namespace FileTree

def entry? (t : FileTree) (l : Location) : Option Entry :=
  if l = [] then some .directory else t.entries.lookup l

def maxPartLength : Nat := 255

def follow (t : FileTree) (l : Location) : List String → Except AccessError Location
  | [] => .ok l
  | part :: parts =>
    match t.entry? l with
    | none => .error .notFound
    | some (.file _) => .error .notDirectory
    | some .directory =>
      if part = "" ∨ part = "." then t.follow l parts
      else if part = ".." then t.follow l.dropLast parts
      else if maxPartLength < part.utf8ByteSize then .error .nameTooLong
      else t.follow (l ++ [part]) parts

def origin (t : FileTree) (p : Path) : Location :=
  if p.isAbsolute then [] else t.workingDirectory

def maxPathLength : Nat := 4095

def checkText (p : Path) : Except AccessError Unit :=
  if '\x00' ∈ p.text.toList then .error .nulInName
  else if p.text = "" then .error .notFound
  else if maxPathLength < p.text.utf8ByteSize then .error .nameTooLong
  else .ok ()

/-- The location that a path leads to; nothing need be there. -/
def locate (t : FileTree) (p : Path) : Except AccessError Location := do
  checkText p
  t.follow (t.origin p) p.parts

def entryAt? (t : FileTree) (p : Path) : Option Entry :=
  match t.locate p with
  | .ok l => t.entry? l
  | .error _ => none

def exists? (t : FileTree) (p : Path) : Bool :=
  (t.entryAt? p).isSome

def isFile (t : FileTree) (p : Path) : Bool :=
  match t.entryAt? p with
  | some (.file _) => true
  | _ => false

def read (t : FileTree) (p : Path) : Except AccessError ByteArray := do
  match t.entry? (← t.locate p) with
  | some (.file content) => .ok content
  | some .directory => .error .isDirectory
  | none => .error .notFound

def readText (t : FileTree) (p : Path) : Except AccessError String := do
  match String.fromUTF8? (← t.read p) with
  | some s => .ok s
  | none => .error .notText

def put (t : FileTree) (l : Location) (e : Entry) : FileTree :=
  { t with entries := (l, e) :: t.entries.filter fun (k, _) => k ≠ l }

/-- Where a file is written. A path that ends in a separator names a directory, whatever is there,
if only it is in one. -/
def writable (t : FileTree) (p : Path) : Except AccessError Location := do
  checkText p
  match p.names.getLast? with
  | none => .error .isDirectory
  | some name =>
    if Path.isDots name then t.locate p
    else
      let home ← t.follow (t.origin p) (p.names.dropLast ++ ["."])
      if p.endsInSeparator then .error .isDirectory else t.follow home [name]

/-- Writes a whole file, which is made if its directory is there. -/
def write (t : FileTree) (p : Path) (content : ByteArray) : Except AccessError FileTree := do
  let l ← t.writable p
  match t.entry? l with
  | some .directory => .error .isDirectory
  | _ => .ok (t.put l (.file content))

def writeText (t : FileTree) (p : Path) (s : String) : Except AccessError FileTree :=
  t.write p s.toUTF8

def empty (workingDirectory : Location) : FileTree :=
  ⟨(List.range workingDirectory.length).map fun n => (workingDirectory.take (n + 1), .directory),
    workingDirectory⟩

def stations (l : Location) : List String → List Location
  | [] => [l]
  | part :: parts =>
    if part = "" ∨ part = "." then stations l parts
    else if part = ".." then l :: stations l.dropLast parts
    else l :: stations (l ++ [part]) parts

def stationsOf (t : FileTree) (p : Path) : List Location :=
  stations (t.origin p) p.parts

def makeAlong (t : FileTree) (l : Location) : List String → Except AccessError FileTree
  | [] => .ok t
  | part :: parts => do
    let l ← t.follow l [part]
    match t.entry? l with
    | some .directory => t.makeAlong l parts
    | some (.file _) => .error .notDirectory
    | none => (t.put l .directory).makeAlong l parts

def makeDirectories (t : FileTree) (p : Path) : Except AccessError FileTree := do
  checkText p
  t.makeAlong (t.origin p) p.names

def place (t : FileTree) (p : Path) (content : ByteArray) : Except AccessError FileTree := do
  checkText p
  (← t.makeAlong (t.origin p) (p.names.filter (· ≠ ".")).dropLast).write p content

/-- Removes a file, or a directory with all that it holds. A directory that is named by dots is only
emptied. -/
def remove (t : FileTree) (p : Path) : Except AccessError FileTree := do
  let l ← t.locate p
  let stays := ((p.names.getLast?).map Path.isDots).getD true
  let kept := t.entries.filter fun e => e.1.take l.length ≠ l || (stays && e.1 = l)
  pure ⟨kept, t.workingDirectory⟩

def changedSince (t old : FileTree) : List (Location × ByteArray) :=
  t.entries.filterMap fun (l, e) =>
    match e with
    | .directory => none
    | .file content => if old.entry? l = some (.file content) then none else some (l, content)

end FileTree
end EntityScripts
