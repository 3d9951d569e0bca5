import EntityScripts.Command.Outcome
import EntityScripts.Stamp
import Std.Time.DateTime.Timestamp

/-!
The program: it reads the files that a command looks at, carries the command out, and writes what
has changed.
-/
namespace EntityScripts.Main

def readLocation (t : FileTree) (l : Location) : IO FileTree := do
  let here ← IO.currentDir
  let mut t := t
  for n in [1:l.length + 1] do
    let part := l.take n
    if (t.entry? part).isNone then
      let file := here / ("/" ++ Text.joinWith "/" part)
      if ← file.isDir then t := t.put part .directory
      else if ← file.pathExists then t := t.put part (.file (← IO.FS.readBinFile file))
  pure t

/-- Reads everything that a command looks at. The configuration names the model, and the model the
scripts, so there are three rounds. -/
def readTree (t : FileTree) (c : Command) : IO FileTree := do
  let mut t := t
  for _ in [0:3] do
    for p in c.paths t do
      for l in t.stationsOf p do
        t ← readLocation t l
  pure t

def currentStamp : IO String := do
  let now ← Std.Time.Timestamp.now
  let nanoseconds := now.toNanosecondsSinceUnixEpoch.val.toNat
  pure (Stamp.ofUnix (nanoseconds / 1000000000) (nanoseconds % 1000000000))

def printLog (e : LogEntry) : IO Unit :=
  if e.level = .debug then pure ()
  else IO.eprintln ("[" ++ e.level.name ++ "] " ++ e.message)

def readEnvironment : IO (NameMap String) := do
  let names := ["GMLGEN_MODEL", "GMLGEN_PROJECT"]
  let found ← names.mapM fun name => do
    pure ((← IO.getEnv name).map fun value => (name, value))
  pure (.ofList (found.filterMap id))

def usage : String :=
  "usage: gmlgen entities [--config FILE] [--model FILE] [--project DIR] [--entity NAME]...\n" ++
  "                       [--unknown-types permissive|reject] [--labels FILE]\n" ++
  "       gmlgen dialogue --name NAME --input FILE [--lang CODE] [--output FILE]"

def perform (c : Command) : IO UInt32 := do
  let here ← IO.currentDir
  let workingDirectory := (here.toString.splitOn "/").filter (· ≠ "")
  let start ← readLocation (.empty workingDirectory) workingDirectory
  let tree ← readTree start c
  let out := c.carryOut tree (← currentStamp)
  for (l, content) in out.tree.changedSince tree do
    IO.FS.writeBinFile (here / ("/" ++ Text.joinWith "/" l)) content
  out.logs.forM printLog
  IO.print out.output
  IO.eprint out.errors
  pure out.code.toUInt32

end EntityScripts.Main

open EntityScripts in
def main (args : List String) : IO UInt32 := do
  match Command.ofArgs (← Main.readEnvironment) args with
  | some c => Main.perform c
  | none =>
    IO.eprintln Main.usage
    pure Command.usageCode.toUInt32
