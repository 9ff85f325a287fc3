import SchemaLedger.Cli.Run

/-!
# The program

Runs a command line on the working folder and carries the changes out.  What the
folder holds is listed on standard input, one path a line, folders with a slash
at their end.  Outside tools are missing in every run, so commands that need the
database say so.
-/

namespace SchemaLedger
namespace Program

partial def readLines (input : IO.FS.Stream) : IO (List String) := do
  let line ← input.getLine
  if line.isEmpty then return []
  else return (line.dropEndWhile (· == '\n')).toString :: (← readLines input)

/-- A text on the terminal, its surrogates written as escapes. -/
def shown (t : Text) : String :=
  String.join <| t.map fun
    | .char c => c.toString
    | c => "\\u" ++ (Text.hex 4 c.toNat).string

/-- The disk with what a line lists; a folder that is not listed is made for what
is inside it. -/
def addListed (d : Disk) (line : String) : IO Disk := do
  let path := Path.ofText line.text
  if line.endsWith "/" then return (d.ensureFolders path).2
  else
    let data := (← IO.FS.readBinFile line).toList
    match (d.ensureFolders path.parent).2.write path data with
    | .ok d => return d
    | .error fault => throw (IO.userError (shown fault.fault.message))

def systemPath (place : Location) : String :=
  shown (Text.joined [.char '/'] (place.reverse.map Name.text))

/-- Removes what is no longer in the tree, the innermost first. -/
def removeGone (before after : Tree) : IO Unit := do
  for (place, entry) in before.entries.reverse do
    if (after.at? place).isNone then
      match entry with
      | .folder | .sealed => IO.FS.removeDir (systemPath place)
      | .file _ | .locked => IO.FS.removeFile (systemPath place)

/-- Writes what is new in the tree or has changed, folders before their
content. -/
def writeNew (before after : Tree) : IO Unit := do
  for (place, entry) in after.entries do
    if before.at? place ≠ some entry then
      match entry with
      | .folder | .sealed => IO.FS.createDir (systemPath place)
      | .file data => IO.FS.writeBinFile (systemPath place) data.toByteArray
      | .locked => IO.FS.writeBinFile (systemPath place) .empty

def conclude (result : Except Error Cli.Ending) (w : World) : IO UInt32 := do
  let output ← IO.getStdout
  let complaints ← IO.getStderr
  let printAll : IO Unit := do
    output.putStr (shown w.output)
    complaints.putStr (shown w.complaints)
  match result with
  | .ok (.finished code) =>
    printAll
    return code.toUInt32
  | .ok (.refused exit) =>
    unless exit.message.isEmpty do
      complaints.putStrLn (shown exit.message)
    return exit.status.toUInt32
  | .error error =>
    printAll
    complaints.putStrLn (shown error.message)
    return 1

end Program
end SchemaLedger

open SchemaLedger in
def main (arguments : List String) : IO UInt32 := do
  let listed ← Program.readLines (← IO.getStdin)
  let disk ← listed.foldlM Program.addListed ⟨Tree.empty, []⟩
  let (result, after) := (Cli.run (arguments.map String.text)).runIn { disk }
  Program.removeGone disk.tree after.disk.tree
  Program.writeNew disk.tree after.disk.tree
  Program.conclude result after
