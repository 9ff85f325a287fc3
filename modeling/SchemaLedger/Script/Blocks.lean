import SchemaLedger.Script.Basic

/-!
# The blocks of a script

A compiled script says by its markers which lines come from which artifact.
Two scripts can therefore be compared artifact by artifact.
-/

namespace SchemaLedger
namespace Script

def startsBlock? (line : Text) : Option Text :=
  let opening := "-- RUN ".text
  let ending := " --".text
  let source := (line.drop opening.length).take (line.length - opening.length - ending.length)
  if opening.isPrefixOf line && ending.isSuffixOf line && !source.isEmpty then some source
  else none

abbrev Blocks := List (Text × List Text)

namespace Blocks

def ensure (blocks : Blocks) (source : Text) : Blocks :=
  if blocks.any (·.1 = source) then blocks else blocks ++ [(source, [])]

def append (blocks : Blocks) (source line : Text) : Blocks :=
  blocks.map fun (other, lines) => (other, if other = source then lines ++ [line] else lines)

/-- The blocks after one line, and the source whose block it leaves open.  Only
the marker with the very source of the open block closes it. -/
def read (blocks : Blocks) (opened : Option Text) (line : Text) : Blocks × Option Text :=
  match startsBlock? line with
  | some source => (blocks.ensure source, some source)
  | none =>
    match opened with
    | none => (blocks, none)
    | some source =>
      if line = Fragment.doneMarker source then (blocks, none)
      else (blocks.append source line, some source)

end Blocks

/-- The blocks of a compiled script.  A function that runs in two passes has the
lines of both in one block; a minified script has no markers and no blocks. -/
def blocks (script : Text) : Blocks :=
  ((Text.lines script).foldl (fun (read, opened) line => Blocks.read read opened line) ([], none)).1

/-! ## Drift -/

inductive Drift
  | added
  | removed
  | changed
deriving DecidableEq, Repr

def Drift.name : Drift → Text
  | .added => "added".text
  | .removed => "removed".text
  | .changed => "changed".text

def driftOf (existing generated : Blocks) (source : Text) : Option Drift :=
  match existing.lookup source, generated.lookup source with
  | none, _ => some .added
  | _, none => some .removed
  | some old, some new => if old = new then none else some .changed

/-- The artifacts whose blocks differ, in code-point order of their sources. -/
def drift (existing generated : Text) : List (Drift × Text) :=
  let old := blocks existing
  let new := blocks generated
  let sources := ((old.map (·.1) ++ new.map (·.1)).eraseDups).mergeSort Text.atMost
  sources.filterMap fun source => (driftOf old new source).map fun drift => (drift, source)

end Script
end SchemaLedger
