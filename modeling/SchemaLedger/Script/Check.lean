import SchemaLedger.Diff.Unified
import SchemaLedger.Script.Blocks
import SchemaLedger.Tree.Text
import SchemaLedger.World

namespace SchemaLedger

namespace Script

def differenceLimit : Nat := 200

def shortened (lines : List Text) : List Text :=
  if lines.length > differenceLimit then
    lines.take differenceLimit ++ ["... (diff truncated)".text]
  else lines

def driftReport (path : Path) (existing generated : Text) : List Text :=
  let sources := (drift existing generated).map fun (drift, source) =>
    "[check] ".text ++ drift.name ++ ": ".text ++ source
  let difference := Diff.unified path.text ("generated:".text ++ path.text)
    (Text.lines existing) (Text.lines generated)
  ("[check] drift detected: ".text ++ path.text) :: sources ++ shortened difference

/-- Whether a file holds exactly the generated script; otherwise the difference
goes to the complaints. -/
def check (path : Path) (generated : Text) : Act Bool := do
  if ← Act.look fun d => unreported (d.isPresent path) then
    let existing ← Act.look fun d => (d.readText path).mapError <|
      Fault.reported fun cause => .file (.unreadable path cause)
    if existing = generated then return true
    else
      (driftReport path existing generated).forM Act.complain
      return false
  else
    Act.complain ("[check] missing file: ".text ++ path.text)
    return false

end Script
end SchemaLedger
