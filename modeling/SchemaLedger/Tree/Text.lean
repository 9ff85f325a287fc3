import SchemaLedger.Fault
import SchemaLedger.Text.Line
import SchemaLedger.Tree.Disk

namespace SchemaLedger
namespace Disk

/-- The text of a file: UTF-8 with every kind of newline read as one. -/
def readText (d : Disk) (path : Path) : Except Fault Text :=
  match d.read path with
  | .error fault => .error fault.fault
  | .ok data =>
    match Utf8.decode data with
    | .error fault => .error (.encoding fault)
    | .ok t => .ok (Text.unifyNewlines t)

end Disk
end SchemaLedger
