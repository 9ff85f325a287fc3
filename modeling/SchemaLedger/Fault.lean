import SchemaLedger.Scalar.Fault
import SchemaLedger.Text.Utf8
import SchemaLedger.Tree.Fault

/-!
# Faults

What goes wrong below the commands: in the file system, in the bytes of a file,
in the settings document, in a number.  A failure that a command reports may
have a fault as its cause; a fault that no failure takes in ends the program.
-/

namespace SchemaLedger

inductive Fault
  | system (fault : SystemFault)
  | unusable (reason : Unusable)
  | encoding (fault : Utf8.Fault)
  | document
  | scalar (fault : Scalar.Fault)
  | stage (number : Int)
  | variableName
deriving DecidableEq

def Fault.message : Fault → Text
  | .system fault => fault.message
  | .unusable reason => reason.message
  | .encoding fault => fault.message
  | .document => "the document cannot be read".text
  | .scalar fault => fault.message
  | .stage number => Text.ofInt number ++ " is not a valid Stage".text
  | .variableName => "illegal environment variable name".text

def PathFault.fault : PathFault → Fault
  | .refused fault => .system fault
  | .unusable reason => .unusable reason

end SchemaLedger
