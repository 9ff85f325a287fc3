import SchemaLedger.Path
import SchemaLedger.Text.Quoted
import SchemaLedger.Tree.Name

namespace SchemaLedger

inductive Refusal
  | noEntry
  | accessDenied
  | exists
  | notFolder
  | isFolder
  | nameTooLong
deriving DecidableEq, Repr

namespace Refusal

def number : Refusal → Nat
  | .noEntry => 2
  | .accessDenied => 13
  | .exists => 17
  | .notFolder => 20
  | .isFolder => 21
  | .nameTooLong => 36

def text : Refusal → Text
  | .noEntry => "No such file or directory".text
  | .accessDenied => "Permission denied".text
  | .exists => "File exists".text
  | .notFolder => "Not a directory".text
  | .isFolder => "Is a directory".text
  | .nameTooLong => "File name too long".text

end Refusal

structure SystemFault where
  refusal : Refusal
  subject : Text
deriving DecidableEq

def SystemFault.message (f : SystemFault) : Text :=
  "[Errno ".text ++ Text.ofNat f.refusal.number ++ "] ".text ++ f.refusal.text ++
    ": ".text ++ Text.quoted f.subject

/-- Why a request that names a path fails. -/
inductive PathFault
  | refused (fault : SystemFault)
  | unusable (reason : Unusable)
deriving DecidableEq

end SchemaLedger
