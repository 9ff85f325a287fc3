import SchemaLedger.Artifact.Kind
import SchemaLedger.Digest.Md5
import SchemaLedger.Failure
import SchemaLedger.Text.Digit
import SchemaLedger.Tree.Disk
import SchemaLedger.World

namespace SchemaLedger

structure SqlFile where
  path : Path
  name : Text
  body : Text
  digest : Text
deriving DecidableEq

namespace Artifact

/-- The name that a file is recorded under: the file name without its suffix.
A name of full stops only, or with a quote in it, is not used. -/
def nameOf (path : Path) : Except Error Text :=
  if Text.isOnlyDots path.stem || path.stem.contains '\'' then
    .error (.failure (.file (.unusableName path)))
  else .ok path.stem

def isStorable (name : Text) : Bool :=
  !Text.isOnlyDots name && name.all fun c => c != '/' && c != '\\' && c != '\''

def read (d : Disk) (path : Path) : Except Error SqlFile := do
  let name ← nameOf path
  match d.read path with
  | .error fault => .error (fault.reported fun cause => .file (.unreadable path (.system cause)))
  | .ok data =>
    match Utf8.decode data with
    | .error fault => .error (.failure (.file (.notText path fault)))
    | .ok body => .ok ⟨path, name, body, Md5.hexDigest data⟩

def isSql (d : Disk) (path : Path) : Except Error Bool := do
  return (← unreported (d.isFile path)) && path.suffix = Layout.suffix

def select (test : Path → Except Error Bool) : List Path → Except Error (List Path)
  | [] => .ok []
  | path :: rest => do
    let chosen ← test path
    let more ← select test rest
    return if chosen then path :: more else more

/-- The files of SQL in a folder in the order of their names; a missing folder
has none. -/
def list (d : Disk) (folder : Path) : Except Error (List Path) := do
  if ← unreported (d.isFolder folder) then
    match d.list folder with
    | .error fault => .error (fault.reported fun cause => .file (.unlistable folder cause))
    | .ok names =>
      let chosen ← select (isSql d) (names.map folder.child)
      return chosen.mergeSort fun p q => Text.atMost p.name q.name
  else return []

def readAll (d : Disk) (folder : Path) : Except Error (List SqlFile) := do
  (← list d folder).mapM (read d)

def requireRoot (d : Disk) (root : Path) : Except Error Unit := do
  if ← unreported (d.isFolder root) then return ()
  else .error (.failure (.file (.missingRoot root)))

/-! ## Numbered artifacts -/

/-- The number that a file name starts a sequence with, if its stem is digits.
Digits that are not decimal cannot be read. -/
def numberOf (path : Path) : Except Error (Option Nat) :=
  if Text.isDigits path.stem then
    match Text.decimal? path.stem with
    | some n => .ok (some n)
    | none => .error (.fault (.scalar (.notWhole 10 path.stem)))
  else .ok none

def nextName (d : Disk) (folder : Path) : Except Error Text := do
  let numbers ← (← list d folder).mapM numberOf
  let highest := (numbers.filterMap id).foldl max 0
  return Layout.fileName (Text.padZeros Layout.sequenceWidth (Text.ofNat (highest + 1)))

end Artifact
end SchemaLedger
