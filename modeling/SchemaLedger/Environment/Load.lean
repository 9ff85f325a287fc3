import SchemaLedger.Environment.File
import SchemaLedger.Tree.Text
import SchemaLedger.World

namespace SchemaLedger
namespace EnvFile

/-! ## References -/

structure Reference where
  name : Text
  default : Text := []
deriving DecidableEq, Repr

/-- The reference that a text behind a dollar sign begins with, and its length:
a name in braces, and perhaps a default behind a colon and a hyphen. -/
def reference? (t : Text) : Option (Reference × Nat) := do
  let rest ← Text.after? [.char '\x7b'] t
  let name := rest.takeWhile fun (c : CodePoint) => c != '\x7d' && c != ':'
  match rest.drop name.length with
  | .char '\x7d' :: _ => return (⟨name, []⟩, name.length + 2)
  | .char ':' :: .char '-' :: rest =>
    let default := rest.takeWhile (· != .char '\x7d')
    if default.length < rest.length then
      return (⟨name, default⟩, name.length + default.length + 4)
    else none
  | _ => none

/-- A text with its references replaced; `skip` characters belong to the last
one. -/
def expand (meaning : Reference → Text) : (skip : Nat) → Text → Text
  | _, [] => []
  | skip + 1, _ :: rest => expand meaning skip rest
  | 0, c :: rest =>
    match if c = '$' then reference? rest else none with
    | some (reference, length) => meaning reference ++ expand meaning length rest
    | none => c :: expand meaning 0 rest

/-! ## Values -/

/-- The variables that a file names, in the order of their first statements. -/
abbrev Variables := List (Text × Option Text)

/-- What a reference stands for: a variable of the environment, else one of the
file so far, which is empty if it has no value. -/
def meaning (environment : Environment) (known : Variables) (r : Reference) : Text :=
  match environment.lookup r.name, known.lookup r.name with
  | some value, _ => value
  | none, some value => value.getD []
  | none, none => r.default

def assign (known : Variables) (name : Text) (value : Option Text) : Variables :=
  if known.any (·.1 = name) then
    known.map fun (other, old) => (other, if other = name then value else old)
  else known ++ [(name, value)]

def variablesOf (environment : Environment) (statements : List Statement) : Variables :=
  statements.foldl (fun known s =>
    match s with
    | .entry name value =>
      assign known name (value.map (expand (meaning environment known) 0))
    | .broken _ => known) []

/-! ## Loading -/

def checkVariable (name value : Text) : Except Fault Unit :=
  match [name, value].findSome? Text.unencodable? with
  | some fault => .error (.unusable (.unencodable fault))
  | none =>
    if [name, value].any (·.contains (.char '\x00')) then .error (.unusable .null)
    else if name.contains '=' then .error .variableName
    else .ok ()

/-- Adds variables to the environment.  Those that are there stay as they are,
and those without a value are left out. -/
def addVariables : Variables → Act Unit
  | [] => return ()
  | (name, value) :: rest => do
    match value, (← get).environment.lookup name with
    | some value, none =>
      Act.look fun _ => (checkVariable name value).mapError .fault
      modify fun w => { w with environment := w.environment ++ [(name, value)] }
    | _, _ => pure ()
    addVariables rest

def brokenRemark (line : Nat) : Text :=
  "python-dotenv could not parse statement starting at line ".text ++ Text.ofNat line

def complainAll : List Statement → Act Unit
  | [] => return ()
  | .broken line :: rest => do
    Act.complain (brokenRemark line)
    complainAll rest
  | .entry _ _ :: rest => complainAll rest

def folders : Location → List Location
  | [] => [[]]
  | name :: above => (name :: above) :: folders above

def fileName : Text := ".env".text

def find? (d : Disk) : Option Path :=
  ((folders d.working).map fun place =>
  (⟨.top, (place.map Name.text).reverse ++ [fileName]⟩ : Path)).find?
    fun path => (d.isFile path).toOption = some true

def load : Act Unit := do
  let text ← Act.look fun d =>
    match find? d with
    | none => .ok []
    | some path => (d.readText path).mapError .fault
  let statements := statements text
  complainAll statements
  addVariables (variablesOf (← get).environment statements)

end EnvFile
end SchemaLedger
