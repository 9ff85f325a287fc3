import SchemaLedger.Failure
import SchemaLedger.Tree.Disk

namespace SchemaLedger

inductive Argument
  | word (t : Text)
  | script
deriving DecidableEq

def Argument.word? : Argument → Option Text
  | .word t => some t
  | .script => none

/-- One start of an outside tool.  `script` is the content of the temporary file
while the tool runs. -/
structure Call where
  command : Text
  arguments : List Argument
  script : Option Text := none
deriving DecidableEq

inductive Reply
  | missing
  | denied
  /-- The tool ended and wrote these bytes, each kind of newline turned into one. -/
  | ended (code : Int) (output complaints : Bytes)
deriving DecidableEq

/-- The variables of the environment; a name occurs once. -/
abbrev Environment := List (Text × Text)

structure World where
  disk : Disk
  environment : Environment := []
  /-- The outside tools, as the answer to each call. -/
  tools : Call → Reply := fun _ => .missing
  /-- The settings documents that go too deep for the stack of the machine. -/
  overflows : Text → Bool := fun _ => false
  /-- The temporary scripts that exist, the newest first. -/
  scripts : List Text := []
  calls : List Call := []
  output : Text := []
  complaints : Text := []

/-- A part of the program that may change the world and may go wrong.  The world
is kept when it goes wrong, because what was written before an error stays. -/
abbrev Act := ExceptT Error (StateM World)

namespace Act

def runIn (act : Act α) (w : World) : Except Error α × World :=
  act.run.run w

def look (f : Disk → Except Error α) : Act α :=
  ExceptT.mk fun w => (f w.disk, w)

def fail (f : Failure) : Act α :=
  throw (.failure f)

/-- A change of the disk; `report` says what its refusal means. -/
def change (f : Disk → Except PathFault Unit × Disk) (report : SystemFault → Failure) :
    Act Unit :=
  ExceptT.mk fun w =>
    match f w.disk with
    | (.ok (), disk) => (.ok (), { w with disk })
    | (.error fault, disk) => (.error (fault.reported report), { w with disk })

def changeAnyway (f : Disk → Disk) : Act Unit :=
  modify fun w => { w with disk := f w.disk }

def encode (t : Text) : Act Bytes :=
  match Utf8.encodeStrict t with
  | .ok data => return data
  | .error fault => throw (.unencodable fault)

def print (t : Text) : Act Unit := do
  let _ ← encode t
  modify fun w => { w with output := w.output ++ t }

def printLine (t : Text) : Act Unit :=
  print (t ++ [.char '\n'])

/-- Complains in a line of its own.  Where complaints go every text is taken. -/
def complain (t : Text) : Act Unit :=
  modify fun w => { w with complaints := w.complaints ++ t ++ [.char '\n'] }

/-- Undoes with `undo` when `act` ends in a failure, which then goes on. -/
def onFailure (act : Act α) (undo : Act Unit) : Act α :=
  tryCatch act fun
    | .failure f => do undo; throw (.failure f)
    | .fault f => throw (.fault f)

end Act

def unreported (result : Except SystemFault α) : Except Error α :=
  result.mapError fun fault => .fault (.system fault)

end SchemaLedger
