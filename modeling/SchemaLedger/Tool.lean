import SchemaLedger.Settings.Basic
import SchemaLedger.Text.Digit
import SchemaLedger.Text.Line
import SchemaLedger.World

namespace SchemaLedger
namespace Tool

def callIn (w : World) (command : Text) (arguments : List Argument) : Call :=
  { command, arguments, script := if arguments.contains .script then w.scripts.head? else none }

def unusable? (command : Text) (arguments : List Argument) : Option Unusable :=
  (command :: arguments.filterMap Argument.word?).findSome? Text.unusable?

def written (output complaints : Bytes) : Except Utf8.Fault (Text × Text) := do
  let output ← Utf8.decode output
  let complaints ← Utf8.decode complaints
  return (output, complaints)

/-- Starts a tool.  A tool that cannot be started is a failure. -/
def start (command : Text) (arguments : List Argument) : Act (Int × Text × Text) := do
  match unusable? command arguments with
  | some reason => throw (.fault (.unusable reason))
  | none =>
    let w ← get
    let call := callIn w command arguments
    set { w with calls := w.calls ++ [call] }
    match w.tools call with
    | .missing => Act.fail (.tool (.missing command))
    | .denied => Act.fail (.tool (.notStarted command))
    | .ended code output complaints =>
      match written output complaints with
      | .error fault => throw (.fault (.encoding fault))
      | .ok (output, complaints) => return (code, output, complaints)

def dumpSchema (settings : Settings) : Act Text := do
  let tool := settings.dumper
  let (code, output, complaints) ← start tool.command (tool.arguments.map .word)
  if code = 0 then return output
  else Act.fail (.tool (.dumpEnded tool.command code complaints))

/-! ## What the runner says -/

def afterLineNumber? : Text → Option Text
  | .char ':' :: rest =>
    if (rest.takeWhile isDecimalDigit).isEmpty then none
    else Text.after? [.char ':', .char ' '] (rest.dropWhile isDecimalDigit)
  | _ => none

def afterPlace? : Text → Option Text
  | [] => none
  | c :: rest =>
    match afterLineNumber? (c :: rest) with
    | some message => some message
    | none => if c = '\n' then none else afterPlace? rest

/-- A line that the runner prints begins with its name and the place in the
script that it is about; here without these. -/
def withoutPlace (line : Text) : Text :=
  ((Text.after? "psql:".text line).bind afterPlace?).getD line

/-- The arguments behind those of the settings: the script, and that the runner
stops at the first error. -/
def scriptArguments : List Argument :=
  [.word "-f".text, .script, .word "-v".text, .word "ON_ERROR_STOP=1".text]

/-- Puts a script into a temporary file for the time of `act`.  The file is there
before the script is written into it, and it stays when that goes wrong. -/
def withScript (sql : Text) (act : Act α) : Act α := do
  modify fun w => { w with scripts := [] :: w.scripts }
  let _ ← Act.encode sql
  modify fun w => { w with scripts := sql :: w.scripts.tail }
  let result ← tryCatch (Except.ok <$> act) fun e => return .error e
  modify fun w => { w with scripts := w.scripts.tail }
  MonadExcept.ofExcept result

/-- Runs a script and passes on what the runner says, before it is decided
whether that went well. -/
def runScript (sql : Text) (settings : Settings) : Act Unit := do
  let tool := settings.runner
  let (code, _, complaints) ← withScript sql <|
    start tool.command (tool.arguments.map .word ++ scriptArguments)
  (Text.lines complaints).forM fun line => Act.printLine (withoutPlace line)
  if code = 0 then return ()
  else Act.fail (.tool (.scriptEnded tool.command code complaints))

end Tool
end SchemaLedger
