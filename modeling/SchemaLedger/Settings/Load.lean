import SchemaLedger.Settings.Basic
import SchemaLedger.Tree.Text
import SchemaLedger.World
import SchemaLedger.Yaml.Document

namespace SchemaLedger

open Yaml (Document Value)

/-- The text form of a value, which a whole number of very many digits has
not. -/
def settingText (d : Document) (v : Value) : Except Error Text :=
  (d.text v).mapError fun fault => .fault (.scalar fault)

def settingTextOr (d : Document) (default : Text) : Option Value → Except Error Text
  | none => .ok default
  | some v => settingText d v

def settingsError (failure : SettingsFailure) : Error :=
  .failure (.settings failure)

namespace ToolCommand

def argumentItems (d : Document) (key : Text) :
    Option Value → Except Error (Option (List Value))
  | none => .ok none
  | some v =>
    match d.items? v with
    | some items => .ok (some items)
    | none => .error (settingsError (.keyNotList (key ++ ".args".text)))

/-- The tool that an entry describes; `key` names the entry in messages. -/
def ofValue (d : Document) (v : Value) (default : ToolCommand) (key : Text) :
    Except Error ToolCommand :=
  match v, d.entries? v with
  | .null, _ => .ok default
  | _, none => .error (settingsError (.keyNotMapping key))
  | _, some entries => do
    let items ← argumentItems d key (Value.lookup entries "args".text)
    let command ← settingTextOr d default.command (Value.lookup entries "command".text)
    let arguments ← match items with
      | none => pure default.arguments
      | some items => items.mapM (settingText d)
    return ⟨command, arguments⟩

end ToolCommand

namespace Settings

def noiseOf (d : Document) (default : List Text) (v : Value) : Except Error (List Text) :=
  if d.isNothing v then .ok default
  else match d.entries? v with
    | none => .error (settingsError (.keyNotMapping "dump".text))
    | some entries =>
      match Value.lookup entries "noise_lines".text with
      | none | some .null => .ok default
      | some lines =>
        match d.items? lines with
        | none => .error (settingsError (.keyNotList "dump.noise_lines".text))
        | some items => items.mapM (settingText d)

def ofEntries (d : Document) (entries : List (Value × Value)) : Except Error Settings := do
  let entry (key : Text) : Value := (Value.lookup entries key).getD .null
  let s : Settings := {}
  let path ← settingTextOr d s.path (Value.lookup entries "path".text)
  let runner ← ToolCommand.ofValue d (entry "psql".text) s.runner "psql".text
  let dumper ← ToolCommand.ofValue d (entry "pg_dump".text) s.dumper "pg_dump".text
  let noise ← noiseOf d s.noise (entry "dump".text)
  return ⟨path, runner, dumper, noise⟩

def ofDocument (path : Path) (d : Document) : Except Error Settings :=
  match d.root, d.entries? d.root with
  | .null, _ => .ok {}
  | _, some entries => ofEntries d entries
  | _, none => .error (settingsError (.notMapping path))

/-- What a fault of the document means; one of its characters or of a literal in
it is no failure that is reported. -/
def documentError (path : Path) : Fault → Error
  | .system fault => settingsError (.unreadable path fault)
  | .document => settingsError (.notYaml path)
  | fault => .fault fault

def ofFile (d : Disk) (path : Path) : Except Error Settings := do
  let document ← (do Document.read (← d.readText path)).mapError (documentError path)
  ofDocument path document

def defaultPath : Path :=
  Path.ofText "pgm.yaml".text

/-- The file of settings that a run reads. -/
def sourceOf (named : Option Path) : Path :=
  named.getD defaultPath

/-- The settings of a disk.  A file that is named must be there; otherwise the
default file is read if it is there. -/
def load (d : Disk) (named : Option Path) : Except Error Settings :=
  match named with
  | some path => ofFile d path
  | none => do
    if ← unreported (d.isPresent defaultPath) then ofFile d defaultPath else return {}

/-- The settings of a run, as far as the stack reaches. -/
def loadIn (w : World) (named : Option Path) : Except Error Settings :=
  match w.disk.readText (sourceOf named) with
  | .ok t => if w.overflows t then .error (.fault (.scalar .endless)) else load w.disk named
  | .error _ => load w.disk named

end Settings
end SchemaLedger
