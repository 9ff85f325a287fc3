import SchemaLedger.Artifact.Kind
import SchemaLedger.Cli.Arguments

namespace SchemaLedger
namespace Cli

inductive Creation
  | migration
  | seed
  | object (kind : ObjectKind) (name : Text) (force : Bool)
deriving DecidableEq, Repr

inductive Command
  | init (path : Option Text) (existing : Bool) (dump : Option SwitchValue)
  | apply (path : Option SwitchValue) (dryRun fake minify : Bool)
  | compile (path out : Option SwitchValue) (check fake minify : Bool)
  | seed (path : Option SwitchValue)
  | create (creation : Creation) (path : Option SwitchValue)
deriving DecidableEq, Repr

structure Request where
  settings : Option SwitchValue
  command : Command
deriving DecidableEq, Repr

/-! ## Grammars -/

def program : Text := "pgm".text

def helpSwitch : Switch := ⟨["-h".text, "--help".text], .help, []⟩

def flag (name : Text) (excludes : List Text := []) : Switch := ⟨[name], .flag, excludes⟩

def setting (name : Text) (excludes : List Text := []) : Switch := ⟨[name], .value, excludes⟩

def pathSwitch : Switch := setting "--path".text

def programFor (words : List Text) : Text :=
  Text.joined [.char ' '] (program :: words)

def commands : List Text :=
  ["init".text, "apply".text, "compile".text, "seed".text, "create".text]

def creations : List Text :=
  ["migration".text, "seed".text, "function".text, "trigger".text, "view".text]

def topGrammar : Grammar :=
  { program
    switches := [helpSwitch, setting "--config".text]
    operand := .command "command".text commands }

def initGrammar : Grammar :=
  { program := programFor ["init".text]
    switches :=
      [helpSwitch, flag "--existing-db".text ["--dump".text],
       setting "--dump".text ["--existing-db".text]]
    operand := .optional }

def applyGrammar : Grammar :=
  { program := programFor ["apply".text]
    switches :=
      [helpSwitch, pathSwitch, flag "--dry-run".text, flag "--fake".text,
       flag "--minify".text] }

def compileGrammar : Grammar :=
  { program := programFor ["compile".text]
    switches :=
      [helpSwitch, pathSwitch, setting "--out".text, flag "--check".text,
       flag "--fake".text, flag "--minify".text] }

def seedGrammar : Grammar :=
  { program := programFor ["seed".text], switches := [helpSwitch, pathSwitch] }

def createGrammar : Grammar :=
  { program := programFor ["create".text]
    switches := [helpSwitch]
    operand := .command "kind".text creations }

def numberedGrammar (creation : Text) : Grammar :=
  { program := programFor ["create".text, creation], switches := [helpSwitch, pathSwitch] }

def objectGrammar (creation : Text) : Grammar :=
  { program := programFor ["create".text, creation]
    switches := [helpSwitch, flag "--force".text, pathSwitch]
    operand := .required "name".text }

/-! ## Reading a command line -/

/-- The command and its arguments behind a grammar that asks for one. -/
def Given.commandLine (g : Given) : Text × List Text :=
  g.command.getD ([], [])

def readCreation (line : List Text) : Except Exit (Command × List Text) := do
  let given ← createGrammar.read line
  let (creation, rest) := given.commandLine
  let path := "--path".text
  match ObjectKind.ofName? creation with
  | some kind =>
    let object ← (objectGrammar creation).read rest
    let made := Creation.object kind (object.operand.getD []) (object.has "--force".text)
    return (.create made (object.value? path), given.extras ++ object.extras)
  | none =>
    let numbered ← (numberedGrammar creation).read rest
    let made := if creation = "migration".text then Creation.migration else .seed
    return (.create made (numbered.value? path), given.extras ++ numbered.extras)

/-- The command of some name from its arguments, and what fits nowhere. -/
def readCommand (name : Text) (line : List Text) : Except Exit (Command × List Text) := do
  let path := "--path".text
  if name = "init".text then
    let g ← initGrammar.read line
    return (.init g.operand (g.has "--existing-db".text) (g.value? "--dump".text), g.extras)
  else if name = "apply".text then
    let g ← applyGrammar.read line
    return (.apply (g.value? path) (g.has "--dry-run".text) (g.has "--fake".text)
      (g.has "--minify".text), g.extras)
  else if name = "compile".text then
    let g ← compileGrammar.read line
    return (.compile (g.value? path) (g.value? "--out".text) (g.has "--check".text)
      (g.has "--fake".text) (g.has "--minify".text), g.extras)
  else if name = "seed".text then
    let g ← seedGrammar.read line
    return (.seed (g.value? path), g.extras)
  else readCreation line

/-- What a command line asks for.  Arguments that fit nowhere are an error only
when everything else was in order. -/
def Request.read (line : List Text) : Except Exit Request := do
  let given ← topGrammar.read line
  let (name, rest) := given.commandLine
  let (command, extras) ← readCommand name rest
  let extras := given.extras ++ extras
  if extras.isEmpty then return ⟨given.value? "--config".text, command⟩
  else .error (.usage program (.unrecognized extras))

end Cli
end SchemaLedger
