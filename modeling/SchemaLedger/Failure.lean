import SchemaLedger.Dump.Scan
import SchemaLedger.Fault

namespace SchemaLedger

inductive FileFailure
  | unreadableDump (name : Text) (cause : Fault)
  | unusableName (path : Path)
  | unreadable (path : Path) (cause : Fault)
  | notText (path : Path) (cause : Utf8.Fault)
  | unlistable (path : Path) (cause : SystemFault)
  | unwritable (path : Path) (cause : SystemFault)
  | uncreatable (root : Path) (cause : SystemFault)
  | missingRoot (root : Path)
  | missingSeeds (folder : Path)
  | unstorable (statement : Dump.Statement)
deriving DecidableEq

inductive SettingsFailure
  | unreadable (path : Path) (cause : SystemFault)
  | notYaml (path : Path)
  | notMapping (path : Path)
  | keyNotMapping (key : Text)
  | keyNotList (key : Text)
deriving DecidableEq

inductive CreationFailure
  | rootExists (root : Path)
  | unknownKind (name : Text)
  | invalidName (kind : ObjectKind) (name : Text)
  | objectExists (kind : ObjectKind) (name : Text)
deriving DecidableEq

inductive ToolFailure
  | missing (command : Text)
  | notStarted (command : Text)
  /-- The tool that dumps a schema ended with an error. -/
  | dumpEnded (command : Text) (code : Int) (complaints : Text)
  /-- The tool that runs a script ended with an error. -/
  | scriptEnded (command : Text) (code : Int) (complaints : Text)
deriving DecidableEq

inductive Failure
  | file (failure : FileFailure)
  | settings (failure : SettingsFailure)
  | creation (failure : CreationFailure)
  | dump (fault : Dump.Fault)
  | tool (failure : ToolFailure)
  | checkWithoutFile
deriving DecidableEq

/-! ## Messages -/

def FileFailure.message : FileFailure → Text
  | .unreadableDump name _ => "Failed to read dump file '".text ++ name ++ [.char '\'']
  | .unusableName path => "Unusable file name: ".text ++ path.text
  | .unreadable path _ => "Failed to read ".text ++ path.text
  | .notText path _ => path.text ++ " is not valid UTF-8".text
  | .unlistable path _ => "Failed to list ".text ++ path.text
  | .unwritable path _ => "Failed to write ".text ++ path.text
  | .uncreatable root _ => "Failed to create ".text ++ root.text
  | .missingRoot root =>
    "Directory '".text ++ root.text ++ "' not found. Have you run 'pgm init'?".text
  | .missingSeeds folder =>
    "Directory '".text ++ folder.text ++ "' not found. Have you run 'pgm create seed'?".text
  | .unstorable s =>
    "Cannot store ".text ++ s.kind.name ++ " '".text ++ s.name ++ "' (line ".text ++
      Text.ofInt s.line ++ ") as a file".text

def SettingsFailure.message : SettingsFailure → Text
  | .unreadable path _ => "Failed to read config file '".text ++ path.text ++ [.char '\'']
  | .notYaml path => "Invalid YAML in config file '".text ++ path.text ++ [.char '\'']
  | .notMapping path => "Config file '".text ++ path.text ++ "' must contain a mapping".text
  | .keyNotMapping key => [.char '\''] ++ key ++ "' must be a mapping".text
  | .keyNotList key => [.char '\''] ++ key ++ "' must be a list".text

def CreationFailure.message : CreationFailure → Text
  | .rootExists root => "Directory '".text ++ root.text ++ "' already exists".text
  | .unknownKind name => "Unknown object type '".text ++ name ++ [.char '\'']
  | .invalidName kind name =>
    "Invalid ".text ++ kind.name ++ " name '".text ++ name ++ [.char '\'']
  | .objectExists kind name =>
    kind.title ++ " '".text ++ name ++ "' already exists (use --force to reset it)".text

def ToolFailure.message : ToolFailure → Text
  | .missing command =>
    command ++ " not found. Please ensure it is installed and in your PATH.".text
  | .notStarted command => "Failed to run ".text ++ command
  | .dumpEnded command code complaints =>
    command ++ " failed with exit code ".text ++ Text.ofInt code ++ ": ".text ++
      Text.trim complaints
  | .scriptEnded command code _ =>
    command ++ " command failed with exit code: ".text ++ Text.ofInt code

def Failure.message : Failure → Text
  | .file failure => failure.message
  | .settings failure => failure.message
  | .creation failure => failure.message
  | .dump fault => fault.message
  | .tool failure => failure.message
  | .checkWithoutFile => "--check requires --out".text

/-! ## Causes -/

def Failure.cause? : Failure → Option Fault
  | .file (.unreadableDump _ cause) => some cause
  | .file (.unreadable _ cause) => some cause
  | .file (.notText _ cause) => some (.encoding cause)
  | .file (.unlistable _ cause) => some (.system cause)
  | .file (.unwritable _ cause) => some (.system cause)
  | .file (.uncreatable _ cause) => some (.system cause)
  | .settings (.unreadable _ cause) => some (.system cause)
  | .settings (.notYaml _) => some .document
  | .tool (.missing command) => some (.system ⟨.noEntry, command⟩)
  | .tool (.notStarted command) => some (.system ⟨.accessDenied, command⟩)
  | _ => none

/-- How a run of some part of the program goes wrong. -/
inductive Error
  | failure (reported : Failure)
  | fault (escaped : Fault)
deriving DecidableEq

def Error.unencodable (fault : Utf8.Unencodable) : Error :=
  .fault (.unusable (.unencodable fault))

/-- What comes of a request that failed: a failure, unless the operating system
was never asked. -/
def Fault.reported (report : Fault → Failure) : Fault → Error
  | .unusable reason => .fault (.unusable reason)
  | fault => .failure (report fault)

def PathFault.reported (report : SystemFault → Failure) : PathFault → Error
  | .refused fault => .failure (report fault)
  | .unusable reason => .fault (.unusable reason)

def Error.message : Error → Text
  | .failure reported => reported.message
  | .fault escaped => escaped.message

end SchemaLedger
