import SchemaLedger.Artifact.Write
import SchemaLedger.Cli.Command
import SchemaLedger.Environment.Load
import SchemaLedger.Script.Assemble
import SchemaLedger.Script.Check
import SchemaLedger.Settings.Load
import SchemaLedger.Tool

namespace SchemaLedger
namespace Cli

inductive Ending
  | finished (code : Nat)
  | refused (exit : Exit)

/-- What a switch was given, if it is there and not empty. -/
def given? : Option SwitchValue → Option Text
  | some (.text t) => if t.isEmpty then none else some t
  | some .nothing | none => none

/-- The root of the artifacts: as the command line says, else as the settings
say. -/
def rootOf (settings : Settings) (path : Option SwitchValue) : Path :=
  Path.ofText ((given? path).getD settings.path)

def loadSettings (given : Option SwitchValue) : Act Settings :=
  ExceptT.mk fun w => (Settings.loadIn w ((given? given).map Path.ofText), w)

/-! ## Commands -/

def readDump (name : Text) : Act Text :=
  Act.look fun d => (d.readText (Path.ofText name)).mapError <|
    Fault.reported fun cause => .file (.unreadableDump name cause)

def dumpFor (settings : Settings) (existing : Bool) (dump : Option SwitchValue) :
    Act (Option Text) := do
  match given? dump with
  | some name => return some (← readDump name)
  | none => if existing then return some (← Tool.dumpSchema settings) else return none

def makeTree (settings : Settings) (path : Option Text) (existing : Bool)
    (dump : Option SwitchValue) : Act Unit := do
  let dump ← dumpFor settings existing dump
  let written ← Artifact.createTree (rootOf settings (path.map .text)) dump settings.noise
  unless written.isEmpty do
    Act.printLine ("[init] wrote ".text ++ Text.ofNat written.length ++ " files".text)
  Act.printLine "Initialized successfully".text

def scriptFor (root : Path) (fake minify : Bool) : Act Text :=
  Act.look (Script.build · root (if fake then .recording else .applying) minify)

/-- Applies a tree to the database, or prints the script that would do it. -/
def applyTree (settings : Settings) (path : Option SwitchValue) (dryRun fake minify : Bool) :
    Act Unit := do
  let root := rootOf settings path
  if dryRun then Act.print (← scriptFor root fake minify)
  else
    Tool.runScript (← scriptFor root fake true) settings
    Act.printLine "Changes applied successfully".text

/-- Compiles a tree to a file or checks that file, or prints the script. -/
def compileTree (settings : Settings) (path out : Option SwitchValue)
    (check fake minify : Bool) : Act Nat := do
  let sql ← scriptFor (rootOf settings path) fake minify
  match check, given? out with
  | true, none => Act.fail .checkWithoutFile
  | true, some out => return if ← Script.check (Path.ofText out) sql then 0 else 1
  | false, some out =>
    Artifact.writeText (Path.ofText out) sql
    Act.printLine ("Generated ".text ++ out)
    return 0
  | false, none =>
    Act.print sql
    return 0

def seedDatabase (settings : Settings) (path : Option SwitchValue) : Act Unit := do
  let script ← Act.look (Script.build · (rootOf settings path) .seeding true)
  Tool.runScript script settings
  Act.printLine "Database seeded successfully".text

def createArtifact (settings : Settings) (creation : Creation) (path : Option SwitchValue) :
    Act Unit := do
  let root := rootOf settings path
  let created ← match creation with
    | .migration => Artifact.createMigration root
    | .seed => Artifact.createSeed root
    | .object kind name force => Artifact.createObject root kind.name name force
  Act.printLine ("Created ".text ++ created.text)

def Command.perform (settings : Settings) : Command → Act Nat
  | .init path existing dump => do
    makeTree settings path existing dump
    return 0
  | .apply path dryRun fake minify => do
    applyTree settings path dryRun fake minify
    return 0
  | .compile path out check fake minify => compileTree settings path out check fake minify
  | .seed path => do
    seedDatabase settings path
    return 0
  | .create creation path => do
    createArtifact settings creation path
    return 0

/-! ## Reports -/

def Command.heading : Command → Text
  | .init .. => "Error during initialization:".text
  | .apply .. => "Error applying changes:".text
  | .compile .. => "Error compiling changes:".text
  | .seed .. => "Error seeding database:".text
  | .create .. => "Error during creation:".text

def report (heading : Text) (failure : Failure) : Act Unit := do
  let messages := failure.message :: failure.cause?.toList.map Fault.message
  (heading :: messages.map ("  - ".text ++ ·)).forM Act.complain

/-- Loads the settings and performs a command.  A failure is reported and ends
with exit code one. -/
def Request.perform (request : Request) : Act Nat :=
  tryCatch
    (do
      let settings ← loadSettings request.settings
      request.command.perform settings)
    fun
      | .failure failure => do
        report request.command.heading failure
        return 1
      | .fault fault => throw (.fault fault)

def run (line : List Text) : Act Ending := do
  EnvFile.load
  match Request.read line with
  | .error exit => return .refused exit
  | .ok request => return .finished (← request.perform)

end Cli
end SchemaLedger
