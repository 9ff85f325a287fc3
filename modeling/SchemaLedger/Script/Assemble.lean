import SchemaLedger.Artifact.Write
import SchemaLedger.Script.Basic

namespace SchemaLedger
namespace Script

def trackingTables : Text :=
  ("\n-- Create tables if they don't exist\n" ++
    "CREATE TABLE IF NOT EXISTS pgm_migration (\n" ++
    "    name TEXT PRIMARY KEY,\n" ++
    "    applied_at TIMESTAMP WITH TIME ZONE DEFAULT CURRENT_TIMESTAMP\n" ++
    ");\n" ++
    "CREATE TABLE IF NOT EXISTS pgm_function (\n" ++
    "    name TEXT PRIMARY KEY,\n" ++
    "    hash TEXT NOT NULL,\n" ++
    "    applied_at TIMESTAMP WITH TIME ZONE DEFAULT CURRENT_TIMESTAMP\n" ++
    ");\n" ++
    "CREATE TABLE IF NOT EXISTS pgm_trigger (\n" ++
    "    name TEXT PRIMARY KEY,\n" ++
    "    hash TEXT NOT NULL,\n" ++
    "    applied_at TIMESTAMP WITH TIME ZONE DEFAULT CURRENT_TIMESTAMP\n" ++
    ");\n" ++
    "CREATE TABLE IF NOT EXISTS pgm_view (\n" ++
    "    name TEXT PRIMARY KEY,\n" ++
    "    hash TEXT NOT NULL,\n" ++
    "    applied_at TIMESTAMP WITH TIME ZONE DEFAULT CURRENT_TIMESTAMP\n" ++
    ");\n").text

/-! ## Fragments of artifacts -/

def sourceOf (folder name : Text) : Text :=
  folder ++ .char '/' :: name

/-- The fragment of an object that is replaced when its digest changed.  Only
the last of two passes records the digest, so that both see the same table. -/
def objectFragment (stage : Stage) (table label : Text) (records : Bool) (file : SqlFile) :
    Fragment :=
  let source := sourceOf label file.name
  { stage
    body := .plain file.body
    source := some source
    guard := some (.outdated table file.name file.digest)
    onApply := if records then
        [.upsert table file.name file.digest, .notice ("Applied ".text ++ source)]
      else []
    onSkip := if records then
        [.notice ("Skipped ".text ++ source ++ " (no changes)".text)]
      else [] }

def ofFolder (d : Disk) (folder : Path) (table : Text) (records : Bool) (stage : Stage) :
    Except Error (List Fragment) := do
  return (← Artifact.readAll d folder).map (objectFragment stage table folder.name records)

def migrationFragment (stage : Stage) (file : SqlFile) : Fragment :=
  { stage
    body := .plain file.body
    source := some (sourceOf Layout.migrations file.path.name)
    guard := some (.unrecorded file.name)
    onApply := [.record file.name, .notice ("Applied migration ".text ++ file.name)]
    onSkip :=
      [.notice ("Skipped migration ".text ++ file.name ++ " (already applied)".text)] }

/-! ## Migrations of a tree -/

def bootstrapPath? (d : Disk) (root : Path) : Except Error (Option Path) := do
  let path := Artifact.bootstrapPath root
  return if ← unreported (d.isFile path) then some path else none

def migrationPaths (d : Disk) (root : Path) : Except Error (List Path) := do
  return (← Artifact.list d (root.child Layout.migrations)).filter (·.name != Layout.bootstrap)

def ofBootstrap (d : Disk) (root : Path) : Except Error (List Fragment) := do
  match ← bootstrapPath? d root with
  | none => return []
  | some path => return [migrationFragment .bootstrap (← Artifact.read d path)]

def ofMigrations (d : Disk) (root : Path) : Except Error (List Fragment) := do
  let files ← (← migrationPaths d root).mapM (Artifact.read d)
  return files.map (migrationFragment .migrations)

/-! ## Whole scripts -/

def schemaTag : Text := "pgm".text

def seedTag : Text := "pgm_seed".text

/-- The script that applies a tree.  Functions and triggers come in two passes:
unchecked first, so that forward references resolve, checked at the end. -/
def assemble (d : Disk) (root : Path) : Except Error Script := do
  Artifact.requireRoot d root
  let functions ← Artifact.readAll d (root.child ObjectKind.function.folder)
  let triggers ← Artifact.readAll d (root.child ObjectKind.trigger.folder)
  let pass (kind : ObjectKind) (records : Bool) (stage : Stage) : List SqlFile → List Fragment :=
    List.map (objectFragment stage kind.table kind.folder records)
  let bootstrap ← ofBootstrap d root
  let migrations ← ofMigrations d root
  let views ← ofFolder d (root.child ObjectKind.view.folder) ObjectKind.view.table true .views
  let opening : Fragment :=
    { stage := .prelude
      body := .plain ("SET LOCAL check_function_bodies = false;\n" ++
        "SET LOCAL client_min_messages = notice;").text }
  let tables : Fragment := { stage := .trackingTables, body := .plain trackingTables }
  let check : Fragment :=
    { stage := .checkBodies, body := .plain "SET LOCAL check_function_bodies = true;".text }
  return {
    tag := schemaTag
    fragments :=
      [opening, tables] ++ bootstrap ++
        pass .function false .functionsUnchecked functions ++
        pass .trigger false .triggersUnchecked triggers ++
        migrations ++ views ++ [check] ++
        pass .function true .functionsChecked functions ++
        pass .trigger true .triggersChecked triggers }

/-- The fragment that records a migration without running it. -/
def recordedMigration (stage : Stage) (path : Path) : Except Error Fragment := do
  let name ← Artifact.nameOf path
  return { stage
           body := .ensureRecorded name
           source := some (sourceOf Layout.migrations path.name)
           onApply := [.notice ("Fake applied migration ".text ++ name)] }

def recordedObject (stage : Stage) (kind : ObjectKind) (file : SqlFile) : Fragment :=
  { stage
    body := .upsert kind.table file.name file.digest
    source := some (sourceOf kind.folder file.name)
    onApply := [.notice ("Fake applied ".text ++ kind.name ++ .char ' ' :: file.name)] }

def recordedObjects (d : Disk) (root : Path) (kind : ObjectKind) (stage : Stage) :
    Except Error (List Fragment) := do
  return (← Artifact.readAll d (root.child kind.folder)).map (recordedObject stage kind)

/-- The script that records a tree as applied and runs none of its artifacts. -/
def assembleRecording (d : Disk) (root : Path) : Except Error Script := do
  Artifact.requireRoot d root
  let bootstrap ← (← bootstrapPath? d root).toList.mapM (recordedMigration .bootstrap)
  let migrations ← (← migrationPaths d root).mapM (recordedMigration .migrations)
  let views ← recordedObjects d root .view .views
  let functions ← recordedObjects d root .function .functionsChecked
  let triggers ← recordedObjects d root .trigger .triggersChecked
  let tables : Fragment := { stage := .trackingTables, body := .plain trackingTables }
  return { tag := schemaTag, fragments :=
    tables :: bootstrap ++ migrations ++ views ++ functions ++ triggers }

def seedFragment (file : SqlFile) : Fragment :=
  { stage := .seeds
    body := .plain file.body
    source := some (sourceOf Layout.seeds file.name)
    onApply := [.notice ("Applied seed ".text ++ file.name)] }

def assembleSeeds (d : Disk) (root : Path) : Except Error Script := do
  Artifact.requireRoot d root
  let folder := root.child Layout.seeds
  if ← unreported (d.isFolder folder) then
    let seeds ← Artifact.readAll d folder
    let opening : Fragment :=
      { stage := .prelude, body := .plain "SET LOCAL client_min_messages = notice;".text }
    return { tag := seedTag, fragments := opening :: seeds.map seedFragment }
  else .error (.failure (.file (.missingSeeds folder)))

inductive Variant
  | applying
  | recording
  | seeding
deriving DecidableEq, Repr

def ofTree (d : Disk) (root : Path) : Variant → Except Error Script
  | .applying => assemble d root
  | .recording => assembleRecording d root
  | .seeding => assembleSeeds d root

def build (d : Disk) (root : Path) (variant : Variant) (minify : Bool) : Except Error Text := do
  return (← ofTree d root variant).render minify

end Script
end SchemaLedger
