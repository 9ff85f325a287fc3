import SchemaLedger.Artifact.File
import SchemaLedger.Dump.Split

namespace SchemaLedger
namespace Artifact

def writeBytes (path : Path) (data : Bytes) : Act Unit :=
  Act.change (fun d => match d.write path data with
    | .ok d => (.ok (), d)
    | .error fault => (.error fault, d)) fun cause => .file (.unwritable path cause)

/-- Writes a text as the whole content of a file.  The file is opened before the
text is encoded, so a text that cannot be encoded leaves it empty. -/
def writeContent (path : Path) (content : Text) : Act Unit :=
  match Utf8.encodeStrict content with
  | .ok data => writeBytes path data
  | .error fault => do
    writeBytes path []
    throw (.unencodable fault)

def writeText (path : Path) (content : Text) : Act Unit := do
  Act.change (·.ensureFolders path.parent) fun cause => .file (.unwritable path cause)
  writeContent path content

/-! ## Templates -/

def template (kind : ObjectKind) (name : Text) : Text :=
  match kind with
  | .function =>
    "CREATE OR REPLACE FUNCTION ".text ++ name ++
      "()\nRETURNS void AS $$\nBEGIN\n    -- function body\nEND;\n$$ LANGUAGE plpgsql;\n".text
  | .trigger =>
    "CREATE OR REPLACE FUNCTION ".text ++ name ++
      "()\nRETURNS TRIGGER AS $$\nBEGIN\n    RETURN NEW;\nEND;\n$$ LANGUAGE plpgsql;\n\n".text ++
      "-- CREATE OR REPLACE TRIGGER ".text ++ name ++
      "\n-- BEFORE INSERT OR UPDATE ON <table>\n-- FOR EACH ROW EXECUTE FUNCTION ".text ++
      name ++ "();\n".text
  | .view => "CREATE OR REPLACE VIEW ".text ++ name ++ " AS\nSELECT 1;\n".text

def objectPath (root : Path) (kind : ObjectKind) (name : Text) : Path :=
  (root.child kind.folder).child (Layout.fileName name)

def createObject (root : Path) (kindName name : Text) (force : Bool) : Act Path := do
  Act.look (requireRoot · root)
  match ObjectKind.ofName? kindName with
  | none => Act.fail (.creation (.unknownKind kindName))
  | some kind =>
    if !isStorable name then Act.fail (.creation (.invalidName kind name))
    else
      let path := objectPath root kind name
      if (← Act.look fun d => unreported (d.isPresent path)) && !force then
        Act.fail (.creation (.objectExists kind name))
      else
        writeText path (template kind name)
        return path

def createNumbered (root : Path) (folder : Text) : Act Path := do
  Act.look (requireRoot · root)
  let folder := root.child folder
  let path := folder.child (← Act.look (nextName · folder))
  writeText path []
  return path

def createMigration (root : Path) : Act Path :=
  createNumbered root Layout.migrations

def createSeed (root : Path) : Act Path :=
  createNumbered root Layout.seeds

/-! ## Artifacts of a dump -/

/-- A statement whose name is no file name makes a dump unusable. -/
def checkNames (split : Dump.Split) : Except Error Unit :=
  match split.statements.find? (!isStorable ·.name) with
  | some s => .error (.failure (.file (.unstorable s)))
  | none => .ok ()

def stored (s : Dump.Statement) : Text :=
  Text.trimRight s.text ++ [.char '\n']

def replacement (new old : Dump.Statement) : Text :=
  "[init] warning: ".text ++ new.kind.name ++ " '".text ++ new.name ++ "' at line ".text ++
    Text.ofInt new.line ++ " replaces the one at line ".text ++ Text.ofInt old.line

/-- The statements written so far, by path; the newest first. -/
abbrev Written := List (Path × Dump.Statement)

/-- Writes statements to their files.  Of two with one path the later wins, with
a warning. -/
def writeStatements (root : Path) (written : Written) : List Dump.Statement → Act Written
  | [] => return written
  | s :: rest => do
    let path := objectPath root s.kind s.name
    match written.lookup path with
    | some old => Act.complain (replacement s old)
    | none => pure ()
    writeText path (stored s)
    writeStatements root ((path, s) :: written) rest

def bootstrapPath (root : Path) : Path :=
  (root.child Layout.migrations).child Layout.bootstrap

/-- Writes a split dump below a root.  The answer is every path written: the
statements' in the order of paths, then the bootstrap migration's. -/
def writeDump (split : Dump.Split) (root : Path) : Act (List Path) := do
  Act.look fun _ => checkNames split
  let written ← writeStatements root [] split.statements
  writeText (bootstrapPath root) split.bootstrap
  return (written.map (·.1)).eraseDups.mergeSort Path.atMost ++ [bootstrapPath root]

/-! ## A new tree -/

def initialFolders : List Text :=
  Layout.migrations :: ObjectKind.all.map ObjectKind.folder

def makeFolders (root : Path) : List Text → Disk → Except PathFault Unit × Disk
  | [], d => (.ok (), d)
  | folder :: rest, d =>
    match d.ensureFolders (root.child folder) with
    | (.ok (), d) => makeFolders root rest d
    | (.error fault, d) => (.error fault, d)

/-- Makes the folders of a new tree and fills them from a dump if there is one.
When something fails on the way the root is removed again. -/
def createTree (root : Path) (dump : Option Text) (noise : List Text) : Act (List Path) := do
  if ← Act.look fun d => unreported (d.isPresent root) then
    Act.fail (.creation (.rootExists root))
  else
    let split ← Act.look fun _ =>
      match dump with
      | none => .ok none
      | some dump =>
        match Dump.split dump noise with
        | .error fault => .error (.failure (.dump fault))
        | .ok split => (checkNames split).map fun _ => some split
    let undo := Act.changeAnyway (·.removeAll root)
    Act.onFailure (Act.change (makeFolders root initialFolders)
      fun fault => .file (.uncreatable root fault)) undo
    match split with
    | none => return []
    | some split => Act.onFailure (writeDump split root) undo

end Artifact
end SchemaLedger
