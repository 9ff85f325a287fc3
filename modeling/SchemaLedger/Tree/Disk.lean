import SchemaLedger.Tree.Basic
import SchemaLedger.Tree.Fault

/-!
# Paths in a tree

A disk is a tree seen from a working folder.  Here paths are followed name by
name, and the requests of the program (look, list, read, write, make folders,
remove) are answered as an operating system answers them, refusals included.
-/

namespace SchemaLedger

structure Disk where
  tree : Tree
  /-- The folder that relative paths start from. -/
  working : Location

namespace Disk

def nameLimit : Nat := 255

def pathLimit : Nat := 4095

/-- One step along a name: two full stops lead up, and nothing is above the
top. -/
def stepTo (place : Location) (name : Text) : Location :=
  if name = [.char '.', .char '.'] then place.tail else .ofText name :: place

/-- Follows names from a place.  Each step needs a folder to start from; the
place that the last step leads to need not exist. -/
def walk (t : Tree) : Location → List Text → Except Refusal Location
  | place, [] => .ok place
  | place, name :: names =>
    match t.at? place with
    | none => .error .noEntry
    | some (.file _) | some .locked => .error .notFolder
    | some .sealed => .error .accessDenied
    | some .folder =>
      if (Utf8.encode name).length > nameLimit then .error .nameTooLong
      else walk t (stepTo place name) names

def start (d : Disk) (p : Path) : Location :=
  match p.anchor with
  | .relative => d.working
  | .top | .secondTop => []

def refused (p : Path) (r : Refusal) : PathFault :=
  .refused ⟨r, p.text⟩

def locate (d : Disk) (p : Path) : Except PathFault Location :=
  match p.text.unusable? with
  | some reason => .error (.unusable reason)
  | none =>
    if (Utf8.encode p.text).length > pathLimit then .error (refused p .nameTooLong)
    else (walk d.tree (d.start p) p.names).mapError (refused p)

/-! ## Looking -/

def find (d : Disk) (p : Path) : Except PathFault Entry := do
  let place ← d.locate p
  match d.tree.at? place with
  | none => .error (refused p .noEntry)
  | some entry => .ok entry

/-- Like `find`, with an answer also for a path that leads nowhere or is none. -/
def find? (d : Disk) (p : Path) : Except SystemFault (Option Entry) :=
  match d.find p with
  | .ok entry => .ok (some entry)
  | .error (.unusable _) => .ok none
  | .error (.refused fault) =>
    if fault.refusal = .noEntry ∨ fault.refusal = .notFolder then .ok none else .error fault

def isPresent (d : Disk) (p : Path) : Except SystemFault Bool :=
  (d.find? p).map Option.isSome

def isFolder (d : Disk) (p : Path) : Except SystemFault Bool :=
  (d.find? p).map (·.any Entry.isFolder)

def isFile (d : Disk) (p : Path) : Except SystemFault Bool :=
  (d.find? p).map (·.any Entry.isFile)

def list (d : Disk) (p : Path) : Except PathFault (List Text) := do
  let place ← d.locate p
  match d.tree.at? place with
  | none => .error (refused p .noEntry)
  | some (.file _) | some .locked => .error (refused p .notFolder)
  | some .sealed => .error (refused p .accessDenied)
  | some .folder => .ok ((d.tree.names place).map Name.text)

def read (d : Disk) (p : Path) : Except PathFault Bytes := do
  match ← d.find p with
  | .file data => .ok data
  | .folder => .error (refused p .isFolder)
  | .locked | .sealed => .error (refused p .accessDenied)

/-! ## Changing -/

/-- Makes one folder, whose parent must be there. -/
def makeFolder (d : Disk) (p : Path) : Except PathFault Disk := do
  match ← d.locate p with
  | [] => .error (refused p .exists)
  | name :: folder =>
    if fresh : d.tree.at? (name :: folder) = none then
      if inside : d.tree.at? folder = some .folder then
        .ok { d with tree := d.tree.insertNew folder name .folder inside fresh }
      else .error (refused p .noEntry)
    else .error (refused p .exists)

/-- What is made of the refusal to make a folder: nothing if the folder is
there, unless its parent is missing. -/
def orThere (d : Disk) (p : Path) : PathFault → Except PathFault Disk
  | .unusable reason => .error (.unusable reason)
  | .refused fault =>
    if fault.refusal = .noEntry then .error (.refused fault)
    else
      match d.isFolder p with
      | .ok true => .ok d
      | .ok false => .error (.refused fault)
      | .error fault => .error (.refused fault)

def ensureFolder (d : Disk) (p : Path) : Except PathFault Disk :=
  match d.makeFolder p with
  | .ok d => .ok d
  | .error fault => d.orThere p fault

/-- Makes a folder with every folder above it that is missing.  `inward` holds
the names of the path, the innermost first.  Folders made before a refusal
stay, so the disk is part of the answer in either case. -/
def ensureFoldersAt (anchor : Anchor) : List Text → Disk → Except PathFault Unit × Disk
  | [], d =>
    match d.ensureFolder ⟨anchor, []⟩ with
    | .ok d => (.ok (), d)
    | .error fault => (.error fault, d)
  | name :: above, d =>
    let p : Path := ⟨anchor, (name :: above).reverse⟩
    match d.ensureFolder p with
    | .ok d => (.ok (), d)
    | .error fault =>
      if fault = refused p .noEntry then
        match ensureFoldersAt anchor above d with
        | (.error fault, d) => (.error fault, d)
        | (.ok (), d) =>
          match d.ensureFolder p with
          | .ok d => (.ok (), d)
          | .error fault => (.error fault, d)
      else (.error fault, d)

def ensureFolders (d : Disk) (p : Path) : Except PathFault Unit × Disk :=
  ensureFoldersAt p.anchor p.names.reverse d

/-- Writes a whole file.  The folder must be there; a file of that name is
overwritten. -/
def write (d : Disk) (p : Path) (data : Bytes) : Except PathFault Disk := do
  match ← d.locate p with
  | [] => .error (refused p .isFolder)
  | name :: folder =>
    match found : d.tree.at? (name :: folder) with
    | some .folder | some .sealed => .error (refused p .isFolder)
    | some .locked => .error (refused p .accessDenied)
    | some (.file _) => .ok { d with tree := d.tree.overwrite (name :: folder) data }
    | none =>
      if inside : d.tree.at? folder = some .folder then
        .ok { d with tree := d.tree.insertNew folder name (.file data) inside found }
      else .error (refused p .noEntry)

/-- Removes a folder and all it holds as far as that goes, without a complaint.
The content goes first; the folder itself stays when its path leads to it no
longer or ends in a step up. -/
def removeAll (d : Disk) (p : Path) : Disk :=
  match d.locate p with
  | .error _ => d
  | .ok place =>
    if d.tree.at? place = some .folder then
      let cleared := { d with tree := d.tree.clear place }
      if p.name = [.char '.', .char '.'] || p.names = [] then cleared
      else match cleared.locate p with
        | .ok place =>
          if cleared.tree.at? place = some .folder then
            { cleared with tree := cleared.tree.remove place }
          else cleared
        | .error _ => cleared
    else d

end Disk

end SchemaLedger
