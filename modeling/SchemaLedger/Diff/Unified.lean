import SchemaLedger.Diff.Matching

namespace SchemaLedger
namespace Diff

def context : Nat := 3

structure Placed where
  edit : Edit
  oldAt : Nat
  newAt : Nat
deriving DecidableEq, Repr

def placed (oldAt newAt : Nat) : List Edit → List Placed
  | [] => []
  | e :: rest => ⟨e, oldAt, newAt⟩ :: placed (oldAt + e.old.length) (newAt + e.new.length) rest

namespace Placed

def lastLines (p : Placed) : Placed :=
  match p.edit with
  | .keep lines =>
    let skipped := lines.length - context
    ⟨.keep (lines.drop skipped), p.oldAt + skipped, p.newAt + skipped⟩
  | .change .. => p

def firstLines (p : Placed) : Placed :=
  match p.edit with
  | .keep lines => { p with edit := .keep (lines.take context) }
  | .change .. => p

def isWide (p : Placed) : Bool :=
  match p.edit with
  | .keep lines => lines.length > 2 * context
  | .change .. => false

def isKept (p : Placed) : Bool :=
  match p.edit with
  | .keep _ => true
  | .change .. => false

end Placed

def trimFirst : List Placed → List Placed
  | [] => []
  | p :: rest => p.lastLines :: rest

def trimLast : List Placed → List Placed
  | [] => []
  | [p] => [p.firstLines]
  | p :: rest => p :: trimLast rest

abbrev Hunk := List Placed

/-- Edits cut into hunks; `hunk` is what the current one holds so far. -/
def cutHunks (hunk : Hunk) : List Placed → List Hunk
  | [] => [hunk]
  | p :: rest =>
    if p.isWide then (hunk ++ [p.firstLines]) :: cutHunks [p.lastLines] rest
    else cutHunks (hunk ++ [p]) rest

/-- The hunks of a difference; kept lines alone make none. -/
def hunks (edits : List Edit) : List Hunk :=
  (cutHunks [] (trimLast (trimFirst (placed 0 0 edits)))).filter (·.any (!·.isKept))

/-- A range of lines by its first line and its length.  One line needs no
length, and an empty range is named after the line before it. -/
def rangeText (start length : Nat) : Text :=
  if length = 1 then Text.ofNat (start + 1)
  else Text.ofNat (if length = 0 then start else start + 1) ++ .char ',' :: Text.ofNat length

def editLines : Edit → List Text
  | .keep lines => lines.map (.char ' ' :: ·)
  | .change old new => old.map (.char '-' :: ·) ++ new.map (.char '+' :: ·)

def hunkLines (hunk : Hunk) : List Text :=
  let total (side : Edit → List Text) : Nat := (hunk.flatMap fun p => side p.edit).length
  let oldAt := (hunk.head?.map Placed.oldAt).getD 0
  let newAt := (hunk.head?.map Placed.newAt).getD 0
  ("@@ -".text ++ rangeText oldAt (total Edit.old) ++ " +".text ++
    rangeText newAt (total Edit.new) ++ " @@".text) ::
    hunk.flatMap fun p => editLines p.edit

/-- The unified difference of two lists of lines, which have names; none at all
when the lists are equal. -/
def unified (oldName newName : Text) (old new : List Text) : List Text :=
  match hunks (edits old new) with
  | [] => []
  | found =>
    ("--- ".text ++ oldName) :: ("+++ ".text ++ newName) :: found.flatMap hunkLines

end Diff
end SchemaLedger
