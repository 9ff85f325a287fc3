import SchemaLedger.Text.Basic

/-!
# Matching lines

Two lists of lines are compared by their longest common run, then by the longest
common runs on either side of it, and so on.  That is not the shortest possible
difference, but it keeps together what belongs together.
-/

namespace SchemaLedger
namespace Diff

/-- A run of `size` equal lines, from `old` on in one list and from `new` on in
the other. -/
structure Run where
  old : Nat
  new : Nat
  size : Nat
deriving DecidableEq, Repr

/-- From this many lines on, some lines are too frequent to start from. -/
def frequencyFloor : Nat := 200

/-- The lines that occur so often in a long list that a match of them means
little: more often than once in a hundred lines and once more. -/
def frequent (new : List Text) : List Text :=
  if new.length < frequencyFloor then []
  else new.eraseDups.filter fun line => new.count line > new.length / 100 + 1

/-- For each place in `new`, how many lines up to there agree with the lines up
to and including `line` in the other list; `before` is the answer for the line
before. -/
def runsEnding (excluded : List Text) (new : List Text) (before : List Nat) (line : Text) :
    List Nat :=
  List.zipWith (fun other size => if other = line && !excluded.contains other then size + 1 else 0)
    new (0 :: before)

def Run.better (best candidate : Run) : Run :=
  if candidate.size > best.size then candidate else best

def bestEnding (best : Run) (i : Nat) (sizes : List Nat) : Run :=
  (sizes.zipIdx).foldl
    (fun best (size, j) => best.better ⟨i + 1 - size, j + 1 - size, size⟩) best

/-- The longest common run without excluded lines; of equally long ones the
first in the old list, then the first in the new one. -/
def longestPlain (excluded old new : List Text) : Run :=
  (old.zipIdx.foldl (fun (best, before) (line, i) =>
    let sizes := runsEnding excluded new before line
    (bestEnding best i sizes, sizes)) (⟨0, 0, 0⟩, List.replicate new.length 0)).1

def agreeing : List Text → List Text → Nat
  | a :: as, b :: bs => if a = b then agreeing as bs + 1 else 0
  | _, _ => 0

def Run.extend (old new : List Text) (r : Run) : Run :=
  let ahead := agreeing (old.take r.old).reverse (new.take r.new).reverse
  let behind := agreeing (old.drop (r.old + r.size)) (new.drop (r.new + r.size))
  ⟨r.old - ahead, r.new - ahead, ahead + r.size + behind⟩

def longest (excluded old new : List Text) : Run :=
  (longestPlain excluded old new).extend old new

/-! ## Edits -/

/-- A part of the difference: lines that both lists have, or old lines and the
new ones in their place. -/
inductive Edit
  | keep (lines : List Text)
  | change (old new : List Text)
deriving DecidableEq, Repr

namespace Edit

def old : Edit → List Text
  | .keep lines => lines
  | .change old _ => old

def new : Edit → List Text
  | .keep lines => lines
  | .change _ new => new

/-- Puts an edit in front of others: nothing for an empty one, and kept lines
join the kept lines behind them. -/
def cons (e : Edit) (rest : List Edit) : List Edit :=
  match e, rest with
  | .keep [], _ => rest
  | .change [] [], _ => rest
  | .keep lines, .keep more :: rest => .keep (lines ++ more) :: rest
  | e, rest => e :: rest

end Edit

def editsBefore (excluded old new : List Text) (rest : List Edit) : List Edit :=
  let run := longest excluded old new
  if h : 0 < run.size ∧ run.old + run.size ≤ old.length then
    have : run.old < old.length := by omega
    let behind :=
      editsBefore excluded (old.drop (run.old + run.size)) (new.drop (run.new + run.size)) rest
    let kept := Edit.cons (.keep ((old.drop run.old).take run.size)) behind
    editsBefore excluded (old.take run.old) (new.take run.new) kept
  else Edit.cons (.change old new) rest
termination_by old.length
decreasing_by
  · simp only [List.length_drop, run] at *
    omega
  · simp only [List.length_take, run] at *
    omega

def edits (old new : List Text) : List Edit :=
  editsBefore (frequent new) old new []

end Diff
end SchemaLedger
