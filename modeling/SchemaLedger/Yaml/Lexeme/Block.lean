import SchemaLedger.Yaml.Token

namespace SchemaLedger
namespace Yaml

inductive Chomping
  | strip
  | clip
  | keep
deriving DecidableEq, Repr

def chomping? (c : CodePoint) : Option Chomping :=
  if c = '+' then some .keep else if c = '-' then some .strip else none

/-- An indentation indicator, which is no zero. -/
def lexIncrement (c : Cursor) : Except Stop ((Option Nat) × Cursor) :=
  if c.peek.isDigit then
    if c.peek = '0' then .error .malformed else .ok (some (c.peek.toNat - '0'.toNat), c.next)
  else .ok (none, c)

def lexIndicators (c : Cursor) : Except Stop ((Chomping × Option Nat) × Cursor) := do
  let ((chomping, increment), c) ← match chomping? c.peek with
    | some chomping => do
      let (increment, c) ← lexIncrement c.next
      pure ((chomping, increment), c)
    | none => do
      let (increment, c) ← lexIncrement c
      match increment, chomping? c.peek with
      | some n, some chomping => pure ((chomping, some n), c.next)
      | increment, _ => pure ((Chomping.clip, increment), c)
  if isSpaceOrEnd c.peek then return ((chomping, increment), c) else .error .malformed

def lexIndentation : (rounds : Nat) → (deepest : Nat) → Cursor → Text × Nat × Cursor
  | 0, deepest, c => ([], deepest, c)
  | rounds + 1, deepest, c =>
    if c.peek = ' ' then lexIndentation rounds (max deepest c.next.column) c.next
    else match c.takeBreak? with
      | some (ch, c) =>
        let (breaks, deepest, c) := lexIndentation rounds deepest c
        (ch :: breaks, deepest, c)
      | none => ([], deepest, c)

def skipIndentation (indent : Nat) (c : Cursor) : Cursor :=
  c.skip (min (c.countWhile (· = .char ' ')) (indent - c.column))

def lexBlockBreaks (indent : Nat) : (rounds : Nat) → Cursor → Text × Cursor
  | 0, c => ([], c)
  | rounds + 1, c =>
    let c := skipIndentation indent c
    match c.takeBreak? with
    | some (ch, c) =>
      let (breaks, c) := lexBlockBreaks indent rounds c
      (ch :: breaks, c)
    | none => ([], c)

/-- What stands between two lines of a block scalar.  Folding turns a single
newline between two lines that start with text into a space. -/
def blockGap (folded textBefore textAfter : Bool) (lineBreak : Text) (breaks : Text) : Text :=
  if folded && lineBreak = [.char '\n'] && textBefore && textAfter then
    if breaks.isEmpty then [.char ' '] else []
  else lineBreak

/-- The lines of a block scalar from one that has the indentation on: the text up
to the last line, the break of the last line, and the breaks behind it. -/
def lexBlockLines (folded : Bool) (indent : Nat) (breaks : Text) :
    (rounds : Nat) → Cursor → (Text × Text × Text) × Cursor
  | 0, c => ((breaks, [], []), c)
  | rounds + 1, c =>
    let isText (ch : CodePoint) : Bool := ch != ' ' && ch != '\t'
    let textBefore := isText c.peek
    let (line, c) := c.takeWhile (!isBreak ·)
    let (lineBreak, c) := match c.takeBreak? with
      | some (ch, c) => ([ch], c)
      | none => ([], c)
    let (after, c) := lexBlockBreaks indent c.rest.length c
    if c.column = indent && !c.rest.isEmpty then
      let gap := blockGap folded textBefore (isText c.peek) lineBreak after
      let ((text, last, tail), c) := lexBlockLines folded indent after rounds c
      ((breaks ++ line ++ gap ++ text, last, tail), c)
    else ((breaks ++ line, lineBreak, after), c)

/-- A block scalar; `outer` is the indentation of the block around it, or one
less than zero. -/
def lexBlockScalar (folded : Bool) (outer : Int) (c : Cursor) : Except Stop (Token × Cursor) := do
  let ((chomping, increment), c) ← lexIndicators c.next
  let c ← c.endLine
  let least := max 1 (outer + 1).toNat
  let (breaks, indent, c) := match increment with
    | none =>
      let (breaks, deepest, c) := lexIndentation c.rest.length 0 c
      (breaks, max least deepest, c)
    | some increment =>
      let indent := least + increment - 1
      let (breaks, c) := lexBlockBreaks indent c.rest.length c
      (breaks, indent, c)
  let ((text, last, tail), c) :=
    if c.column = indent && !c.rest.isEmpty then lexBlockLines folded indent breaks c.rest.length c
    else (([], [], breaks), c)
  let ending := match chomping with
    | .strip => []
    | .clip => last
    | .keep => last ++ tail
  return (.scalar (text ++ ending) false, c)

end Yaml
end SchemaLedger
