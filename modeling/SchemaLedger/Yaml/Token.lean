import SchemaLedger.Scalar.Fault

/-!
# Tokens of a settings document

The pieces that a YAML document is made of.  Indentation appears among them as
starts and ends of block collections, and every key is marked, also one whose
colon comes only after it.
-/

namespace SchemaLedger
namespace Yaml

inductive Directive
  | version (major minor : Nat)
  | tag (handle shorthand : Text)
  | other
deriving DecidableEq, Repr

inductive Token
  | directive (d : Directive)
  | documentStart
  | documentEnd
  | blockSequenceStart
  | blockMappingStart
  | blockEnd
  | flowSequenceStart
  | flowSequenceEnd
  | flowMappingStart
  | flowMappingEnd
  | blockEntry
  | flowEntry
  | key
  | value
  | alias (name : Text)
  | anchor (name : Text)
  /-- A tag with its handle, if it has one. -/
  | tag (handle : Option Text) (suffix : Text)
  | scalar (text : Text) (plain : Bool)
deriving DecidableEq, Repr

inductive Stop
  | malformed
  /-- An escape or a number in it stands for nothing. -/
  | fault (fault : Scalar.Fault)
deriving DecidableEq, Repr

/-! ## Characters -/

def isBreak (c : CodePoint) : Bool :=
  c = '\n' || c.toNat = 0x85 || c.toNat = 0x2028 || c.toNat = 0x2029

/-- What stands for the end of a document when a character is looked at. -/
def endMark : CodePoint := '\x00'

def isBreakOrEnd (c : CodePoint) : Bool :=
  isBreak c || c = endMark

def isSpaceOrEnd (c : CodePoint) : Bool :=
  c = ' ' || isBreakOrEnd c

/-- What may stand behind an indicator that needs a gap. -/
def isGap (c : CodePoint) : Bool :=
  c = '\t' || isSpaceOrEnd c

def isWordChar (c : CodePoint) : Bool :=
  c.isAlphanum || c = '-' || c = '_'

def isAllowed (c : CodePoint) : Bool :=
  let n := c.toNat
  n = 9 || n = 10 || n = 13 || (0x20 ≤ n && n ≤ 0x7E) || n = 0x85 || (0xA0 ≤ n && n ≤ 0xD7FF) ||
    (0xE000 ≤ n && n ≤ 0xFFFD) || 0x10000 ≤ n

/-! ## Places -/

structure Cursor where
  rest : Text
  index : Nat := 0
  line : Nat := 0
  column : Nat := 0
deriving DecidableEq, Repr

namespace Cursor

def peek (c : Cursor) (ahead : Nat := 0) : CodePoint :=
  c.rest.getD ahead endMark

/-- One character on.  A byte order mark takes no column. -/
def next (c : Cursor) : Cursor :=
  match c.rest with
  | [] => c
  | ch :: rest =>
    if isBreak ch then ⟨rest, c.index + 1, c.line + 1, 0⟩
    else if ch = byteOrderMark then ⟨rest, c.index + 1, c.line, c.column⟩
    else ⟨rest, c.index + 1, c.line, c.column + 1⟩

def skip : (count : Nat) → Cursor → Cursor
  | 0, c => c
  | count + 1, c => skip count c.next

def countWhile (c : Cursor) (p : CodePoint → Bool) : Nat :=
  (c.rest.takeWhile p).length

def takeWhile (c : Cursor) (p : CodePoint → Bool) : Text × Cursor :=
  (c.rest.takeWhile p, c.skip (c.countWhile p))

def skipWhile (c : Cursor) (p : CodePoint → Bool) : Cursor :=
  c.skip (c.countWhile p)

def skipSpaces (c : Cursor) : Cursor :=
  c.skipWhile (· = .char ' ')

def skipLine (c : Cursor) : Cursor :=
  c.skipWhile (!isBreak ·)

/-- The line break ahead, if there is one; those of two kinds stand for a
newline. -/
def takeBreak? (c : Cursor) : Option (CodePoint × Cursor) :=
  let ch := c.peek
  if isBreak ch then some (if ch.toNat = 0x85 then '\n' else ch, c.next) else none

def atDocumentMark (c : Cursor) : Bool :=
  (c.rest.take 3 = "---".text || c.rest.take 3 = "...".text) && isGap (c.peek 3)

/-- Passes over spaces and a comment, which must reach to the end of the line. -/
def endLine (c : Cursor) : Except Stop Cursor :=
  let c := c.skipSpaces
  let c := if c.peek = '#' then c.skipLine else c
  if c.rest.isEmpty then .ok c
  else match c.takeBreak? with
    | some (_, c) => .ok c
    | none => .error .malformed

end Cursor
end Yaml
end SchemaLedger
