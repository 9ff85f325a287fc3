import SchemaLedger.Yaml.Lexeme.Block
import SchemaLedger.Yaml.Lexeme.Flow

/-!
# From characters to tokens

A scan keeps the indentation of the open blocks and the places where a key may
have begun.  A colon makes the latest such place a key after the fact, so key
tokens are inserted where the key started.
-/

namespace SchemaLedger
namespace Yaml

/-- A place where a key may have begun.  `number` is the number of the token that
starts it; a required one stands where only a key can stand. -/
structure Candidate where
  number : Nat
  required : Bool
  index : Nat
  line : Nat
  column : Nat
deriving DecidableEq, Repr

structure Scan where
  cursor : Cursor
  /-- How many flow collections are open. -/
  depth : Nat := 0
  /-- The column of the innermost open block, one less than zero for none. -/
  indent : Int := -1
  /-- The columns of the blocks around it. -/
  outer : List Int := []
  keyAllowed : Bool := true
  /-- At most one candidate for each depth. -/
  candidates : List (Nat × Candidate) := []
  /-- The tokens so far, the newest first, because it is there that keys are
  inserted. -/
  newest : List Token := []
  count : Nat := 0
deriving DecidableEq, Repr

namespace Scan

def keyReach : Nat := 1024

def push (s : Scan) (t : Token) : Scan :=
  { s with newest := t :: s.newest, count := s.count + 1 }

def insertAt (s : Scan) (number : Nat) (t : Token) : Scan :=
  let behind := s.count - number
  { s with newest := s.newest.take behind ++ t :: s.newest.drop behind, count := s.count + 1 }

def isStale (s : Scan) (c : Candidate) : Bool :=
  c.line ≠ s.cursor.line || s.cursor.index - c.index > keyReach

def dropStale (s : Scan) : Except Stop Scan :=
  if s.candidates.any fun (_, c) => s.isStale c && c.required then .error .malformed
  else .ok { s with candidates := s.candidates.filter fun (_, c) => !s.isStale c }

def dropCandidate (s : Scan) : Except Stop Scan :=
  match s.candidates.lookup s.depth with
  | none => .ok s
  | some c =>
    if c.required then .error .malformed
    else .ok { s with candidates := s.candidates.filter (·.1 ≠ s.depth) }

def noteCandidate (s : Scan) : Except Stop Scan :=
  if !s.keyAllowed then .ok s
  else do
    let s ← s.dropCandidate
    let c : Candidate :=
      { number := s.count
        required := s.depth = 0 && s.indent = (s.cursor.column : Int)
        index := s.cursor.index
        line := s.cursor.line
        column := s.cursor.column }
    return { s with candidates := (s.depth, c) :: s.candidates }

def closeBlocks (column : Int) : List Int → Scan → Scan
  | [], s => s
  | outer :: rest, s =>
    if s.indent > column then
      closeBlocks column rest { s.push .blockEnd with indent := outer, outer := rest }
    else s

/-- Inside a flow collection indentation says nothing. -/
def unwind (s : Scan) (column : Int) : Scan :=
  if s.depth > 0 then s else closeBlocks column s.outer s

def openBlock? (s : Scan) (column : Nat) : Option Scan :=
  if s.indent < column then
    some { s with indent := column, outer := s.indent :: s.outer }
  else none

def toNextToken : (rounds : Nat) → Scan → Scan
  | 0, s => s
  | rounds + 1, s =>
    let c := s.cursor
    let c := if c.index = 0 && c.peek = byteOrderMark then c.next else c
    let c := c.skipSpaces
    let c := if c.peek = '#' then c.skipLine else c
    match c.takeBreak? with
    | some (_, c) =>
      toNextToken rounds { s with cursor := c, keyAllowed := s.keyAllowed || s.depth = 0 }
    | none => { s with cursor := c }

/-! ## One token -/

def single (s : Scan) (t : Token) (length : Nat) : Scan :=
  { s.push t with cursor := s.cursor.skip length }

def documentMark (s : Scan) (t : Token) : Except Stop Scan := do
  let s ← (s.unwind (-1)).dropCandidate
  return { s.single t 3 with keyAllowed := false }

def directive (s : Scan) : Except Stop Scan := do
  let s ← (s.unwind (-1)).dropCandidate
  let (token, cursor) ← lexDirective s.cursor
  return { s.push token with cursor, keyAllowed := false }

def flowStart (s : Scan) (t : Token) : Except Stop Scan := do
  let s ← s.noteCandidate
  return { s.single t 1 with depth := s.depth + 1, keyAllowed := true }

def flowEnd (s : Scan) (t : Token) : Except Stop Scan := do
  let s ← s.dropCandidate
  return { s.single t 1 with depth := s.depth - 1, keyAllowed := false }

def flowEntry (s : Scan) : Except Stop Scan := do
  let s ← { s with keyAllowed := true }.dropCandidate
  return s.single .flowEntry 1

def blockFor (s : Scan) (t : Token) : Except Stop Scan :=
  if s.depth > 0 then .ok s
  else if !s.keyAllowed then .error .malformed
  else match s.openBlock? s.cursor.column with
    | some opened => .ok (opened.push t)
    | none => .ok s

def blockEntry (s : Scan) : Except Stop Scan := do
  let s ← s.blockFor .blockSequenceStart
  let s ← { s with keyAllowed := true }.dropCandidate
  return s.single .blockEntry 1

def keyIndicator (s : Scan) : Except Stop Scan := do
  let s ← s.blockFor .blockMappingStart
  let s ← { s with keyAllowed := s.depth = 0 }.dropCandidate
  return s.single .key 1

/-- A colon: the candidate of this depth turns out to be a key; without one the
colon belongs to a key that was announced. -/
def valueIndicator (s : Scan) : Except Stop Scan :=
  match s.candidates.lookup s.depth with
  | some c =>
    let s := { s with candidates := s.candidates.filter (·.1 ≠ s.depth) }
    let s := s.insertAt c.number .key
    let s := if s.depth > 0 then s
      else match s.openBlock? c.column with
        | some opened => opened.insertAt c.number .blockMappingStart
        | none => s
    .ok { s.single .value 1 with keyAllowed := false }
  | none => do
    let s ← s.blockFor .blockMappingStart
    let s ← { s with keyAllowed := s.depth = 0 }.dropCandidate
    return s.single .value 1

/-- A token with a text of its own, which may start a key; no key may begin
directly behind it. -/
def lexeme (s : Scan) (lex : Cursor → Except Stop (Token × Cursor)) : Except Stop Scan := do
  let s ← s.noteCandidate
  let (token, cursor) ← lex s.cursor
  return { s.push token with cursor, keyAllowed := false }

def blockScalar (s : Scan) (folded : Bool) : Except Stop Scan := do
  let s ← { s with keyAllowed := true }.dropCandidate
  let (token, cursor) ← lexBlockScalar folded s.indent s.cursor
  return { s.push token with cursor }

/-- A plain scalar; if it ends with a line, a key may begin behind it. -/
def plainScalar (s : Scan) : Except Stop Scan := do
  let s ← s.noteCandidate
  let ((text, lineEnded), cursor) :=
    lexPlainParts (s.depth > 0) (s.indent + 1).toNat [] false s.cursor.rest.length s.cursor
  return { s.push (.scalar text true) with cursor, keyAllowed := lineEnded }

def isIndicator (c : CodePoint) : Bool :=
  "-?:,[]\x7b\x7d#&*!|>'\"%@\x60".text.contains c

def startsPlain (s : Scan) : Bool :=
  let c := s.cursor.peek
  (!isGap c && !isIndicator c) ||
    (!isGap (s.cursor.peek 1) && (c = '-' || (s.depth = 0 && (c = '?' || c = ':'))))

/-- The next token and those that it brings about; nothing at the end of the
document. -/
def next? (s : Scan) : Except Stop (Option Scan) := do
  let s ← (s.toNextToken (s.cursor.rest.length + 1)).dropStale
  let s := s.unwind s.cursor.column
  let c := s.cursor.peek
  let inFlow := s.depth > 0
  let gapAfter := isGap (s.cursor.peek 1)
  if s.cursor.rest.isEmpty then return none
  else if c = '%' && s.cursor.column = 0 then some <$> s.directive
  else if c = '-' && s.cursor.column = 0 && s.cursor.atDocumentMark then
    some <$> s.documentMark .documentStart
  else if c = '.' && s.cursor.column = 0 && s.cursor.atDocumentMark then
    some <$> s.documentMark .documentEnd
  else if c = '[' then some <$> s.flowStart .flowSequenceStart
  else if c = '\x7b' then some <$> s.flowStart .flowMappingStart
  else if c = ']' then some <$> s.flowEnd .flowSequenceEnd
  else if c = '\x7d' then some <$> s.flowEnd .flowMappingEnd
  else if c = ',' then some <$> s.flowEntry
  else if c = '-' && gapAfter then some <$> s.blockEntry
  else if c = '?' && (inFlow || gapAfter) then some <$> s.keyIndicator
  else if c = ':' && (inFlow || gapAfter) then some <$> s.valueIndicator
  else if c = '*' then
    some <$> s.lexeme fun c => do
      let (name, c) ← lexName c
      return (.alias name, c)
  else if c = '&' then
    some <$> s.lexeme fun c => do
      let (name, c) ← lexName c
      return (.anchor name, c)
  else if c = '!' then some <$> s.lexeme lexTag
  else if c = '|' && !inFlow then some <$> s.blockScalar false
  else if c = '>' && !inFlow then some <$> s.blockScalar true
  else if c = '\'' then some <$> s.lexeme (lexQuoted false)
  else if c = '"' then some <$> s.lexeme (lexQuoted true)
  else if s.startsPlain then some <$> s.plainScalar
  else .error .malformed

/-- The end of the document closes every block and leaves no key open. -/
def finish (s : Scan) : Except Stop Scan := do
  let s ← (s.toNextToken (s.cursor.rest.length + 1)).dropStale
  (s.unwind (-1)).dropCandidate

/-- The tokens in front of the first one that a colon might still make a key. -/
def settled (s : Scan) : List Token :=
  let waiting := s.candidates.filter fun (_, c) => !s.isStale c
  waiting.foldl (fun tokens (_, c) => tokens.take c.number) s.newest.reverse

/-- All tokens up to the end, or those that were settled when the scan stopped. -/
def run : (rounds : Nat) → Scan → List Token × Option Stop
  | 0, s => (s.settled, some .malformed)
  | rounds + 1, s =>
    match s.next? with
    | .error stop => (s.settled, some stop)
    | .ok (some s) => run rounds s
    | .ok none =>
      match s.finish with
      | .error stop => (s.settled, some stop)
      | .ok s => (s.newest.reverse, none)

end Scan

def tokensOf (document : Text) : List Token × Option Stop :=
  if document.all isAllowed then
    Scan.run (document.length + 1) { cursor := ⟨document, 0, 0, 0⟩ }
  else ([], some .malformed)

end Yaml
end SchemaLedger
