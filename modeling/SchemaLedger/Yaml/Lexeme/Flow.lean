import SchemaLedger.Yaml.Lexeme.Name

namespace SchemaLedger
namespace Yaml

/-! ## Quoted scalars -/

def lexQuotedBreaks : (rounds : Nat) → Cursor → Except Stop (Text × Cursor)
  | 0, c => .ok ([], c)
  | rounds + 1, c =>
    if c.atDocumentMark then .error .malformed
    else
      let c := c.skipWhile fun ch => ch = ' ' || ch = '\t'
      match c.takeBreak? with
      | some (ch, c) => do
        let (breaks, c) ← lexQuotedBreaks rounds c
        return (ch :: breaks, c)
      | none => .ok ([], c)

/-- What blanks inside a quoted scalar stand for: themselves inside a line, and
around a break what is left of it by folding. -/
def lexQuotedSpaces (c : Cursor) : Except Stop (Text × Cursor) :=
  let (spaces, c) := c.takeWhile fun ch => ch = ' ' || ch = '\t'
  if c.rest.isEmpty then .error .malformed
  else match c.takeBreak? with
    | none => .ok (spaces, c)
    | some (ch, c) => do
      let (breaks, c) ← lexQuotedBreaks c.rest.length c
      let first := if ch ≠ '\n' then [ch] else if breaks.isEmpty then [.char ' '] else []
      return (first ++ breaks, c)

def escaped? (c : CodePoint) : Option CodePoint :=
  [(.char '0', .char '\x00'), (.char 'a', .char '\x07'), (.char 'b', .char '\x08'),
   (.char 't', .char '\t'), (.char '\t', .char '\t'), (.char 'n', .char '\n'),
   (.char 'v', .char '\x0b'), (.char 'f', .char '\x0c'), (.char 'r', .char '\r'),
   (.char 'e', .char '\x1b'), (.char ' ', .char ' '), (.char '"', .char '"'),
   (.char '\\', .char '\\'), (.char '/', .char '/'), (.char 'N', CodePoint.ofNat 0x85),
   (.char '_', CodePoint.ofNat 0xA0), (.char 'L', CodePoint.ofNat 0x2028),
   (.char 'P', CodePoint.ofNat 0x2029)].lookup c

def escapeWidth? (c : CodePoint) : Option Nat :=
  [(.char 'x', 2), (.char 'u', 4), (.char 'U', 8)].lookup c

/-- The character with a code, which eight digits may exceed by far. -/
def characterOf (code : Nat) : Except Stop CodePoint :=
  if code < 0x110000 then .ok (CodePoint.ofNat code)
  else if code < 0x80000000 then .error (.fault .codePoint)
  else .error (.fault .codePointSize)

def lexEscape (c : Cursor) : Except Stop (Text × Cursor) :=
  match escaped? c.peek, escapeWidth? c.peek, c.takeBreak? with
  | some ch, _, _ => if c.rest.isEmpty then .error .malformed else .ok ([ch], c.next)
  | none, some width, _ =>
    let c := c.next
    match ((List.range width).map (c.peek ·)).mapM hexValue? with
    | none => .error .malformed
    | some digits => do
      let ch ← characterOf (digits.foldl (fun n d => 16 * n + d) 0)
      return ([ch], c.skip width)
  | none, none, some (_, c) => lexQuotedBreaks c.rest.length c
  | none, none, none => .error .malformed

def lexQuotedRest (double : Bool) : (rounds : Nat) → Cursor → Except Stop (Text × Cursor)
  | 0, _ => .error .malformed
  | rounds + 1, c => do
    let quote := if double then '"' else '\''
    let ch := c.peek
    if c.rest.isEmpty then .error .malformed
    else
      let (part, c) ←
        if ch = quote && !double && c.peek 1 = '\'' then pure ([.char '\''], c.skip 2)
        else if ch = quote then return ([], c.next)
        else if double && ch = '\\' then lexEscape c.next
        else if ch = ' ' || ch = '\t' || isBreak ch then lexQuotedSpaces c
        else pure ([ch], c.next)
      let (more, c) ← lexQuotedRest double rounds c
      return (part ++ more, c)

def lexQuoted (double : Bool) (c : Cursor) : Except Stop (Token × Cursor) := do
  let (text, c) ← lexQuotedRest double (c.rest.length + 1) c.next
  return (.scalar text false, c)

/-! ## Plain scalars -/

def isFlowIndicator (c : CodePoint) : Bool :=
  c = ',' || c = '[' || c = ']' || c = '\x7b' || c = '\x7d'

def plainLength (inFlow : Bool) : Text → Nat
  | [] => 0
  | c :: rest =>
    let after := rest.headD endMark
    if isGap c then 0
    else if c = ':' && (isGap after || (inFlow && isFlowIndicator after)) then 0
    else if inFlow && (isFlowIndicator c || c = '?') then 0
    else plainLength inFlow rest + 1

/-- Passes over the spaces and empty lines behind a line of a plain scalar.
Nothing if a document ends or starts there. -/
def lexPlainBreaks : (rounds : Nat) → Cursor → Option Text × Cursor
  | 0, c => (some [], c)
  | rounds + 1, c =>
    if c.peek = ' ' then lexPlainBreaks rounds c.next
    else match c.takeBreak? with
      | none => (some [], c)
      | some (ch, c) =>
        if c.atDocumentMark then (none, c)
        else
          let (breaks, c) := lexPlainBreaks rounds c
          (breaks.map (ch :: ·), c)

/-- What stands between two parts of a plain scalar, and whether a line ended
there; nothing if the scalar ends. -/
def lexPlainSpaces (c : Cursor) : (Option Text × Bool) × Cursor :=
  let (spaces, c) := c.takeWhile (· = .char ' ')
  match c.takeBreak? with
  | none => ((if spaces.isEmpty then none else some spaces, false), c)
  | some (ch, c) =>
    if c.atDocumentMark then ((none, true), c)
    else
      match lexPlainBreaks c.rest.length c with
      | (none, c) => ((none, true), c)
      | (some breaks, c) =>
        let first := if ch ≠ '\n' then [ch] else if breaks.isEmpty then [.char ' '] else []
        ((some (first ++ breaks), true), c)

/-- The text of a plain scalar, and whether it ended with the end of a line.
`gap` is what stands in front of the next part. -/
def lexPlainParts (inFlow : Bool) (indent : Nat) (gap : Text) (lineEnded : Bool) :
    (rounds : Nat) → Cursor → (Text × Bool) × Cursor
  | 0, c => (([], lineEnded), c)
  | rounds + 1, c =>
    let length := if c.peek = '#' then 0 else plainLength inFlow c.rest
    if length = 0 then (([], lineEnded), c)
    else
      let part := c.rest.take length
      let ((gap', lineEnded), c) := lexPlainSpaces (c.skip length)
      match gap' with
      | none => ((gap ++ part, lineEnded), c)
      | some gap' =>
        if c.peek = '#' || (!inFlow && c.column < indent) then ((gap ++ part, lineEnded), c)
        else
          let ((more, lineEnded), c) := lexPlainParts inFlow indent gap' lineEnded rounds c
          ((gap ++ part ++ more, lineEnded), c)

end Yaml
end SchemaLedger
