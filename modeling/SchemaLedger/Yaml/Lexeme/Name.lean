import SchemaLedger.Text.Utf8
import SchemaLedger.Yaml.Token

/-!
# Names, tags and directives

How they are read from the place where they start.  Loops that have no list to
recurse on count rounds, here and in the scalars; as every round uses up a
character, the length of what is left bounds them.
-/

namespace SchemaLedger
namespace Yaml

/-! ## Names and tags -/

/-- A name behind an indicator: one or more word characters, with a gap or an
indicator behind them. -/
def lexName (c : Cursor) : Except Stop (Text × Cursor) :=
  let (name, c) := c.next.takeWhile isWordChar
  let after := c.peek
  if name.isEmpty then .error .malformed
  else if isGap after || "?:,]\x7d%@\x60".text.contains after then .ok (name, c)
  else .error .malformed

def lexHandle (c : Cursor) : Except Stop (Text × Cursor) :=
  if c.peek ≠ '!' then .error .malformed
  else if c.peek 1 = ' ' then .ok ([.char '!'], c.next)
  else
    let (word, c) := c.next.takeWhile isWordChar
    if c.peek = '!' then .ok (.char '!' :: word ++ [.char '!'], c.next) else .error .malformed

def isUriChar (c : CodePoint) : Bool :=
  c.isAlphanum || "-;/?:@&=+$,_.!~*'()[]".text.contains c

def hexValue? (c : CodePoint) : Option Nat :=
  if c.isDigit then some (c.toNat - '0'.toNat)
  else
    let c := c.toLower
    if 'a' ≤ c && c ≤ 'f' then some (c.toNat - 'a'.toNat + 10) else none

def lexEscapes : (rounds : Nat) → Cursor → Except Stop (Bytes × Cursor)
  | 0, c => .ok ([], c)
  | rounds + 1, c =>
    if c.peek ≠ '%' then .ok ([], c)
    else match hexValue? (c.peek 1), hexValue? (c.peek 2) with
      | some high, some low => do
        let (bytes, c) ← lexEscapes rounds (c.skip 3)
        return (UInt8.ofNat (16 * high + low) :: bytes, c)
      | _, _ => .error .malformed

def lexUriParts : (rounds : Nat) → Cursor → Except Stop (Text × Cursor)
  | 0, c => .ok ([], c)
  | rounds + 1, c => do
    if c.peek = '%' then
      let (bytes, c) ← lexEscapes c.rest.length c
      match Utf8.decode bytes with
      | .error _ => .error .malformed
      | .ok t =>
        let (more, c) ← lexUriParts rounds c
        return (t ++ more, c)
    else if isUriChar c.peek then
      let (part, c) := c.takeWhile isUriChar
      let (more, c) ← lexUriParts rounds c
      return (part ++ more, c)
    else return ([], c)

def lexUri (c : Cursor) : Except Stop (Text × Cursor) :=
  if c.peek = '%' || isUriChar c.peek then lexUriParts c.rest.length c else .error .malformed

/-- A tag: a URI in angle brackets, nothing at all, or a handle and a suffix. -/
def lexTag (c : Cursor) : Except Stop (Token × Cursor) := do
  let (token, c) ←
    if c.peek 1 = '<' then do
      let (uri, c) ← lexUri (c.skip 2)
      if c.peek = '>' then pure (Token.tag none uri, c.next) else .error .malformed
    else if isGap (c.peek 1) then pure (Token.tag none [.char '!'], c.next)
    else do
      let word := c.next.rest.takeWhile fun ch => !isSpaceOrEnd ch
      let (handle, c) ← if word.contains '!' then lexHandle c else pure ([.char '!'], c.next)
      let (suffix, c) ← lexUri c
      pure (Token.tag (some handle) suffix, c)
  if isSpaceOrEnd c.peek then return (token, c) else .error .malformed

/-! ## Directives -/

def lexNumber (c : Cursor) : Except Stop (Nat × Cursor) :=
  let (digits, c) := c.takeWhile CodePoint.isDigit
  if digits.isEmpty then .error .malformed
  else if digits.length > Scalar.digitLimit then
    .error (.fault (.tooManyDigits (some digits.length)))
  else .ok (digits.foldl (fun n d => 10 * n + (d.toNat - '0'.toNat)) 0, c)

def lexVersion (c : Cursor) : Except Stop (Directive × Cursor) := do
  let (major, c) ← lexNumber c.skipSpaces
  if c.peek ≠ '.' then .error .malformed
  else
    let (minor, c) ← lexNumber c.next
    if isSpaceOrEnd c.peek then return (.version major minor, c) else .error .malformed

def lexTagDirective (c : Cursor) : Except Stop (Directive × Cursor) := do
  let (handle, c) ← lexHandle c.skipSpaces
  if c.peek ≠ ' ' then .error .malformed
  else
    let (shorthand, c) ← lexUri c.skipSpaces
    if isSpaceOrEnd c.peek then return (.tag handle shorthand, c) else .error .malformed

def lexDirective (c : Cursor) : Except Stop (Token × Cursor) := do
  let (name, c) := c.next.takeWhile isWordChar
  if name.isEmpty || !isSpaceOrEnd c.peek then .error .malformed
  else
    let (directive, c) ←
      if name = "YAML".text then lexVersion c
      else if name = "TAG".text then lexTagDirective c
      else pure (.other, c.skipLine)
    return (.directive directive, ← c.endLine)

end Yaml
end SchemaLedger
