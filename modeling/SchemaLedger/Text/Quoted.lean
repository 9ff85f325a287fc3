import SchemaLedger.Text.Printable

namespace SchemaLedger
namespace Text

def quoteFor (t : Text) : CodePoint :=
  if t.contains '\'' && !t.contains '"' then '"' else '\''

/-- One character between two quotes of the kind `quote`. -/
def quotedChar (quote c : CodePoint) : Text :=
  if c = quote || c = '\\' then ['\\', c]
  else if c = '\n' then [.char '\\', .char 'n']
  else if c = '\r' then [.char '\\', .char 'r']
  else if c = '\t' then [.char '\\', .char 't']
  else if isPrintable c then [c]
  else if c.toNat < 0x100 then .char '\\' :: .char 'x' :: hex 2 c.toNat
  else if c.toNat < 0x10000 then .char '\\' :: .char 'u' :: hex 4 c.toNat
  else .char '\\' :: .char 'U' :: hex 8 c.toNat

def quoted (t : Text) : Text :=
  quoteFor t :: t.flatMap (quotedChar (quoteFor t)) ++ [quoteFor t]

end Text

def quotedByte (quote : CodePoint) (b : UInt8) : Text :=
  let c := CodePoint.ofNat b.toNat
  if c = quote || c = '\\' then ['\\', c]
  else if c = '\n' then [.char '\\', .char 'n']
  else if c = '\r' then [.char '\\', .char 'r']
  else if c = '\t' then [.char '\\', .char 't']
  else if 0x20 ≤ b.toNat && b.toNat < 0x7F then [c]
  else .char '\\' :: .char 'x' :: Text.hex 2 b.toNat

/-- A row of bytes: quoted like a text, marked by a `b` in front. -/
def quotedBytes (bytes : List UInt8) : Text :=
  let quote := Text.quoteFor (bytes.map fun b => CodePoint.ofNat b.toNat)
  .char 'b' :: quote :: bytes.flatMap (quotedByte quote) ++ [quote]

end SchemaLedger
