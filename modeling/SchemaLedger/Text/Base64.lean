import SchemaLedger.Text.Utf8

namespace SchemaLedger
namespace Base64

def value? (c : CodePoint) : Option Nat :=
  let n := c.toNat
  if 'A' ≤ c && c ≤ 'Z' then some (n - 65)
  else if 'a' ≤ c && c ≤ 'z' then some (n - 97 + 26)
  else if c.isDigit then some (n - 48 + 52)
  else if c = '+' then some 62
  else if c = '/' then some 63
  else none

/-- Decodes from somewhere within a group of four.  `place` counts the characters
of the group so far, `left` holds their bits that no byte has taken, and `pads`
counts the equals signs directly in front.  Characters that stand for nothing
are passed over; a complete padding ends the text; a group that is not complete
at the end is an error. -/
def decodeFrom (place left pads : Nat) : Text → Option Bytes
  | [] => if place = 0 then some [] else none
  | c :: rest =>
    if c = '=' then
      if place < 2 then decodeFrom place left pads rest
      else if place + pads + 1 ≥ 4 then some []
      else decodeFrom place left (pads + 1) rest
    else match value? c with
      | none => decodeFrom place left pads rest
      | some v =>
        if place = 0 then decodeFrom 1 v 0 rest
        else if place = 1 then
          (decodeFrom 2 (v % 16) 0 rest).map (UInt8.ofNat (left * 4 + v / 16) :: ·)
        else if place = 2 then
          (decodeFrom 3 (v % 4) 0 rest).map (UInt8.ofNat (left * 16 + v / 4) :: ·)
        else (decodeFrom 0 0 0 rest).map (UInt8.ofNat (left * 64 + v) :: ·)

def decode (t : Text) : Option Bytes :=
  decodeFrom 0 0 0 t

end Base64
end SchemaLedger
