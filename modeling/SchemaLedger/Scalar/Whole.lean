import SchemaLedger.Scalar.Real

namespace SchemaLedger
namespace Scalar

def digitValue? (base : Nat) (c : CodePoint) : Option Nat :=
  let value? :=
    if c.isDigit then some (c.toNat - '0'.toNat)
    else
      let c := c.toLower
      if 'a' ≤ c && c ≤ 'f' then some (c.toNat - 'a'.toNat + 10) else none
  value?.filter (· < base)

def digitsValue (base : Nat) (digits : Text) : Nat :=
  digits.foldl (fun n c => base * n + (digitValue? base c).getD 0) 0

def baseLetter? : Nat → Option CodePoint
  | 2 => some (.char 'b')
  | 8 => some (.char 'o')
  | 16 => some (.char 'x')
  | _ => none

def withoutMark (base : Nat) : Text → Text
  | .char '0' :: letter :: rest =>
    if baseLetter? base = some letter.toLower then rest else .char '0' :: letter :: rest
  | t => t

/-- Reads a whole number in a base.  In a base that is no power of two only so
many digits are converted, whatever stands behind them. -/
def readWhole (base : Nat) (t : Text) : Except Fault Int :=
  let (negative, magnitude) := signed (numeral t)
  let marked := withoutMark base magnitude
  let digits := marked.takeWhile fun c => (digitValue? base c).isSome
  if (baseLetter? base).isNone && digits.length > digitLimit then
    .error (.tooManyDigits (some digits.length))
  else if digits.isEmpty || digits.length < marked.length then .error (.notWhole base t)
  else
    let n := digitsValue base digits
    .ok (if negative then -(n : Int) else n)

def wholeText (i : Int) : Except Fault Text :=
  if i.natAbs < Nat.pow 10 digitLimit then .ok (Text.ofInt i) else .error (.tooManyDigits none)

end Scalar
end SchemaLedger
