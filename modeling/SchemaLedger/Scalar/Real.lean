import SchemaLedger.Decimal.Shortest
import SchemaLedger.Scalar.Fault
import SchemaLedger.Text.Blank
import SchemaLedger.Text.Digit

namespace SchemaLedger
namespace Scalar

/-! ## Showing -/

def fractions : Nat := Nat.pow 2 52

def exponents : Nat := Nat.pow 2 11

def signBit : Nat := Nat.pow 2 63

/-- The parts of a finite number that its bits hold: the mantissa with its
hidden digit and the exponent of its last place. -/
def binaryOf (bits : Nat) : Decimal.Binary :=
  let fraction := bits % fractions
  let field := bits / fractions % exponents
  if field = 0 then ⟨fraction, -1074, false⟩
  else ⟨fraction + fractions, (field : Int) - 1075, fraction = 0 && field > 1⟩

/-- Digits without zeros at their end; `fuel` bounds how many are dropped. -/
def withoutZeros : (fuel : Nat) → Decimal.Digits → Decimal.Digits
  | 0, d => d
  | fuel + 1, d =>
    if d.digits % 10 = 0 && d.digits ≠ 0 then withoutZeros fuel ⟨d.digits / 10, d.exponent + 1⟩
    else d

def exponentText (e : Int) : Text :=
  .char 'e' :: (if e < 0 then '-' else '+') :: Text.padZeros 2 (Text.ofNat e.natAbs)

def isPositional (leading : Int) : Bool :=
  -4 ≤ leading && leading < 16

/-- Decimal digits as text.  A number written without an exponent has at least
one digit on either side of the point. -/
def digitsText (d : Decimal.Digits) : Text :=
  let digits := Text.ofNat d.digits
  let leading := d.exponent + digits.length - 1
  if isPositional leading then
    if leading < 0 then
      "0.".text ++ List.replicate (leading.natAbs - 1) (.char '0') ++ digits
    else
      let whole := leading.toNat + 1
      let places := digits.drop whole
      digits.take whole ++ List.replicate (whole - digits.length) (.char '0') ++ .char '.' ::
        (if places.isEmpty then [.char '0'] else places)
  else
    let places := digits.drop 1
    digits.take 1 ++ (if places.isEmpty then [] else .char '.' :: places) ++ exponentText leading

def realText (f : Float) : Text :=
  let bits := f.toBits.toNat
  if f.isNaN then "nan".text
  else
    let magnitude :=
      if f.isInf then "inf".text
      else if bits % signBit = 0 then "0.0".text
      else digitsText (withoutZeros Decimal.Binary.mostDigits (binaryOf bits).shortest)
    if bits ≥ signBit then .char '-' :: magnitude else magnitude

/-! ## Reading -/

/-- Beyond this many places before or behind the point a number is infinite or
zero whatever its digits are. -/
def placesLimit : Int := 400

def realOf (digits : Nat) (exponent : Int) : Float :=
  let leading := exponent + (Text.ofNat digits).length
  if digits = 0 || leading < -placesLimit then 0.0
  else if leading > placesLimit then 1.0 / 0.0
  else Float.ofScientific digits (exponent < 0) exponent.natAbs

/-- The blanks that may stand around a number: all but the information
separators. -/
def isMargin (c : CodePoint) : Bool :=
  isBlank c && !(0x1C ≤ c.toNat && c.toNat ≤ 0x1F)

def numeral (t : Text) : Text :=
  (Text.dropEndWhile isMargin (t.dropWhile isMargin)).map fun c =>
    match decimalValue? c with
    | some n => CodePoint.ofNat ('0'.toNat + n)
    | none => c

def signed : Text → Bool × Text
  | .char '-' :: rest => (true, rest)
  | .char '+' :: rest => (false, rest)
  | t => (false, t)

def readExponent? : Text → Option Int
  | [] => some 0
  | c :: rest =>
    if c = 'e' || c = 'E' then
      let (negative, digits) := signed rest
      (Text.decimal? digits).map fun n => if negative then -(n : Int) else n
    else none

def readMagnitude? (t : Text) : Option Float :=
  let whole := t.takeWhile CodePoint.isDigit
  let rest := t.dropWhile CodePoint.isDigit
  let (places, rest) := match rest with
    | .char '.' :: rest => (rest.takeWhile CodePoint.isDigit, rest.dropWhile CodePoint.isDigit)
    | rest => ([], rest)
  match Text.decimal? (whole ++ places), readExponent? rest with
  | some digits, some exponent => some (realOf digits (exponent - places.length))
  | _, _ => none

def readReal (t : Text) : Except Fault Float :=
  let (negative, magnitude) := signed (numeral t)
  let small := magnitude.map CodePoint.toLower
  let read? :=
    if small = "inf".text || small = "infinity".text then some (1.0 / 0.0)
    else if small = "nan".text then some (0.0 / 0.0)
    else readMagnitude? magnitude
  match read? with
  | some f => .ok (if negative then -f else f)
  | none => .error (.notReal t)

end Scalar
end SchemaLedger
