import SchemaLedger.Text.Quoted

namespace SchemaLedger
namespace Scalar

inductive Fault
  | notWhole (base : Nat) (literal : Text)
  /-- More decimal digits than are converted; their count is known when a text
  was read and unknown when a number was to be written. -/
  | tooManyDigits (count : Option Nat)
  | notReal (literal : Text)
  | notTruth (literal : Text)
  | emptyNumber
  | notMoment
  | year (n : Nat)
  | month
  | day
  | hour
  | minute
  | second
  /-- An offset from universal time of a day or more; `days` and `seconds` are
  its parts, the seconds counted forward. -/
  | offset (days : Int) (seconds : Nat)
  /-- A part of a number to the base sixty that counts more than any
  floating-point number. -/
  | tooLarge
  /-- A collection where only a scalar is looked at. -/
  | notScalar
  /-- A value that is given by itself, or a document that goes too deep. -/
  | endless
  | codePoint
  /-- A code point that does not even fit into a machine word. -/
  | codePointSize
deriving DecidableEq, Repr

def durationParts (days : Int) (seconds : Nat) : List Text :=
  (if days = 0 then [] else ["days=".text ++ Text.ofInt days]) ++
    if seconds = 0 then [] else ["seconds=".text ++ Text.ofNat seconds]

/-- A duration in days and seconds as it is shown in messages and values. -/
def durationText (days : Int) (seconds : Nat) : Text :=
  let parts := durationParts days seconds
  "datetime.timedelta(".text ++
    (if parts.isEmpty then [.char '0'] else Text.joined ", ".text parts) ++ [.char ')']

/-- The most characters of a literal that is no whole number that are shown, its
quotes and escapes included. -/
def shownLimit : Nat := 200

def digitLimit : Nat := 4300

def Fault.message : Fault → Text
  | .notWhole base literal =>
    "invalid literal for int() with base ".text ++ Text.ofNat base ++ ": ".text ++
      (Text.quoted literal).take shownLimit
  | .tooManyDigits count =>
    let measured := match count with
      | some count => ": value has ".text ++ Text.ofNat count ++ " digits".text
      | none => []
    "Exceeds the limit (".text ++ Text.ofNat digitLimit ++
      " digits) for integer string conversion".text ++ measured ++
      "; use sys.set_int_max_str_digits() to increase the limit".text
  | .notReal literal => "could not convert string to float: ".text ++ Text.quoted literal
  | .notTruth literal => Text.quoted literal
  | .emptyNumber => "string index out of range".text
  | .notMoment => "'NoneType' object has no attribute 'groupdict'".text
  | .year n => "year ".text ++ Text.ofNat n ++ " is out of range".text
  | .month => "month must be in 1..12".text
  | .day => "day is out of range for month".text
  | .hour => "hour must be in 0..23".text
  | .minute => "minute must be in 0..59".text
  | .second => "second must be in 0..59".text
  | .offset days seconds =>
    ("offset must be a timedelta strictly between -timedelta(hours=24) and " ++
      "timedelta(hours=24), not ").text ++ durationText days seconds ++ [.char '.']
  | .tooLarge => "int too large to convert to float".text
  | .notScalar => "expected string or bytes-like object, got 'list'".text
  | .endless => "maximum recursion depth exceeded".text
  | .codePoint => "chr() arg not in range(0x110000)".text
  | .codePointSize => "Python int too large to convert to C int".text

end Scalar
end SchemaLedger
