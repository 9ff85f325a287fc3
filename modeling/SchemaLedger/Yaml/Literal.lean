import SchemaLedger.Fault
import SchemaLedger.Text.Base64
import SchemaLedger.Text.Small
import SchemaLedger.Yaml.Tag
import SchemaLedger.Yaml.Value

namespace SchemaLedger
namespace Yaml

def withoutUnderscores (t : Text) : Text :=
  t.filter fun c => c != '_'

/-- A number written in parts to the base sixty, the last part counting single
units. -/
def sixtyfold (parts : List Int) : Int :=
  parts.foldl (fun n part => 60 * n + part) 0

/-- A whole number: `0b` and `0x` announce bits and hexadecimal digits, another
zero in front octal ones, and colons separate parts to the base sixty. -/
def readWhole (t : Text) : Except Scalar.Fault Int := do
  let (negative, digits) := Scalar.signed (withoutUnderscores t)
  let n ← match digits with
    | [] => .error .emptyNumber
    | [.char '0'] => pure 0
    | .char '0' :: .char 'b' :: rest => Scalar.readWhole 2 rest
    | .char '0' :: .char 'x' :: rest => Scalar.readWhole 16 rest
    | .char '0' :: _ => Scalar.readWhole 8 digits
    | _ =>
      if digits.contains ':' then
        sixtyfold <$> (Text.splitOn ':' digits).mapM (Scalar.readWhole 10)
      else Scalar.readWhole 10 digits
  return if negative then -n else n

/-- The parts of a number to the base sixty added up from the last one on, which
decides how the sum is rounded.  What a part counts must itself be such a
number. -/
def sixtyfoldReal (parts : List Float) : Except Scalar.Fault Float :=
  let add (sumAndUnit : Float × Nat) (part : Float) : Except Scalar.Fault (Float × Nat) :=
    let (sum, unit) := sumAndUnit
    let size := Float.ofNat unit
    if size.isInf then .error .tooLarge else .ok (sum + part * size, 60 * unit)
  (parts.reverse.foldlM add (0.0, 1)).map (·.1)

def readReal (origin : NodeId) (t : Text) : Except Scalar.Fault Value := do
  let small := Text.small (withoutUnderscores t)
  let (negative, digits) := Scalar.signed small
  if digits = ".nan".text then return .nan none
  else
    let f ←
      if small.isEmpty then .error .emptyNumber
      else if digits = ".inf".text then pure (1.0 / 0.0)
      else if digits.contains ':' then
        sixtyfoldReal (← (Text.splitOn ':' digits).mapM Scalar.readReal)
      else Scalar.readReal digits
    return .ofFloat origin (if negative then -f else f)

def readTruth (t : Text) : Except Scalar.Fault Bool :=
  let small := Text.small t
  if ["yes".text, "true".text, "on".text].contains small then .ok true
  else if ["no".text, "false".text, "off".text].contains small then .ok false
  else .error (.notTruth small)

def readBytes (t : Text) : Except Fault Bytes :=
  if t.all fun c => c.toNat < 128 then
    match Base64.decode t with
    | some bytes => .ok bytes
    | none => .error .document
  else .error .document

def readTimestamp (t : Text) : Except Scalar.Fault Value :=
  (Scalar.readTimestamp t).map fun
    | .date d => .date d
    | .moment m => .moment m

/-- The value of a scalar by its tag, read for a node.  There is none for the tag
of a collection and for no known one. -/
def readLiteral (tag : Tag) (origin : NodeId) (t : Text) : Except Fault Value :=
  match tag with
  | .null => .ok .null
  | .truth => (readTruth t).mapError .scalar |>.map .truth
  | .whole => (readWhole t).mapError .scalar |>.map .whole
  | .real => (readReal origin t).mapError .scalar
  | .bytes => (readBytes t).map .bytes
  | .timestamp => (readTimestamp t).mapError .scalar
  | .text => .ok (.text t)
  | .list | .map | .set | .pairs | .merge | .default | .unknown => .error .document

end Yaml
end SchemaLedger
