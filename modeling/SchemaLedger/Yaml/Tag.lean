import SchemaLedger.Scalar.Moment
import SchemaLedger.Scalar.Real

/-!
# Tags

A tag says what kind of value a part of a document stands for.  Parts without a
written tag get one from their form: a scalar without quotes from its spelling,
everything else from whether it is a text, a list or a mapping.
-/

namespace SchemaLedger
namespace Yaml

inductive Tag
  | null
  | truth
  | whole
  | real
  | bytes
  | timestamp
  | text
  | list
  | map
  | set
  | pairs
  /-- A key whose value is merged into the mapping. -/
  | merge
  /-- A key that gives a mapping a value of its own. -/
  | default
  | unknown
deriving DecidableEq, Repr

namespace Tag

def space : Text := "tag:yaml.org,2002:".text

def names : List (Text × Tag) :=
  [("null".text, null), ("bool".text, truth), ("int".text, whole),
   ("float".text, real), ("binary".text, bytes), ("timestamp".text, timestamp),
   ("str".text, text), ("seq".text, list), ("map".text, map), ("set".text, set),
   ("omap".text, pairs), ("pairs".text, pairs), ("merge".text, merge),
   ("value".text, default)]

def ofUri (uri : Text) : Tag :=
  ((Text.after? space uri).bind fun name => names.lookup name).getD unknown

end Tag

/-! ## Spellings -/

def truthSpellings : List Text :=
  ["yes", "Yes", "YES", "no", "No", "NO", "true", "True", "TRUE", "false", "False", "FALSE",
   "on", "On", "ON", "off", "Off", "OFF"].map String.text

def nullSpellings : List Text :=
  ["~", "null", "Null", "NULL"].map String.text

/-- A digit, or an underscore, which may stand between digits. -/
def isSpacedDigit (c : CodePoint) : Bool :=
  c.isDigit || c = '_'

def unsigned (t : Text) : Text :=
  (Scalar.signed t).2

def isRun (p : CodePoint → Bool) (t : Text) : Bool :=
  !t.isEmpty && t.all p

def isSpacedNumber (t : Text) : Bool :=
  (t.headD (.char '_')).isDigit && t.all isSpacedDigit

def isSixtieth (t : Text) : Bool :=
  match t with
  | [d] => d.isDigit
  | [tens, d] => '0' ≤ tens && tens ≤ '5' && d.isDigit
  | _ => false

def isSixtieths (parts : List Text) : Bool :=
  !parts.isEmpty && parts.all isSixtieth

def spellsWhole (t : Text) : Bool :=
  let digits := unsigned t
  match digits with
  | [.char '0'] => true
  | .char '0' :: .char 'b' :: rest =>
      isRun (fun (c : CodePoint) => c = '0' || c = '1' || c = '_') rest
  | .char '0' :: .char 'x' :: rest =>
    isRun (fun c => c.isDigit || c = '_' || ('a' ≤ c && c ≤ 'f') || ('A' ≤ c && c ≤ 'F')) rest
  | .char '0' :: rest => isRun (fun c => ('0' ≤ c && c ≤ '7') || c = '_') rest
  | _ =>
    match Text.splitOn ':' digits with
    | [first] => isSpacedNumber first
    | first :: sixtieths => isSpacedNumber first && isSixtieths sixtieths
    | [] => false

/-- Nothing, or an exponent whose sign is written. -/
def isExponent : Text → Bool
  | [] => true
  | letter :: sign :: digits =>
    (letter = 'e' || letter = 'E') && (sign = '-' || sign = '+') && isRun CodePoint.isDigit digits
  | _ => false

def isPlaces (t : Text) : Bool :=
  isExponent (t.dropWhile isSpacedDigit)

def spellsReal (t : Text) : Bool :=
  let digits := unsigned t
  let whole := digits.takeWhile (· != .char '.')
  match digits.drop whole.length with
  | [] => false
  | _ :: places =>
    match whole, Text.splitOn ':' whole with
    | [], _ =>
      ["inf".text, "Inf".text, "INF".text].contains places ||
        (digits = t && (["nan".text, "NaN".text, "NAN".text].contains places ||
          ((places.headD (.char '_')).isDigit && isPlaces places)))
    | _, [first] => isSpacedNumber first && isPlaces places
    | _, first :: sixtieths =>
      isSpacedNumber first && isSixtieths sixtieths && places.all isSpacedDigit
    | _, [] => false

/-- A date without a time must have all its digits. -/
def spellsTimestamp (t : Text) : Bool :=
  match Scalar.parseTimestamp? t with
  | none => false
  | some (.date _) => t.length = 10
  | some (.moment _) => true

/-- What a text without quotes and tag is.  A newline at its end does not
count. -/
def Tag.ofSpelling (t : Text) : Tag :=
  let spelling := if t.getLast? = some (.char '\n') then t.dropLast else t
  if t.isEmpty then .null
  else if truthSpellings.contains spelling then .truth
  else if spellsReal spelling then .real
  else if spellsWhole spelling then .whole
  else if spelling = "<<".text then .merge
  else if nullSpellings.contains spelling then .null
  else if spellsTimestamp spelling then .timestamp
  else if spelling = [.char '='] then .default
  else .text

end Yaml
end SchemaLedger
