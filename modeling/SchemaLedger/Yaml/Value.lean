import SchemaLedger.Scalar.Moment
import SchemaLedger.Scalar.Whole
import SchemaLedger.Text.Utf8
import SchemaLedger.Yaml.Node

namespace SchemaLedger
namespace Yaml

/-- A collection is known by its number in the document, for it may be reached in
several ways and even from within itself. -/
abbrev CollectionId := Nat

inductive Value
  | null
  | truth (b : Bool)
  | whole (i : Int)
  /-- A floating-point number that is one. -/
  | real (f : Float)
  /-- What is no number.  Such a value differs from all others but itself, so it
  carries the node that it was made for; what is written `.nan` is everywhere the
  same. -/
  | nan (origin : Option NodeId)
  | text (t : Text)
  | bytes (b : Bytes)
  | date (d : Scalar.Date)
  | moment (m : Scalar.Moment)
  | pair (first second : Value)
  | collection (id : CollectionId)
deriving Inhabited

inductive Collection
  | list (items : List Value)
  | map (entries : List (Value × Value))
  | set (items : List Value)

namespace Value

/-! ## Equality of keys -/

/-- The whole number that a value counts as when keys are compared: truth values
and floating-point numbers without a fraction count as whole numbers. -/
def keyNumber? : Value → Option Int
  | .truth b => some (if b then 1 else 0)
  | .whole i => some i
  | .real f =>
    if f.isFinite && f.floor == f then
      let size := Scalar.binaryOf (f.toBits.toNat % Scalar.signBit)
      let (num, den) := Decimal.power 2 size.exponent
      let n : Int := size.mantissa * num / den
      some (if f < 0 then -n else n)
    else none
  | _ => none

def sameKey (a b : Value) : Bool :=
  match keyNumber? a, keyNumber? b with
  | some m, some n => m = n
  | none, none =>
    match a, b with
    | .null, .null => true
    | .real f, .real g => f == g
    | .nan m, .nan n => m = n
    | .text s, .text t => s = t
    | .bytes s, .bytes t => s = t
    | .date d, .date e => d = e
    | .moment m, .moment n => m.isSame n
    | _, _ => false
  | _, _ => false

/-- Adds an entry to a mapping.  A key that is there keeps its place and gets the
new value. -/
def insertEntry (entries : List (Value × Value)) (key value : Value) : List (Value × Value) :=
  if entries.any fun (other, _) => sameKey other key then
    entries.map fun (other, old) => if sameKey other key then (other, value) else (other, old)
  else entries ++ [(key, value)]

def insertItem (items : List Value) (item : Value) : List Value :=
  if items.any (sameKey item) then items else items ++ [item]

/-! ## Single values -/

def ofFloat (origin : NodeId) (f : Float) : Value :=
  if f.isNaN then .nan (some origin) else .real f

def shown : Value → Except Scalar.Fault Text
  | .null => .ok "None".text
  | .truth b => .ok (if b then "True".text else "False".text)
  | .whole i => Scalar.wholeText i
  | .real f => .ok (Scalar.realText f)
  | .nan _ => .ok "nan".text
  | .text t => .ok (Text.quoted t)
  | .bytes b => .ok (quotedBytes b)
  | .date d => .ok d.shown
  | .moment m => .ok m.shown
  | .pair .. | .collection _ => .ok []

def lookup (entries : List (Value × Value)) (key : Text) : Option Value :=
  (entries.find? fun (other, _) => sameKey other (.text key)).map (·.2)

end Value

/-! ## Documents -/

/-- What a document stands for: a value and the collections that are reached
from it, by their numbers. -/
structure Document where
  root : Value := .null
  collections : Array Collection := #[]

namespace Document

def collection (d : Document) (id : CollectionId) : Collection :=
  d.collections.getD id (.list [])

def entries? (d : Document) : Value → Option (List (Value × Value))
  | .collection id =>
    match d.collection id with
    | .map entries => some entries
    | .list _ | .set _ => none
  | _ => none

def items? (d : Document) : Value → Option (List Value)
  | .collection id =>
    match d.collection id with
    | .list items => some items
    | .map _ | .set _ => none
  | _ => none

def isNothing (d : Document) : Value → Bool
  | .null => true
  | .truth b => !b
  | .whole i => i = 0
  | .real f => f == 0.0
  | .text t => t.isEmpty
  | .bytes b => b.isEmpty
  | .collection id =>
    match d.collection id with
    | .list items | .set items => items.isEmpty
    | .map entries => entries.isEmpty
  | _ => false

/-! ## Text -/

def bracketed (opening closing : CodePoint) (parts : List Text) : Text :=
  opening :: Text.joined ", ".text parts ++ [closing]

def ellipsis : Collection → Text
  | .list _ => "[...]".text
  | .map _ | .set _ => "\x7b...\x7d".text

/-- A value as it is shown inside a collection; `around` are the collections that
it stands in.  Every round enters a collection or a pair. -/
def shown (d : Document) : (rounds : Nat) → (around : List CollectionId) → Value →
    Except Scalar.Fault Text
  | 0, _, v => v.shown
  | rounds + 1, around, v =>
    match v with
    | .pair first second => do
      return bracketed '(' ')' [← shown d rounds around first, ← shown d rounds around second]
    | .collection id =>
      let shown := shown d rounds (id :: around)
      let collection := d.collection id
      if around.contains id then .ok (ellipsis collection)
      else match collection with
        | .list items => return bracketed '[' ']' (← items.mapM shown)
        | .map entries => do
          let parts ← entries.mapM fun (key, value) => do
            return (← shown key) ++ ": ".text ++ (← shown value)
          return bracketed '\x7b' '\x7d' parts
        | .set items => do
          if items.isEmpty then return "set()".text
          else return bracketed '\x7b' '\x7d' (← items.mapM shown)
    | v => v.shown

/-- A collection in itself is shown as such, so that the collections, each with a
pair inside, bound the rounds. -/
def rounds (d : Document) : Nat :=
  2 * d.collections.size + 2

/-- The text form of a value that stands alone: texts, dates and moments as they
are, everything else as inside a collection. -/
def text (d : Document) : Value → Except Scalar.Fault Text
  | .text t => .ok t
  | .date date => .ok date.text
  | .moment m => .ok m.text
  | v => d.shown d.rounds [] v

end Document
end Yaml
end SchemaLedger
