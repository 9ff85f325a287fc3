/-!
# Shortest decimals

Between two neighbouring floating-point numbers lie many decimals, and all of
those nearer to one of them than to its neighbours are read back as that one.
Here is the shortest such decimal, and of the shortest the nearest.
-/

namespace SchemaLedger
namespace Decimal

/-- A positive binary number `mantissa * 2 ^ exponent` among its neighbours.
`atPower` says that the neighbour below is only half as far away as the one
above. -/
structure Binary where
  mantissa : Nat
  exponent : Int
  atPower : Bool
deriving DecidableEq, Repr

structure Digits where
  digits : Nat
  exponent : Int
deriving DecidableEq, Repr

def power (base : Nat) (exponent : Int) : Nat × Nat :=
  match exponent with
  | .ofNat n => (base.pow n, 1)
  | .negSucc n => (1, base.pow (n + 1))

namespace Binary

/-- The number in quarters of a unit of its last place, and the ends of the
interval of everything that is read as it. -/
def quarters (b : Binary) : Nat := 4 * b.mantissa

def lowQuarters (b : Binary) : Nat := b.quarters - if b.atPower then 1 else 2

def highQuarters (b : Binary) : Nat := b.quarters + 2

def inUnits (b : Binary) (quarters : Nat) (exponent : Int) : Nat × Nat :=
  let (twoNum, twoDen) := power 2 b.exponent
  let (tenNum, tenDen) := power 10 exponent
  (quarters * twoNum * tenDen, 4 * twoDen * tenNum)

/-- Whether `digits * 10 ^ exponent` is read back as the number.  The ends of the
interval belong to it if the mantissa is even. -/
def reads (b : Binary) (d : Digits) : Bool :=
  let (low, lowDen) := b.inUnits b.lowQuarters d.exponent
  let (high, highDen) := b.inUnits b.highQuarters d.exponent
  if b.mantissa % 2 = 0 then low ≤ d.digits * lowDen && d.digits * highDen ≤ high
  else low < d.digits * lowDen && d.digits * highDen < high

def log2 (b : Binary) : Int := b.mantissa.log2 + b.exponent

def atLeastPower (b : Binary) (exponent : Int) : Bool :=
  let (num, den) := b.inUnits b.quarters exponent
  den ≤ num

/-- The power of ten next below the number: an estimate by the logarithm of two,
which is off by one at most. -/
def log10 (b : Binary) : Int :=
  let estimate := Int.fdiv (b.log2 * 30103) 100000
  if b.atLeastPower (estimate + 1) then estimate + 1
  else if b.atLeastPower estimate then estimate
  else estimate - 1

/-- The decimal on the grid of `10 ^ exponent` that is nearest to the number
among those that are read back as it.  Only the two neighbours of the number on
the grid need a look; a tie goes to the even one. -/
def onGrid? (b : Binary) (exponent : Int) : Option Digits :=
  let (num, den) := b.inUnits b.quarters exponent
  let below : Digits := ⟨num / den, exponent⟩
  let above : Digits := ⟨num / den + 1, exponent⟩
  let remainder := num % den
  let belowFirst :=
    2 * remainder < den || (2 * remainder = den && below.digits % 2 = 0)
  let nearer := if belowFirst then below else above
  let farther := if belowFirst then above else below
  if b.reads nearer then some nearer
  else if b.reads farther then some farther
  else none

def mostDigits : Nat := 17

def shortest (b : Binary) : Digits :=
  let top := b.log10
  let grids := (List.range mostDigits).map fun (k : Nat) => top - k
  (grids.findSome? b.onGrid?).getD ⟨0, 0⟩

end Binary
end Decimal
end SchemaLedger
