/-!
# Code points

A text may hold what is no character.  A byte of a file name that is no UTF-8,
and an escape that names half of a pair, both become a surrogate that stands by
itself; it passes through the program like a character, and no encoding takes
it.
-/

namespace SchemaLedger

/-- A character, or the surrogate that is `offset` behind the first one. -/
inductive CodePoint
  | char (c : Char)
  | surrogate (offset : Fin 0x800)
deriving DecidableEq, Repr

namespace CodePoint

instance : Coe Char CodePoint := ⟨char⟩

def firstSurrogate : Nat := 0xD800

def toNat : CodePoint → Nat
  | .char c => c.toNat
  | .surrogate offset => firstSurrogate + offset

/-- The code point of a number; numbers behind the last code point have none of
their own. -/
def ofNat (n : Nat) : CodePoint :=
  if h : firstSurrogate ≤ n ∧ n < firstSurrogate + 0x800 then
    .surrogate ⟨n - firstSurrogate, by omega⟩
  else .char (Char.ofNat n)

def isChar : CodePoint → Bool
  | .char _ => true
  | .surrogate _ => false

def char? : CodePoint → Option Char
  | .char c => some c
  | .surrogate _ => none

/-- The surrogate that stands for a byte from `80` on in a name that is no
UTF-8. -/
def escape (byte : UInt8) : CodePoint :=
  ofNat (0xDC00 + byte.toNat)

def isEscape (c : CodePoint) : Bool :=
  0xDC80 ≤ c.toNat && c.toNat ≤ 0xDCFF

@[simp] theorem toNat_char (c : Char) : (char c).toNat = c.toNat := rfl

theorem toNat_injective {a b : CodePoint} (h : a.toNat = b.toNat) : a = b := by
  cases a with
  | char c =>
    cases b with
    | char d => exact congrArg char (Char.toNat_inj.1 h)
    | surrogate offset =>
      have := c.valid
      simp only [toNat, firstSurrogate] at h
      unfold UInt32.isValidChar Nat.isValidChar at this
      unfold Char.toNat at h
      omega
  | surrogate offset =>
    cases b with
    | char d =>
      have := d.valid
      simp only [toNat, firstSurrogate] at h
      unfold UInt32.isValidChar Nat.isValidChar at this
      unfold Char.toNat at h
      omega
    | surrogate other =>
      simp only [toNat] at h
      exact congrArg surrogate (Fin.ext (by omega))

instance : LE CodePoint := ⟨fun a b => a.toNat ≤ b.toNat⟩

instance (a b : CodePoint) : Decidable (a ≤ b) :=
  inferInstanceAs (Decidable (a.toNat ≤ b.toNat))

/-! ## ASCII -/

def isDigit (c : CodePoint) : Bool :=
  48 ≤ c.toNat && c.toNat ≤ 57

def isUpper (c : CodePoint) : Bool :=
  65 ≤ c.toNat && c.toNat ≤ 90

def isLower (c : CodePoint) : Bool :=
  97 ≤ c.toNat && c.toNat ≤ 122

def isAlpha (c : CodePoint) : Bool :=
  c.isUpper || c.isLower

def isAlphanum (c : CodePoint) : Bool :=
  c.isAlpha || c.isDigit

def toUpper (c : CodePoint) : CodePoint :=
  if c.isLower then ofNat (c.toNat - 32) else c

def toLower (c : CodePoint) : CodePoint :=
  if c.isUpper then ofNat (c.toNat + 32) else c

end CodePoint

end SchemaLedger
