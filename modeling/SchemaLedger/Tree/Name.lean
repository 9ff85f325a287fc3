import SchemaLedger.Text.Utf8

/-!
# Names

The operating system takes names and arguments as bytes that end with a null
byte, so none of them can hold one.  A text that is no name is refused before
the operating system sees it.
-/

namespace SchemaLedger

inductive Unusable
  | unencodable (fault : Utf8.Unencodable)
  | null
deriving DecidableEq, Repr

def Unusable.message : Unusable → Text
  | .unencodable fault => fault.message
  | .null => "embedded null byte".text

namespace Text

def unencodable? (t : Text) : Option Utf8.Unencodable :=
  Utf8.unencodable? (fun c => c.isChar || c.isEscape) 0 t

def unusable? (t : Text) : Option Unusable :=
  match t.unencodable? with
  | some fault => some (.unencodable fault)
  | none => if t.contains (.char '\x00') then some .null else none

end Text

/-- The name of a file or folder, as its folder holds it. -/
structure Name where
  bytes : Bytes
  noNull : 0 ∉ bytes
deriving DecidableEq

namespace Name

/-- The name that a text stands for.  A text with a null byte never gets here. -/
def ofText (t : Text) : Name :=
  ⟨(Utf8.encode t).filter (· ≠ 0), by simp⟩

def text (name : Name) : Text :=
  Utf8.readName name.bytes

end Name

end SchemaLedger
