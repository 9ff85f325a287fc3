import SchemaLedger.Text.Basic

/-!
# Paths

A path is an anchor and the names behind it.  Reading a path normalises it:
empty names and single full stops vanish, a double full stop stays, because what
it means depends on the folders that exist.
-/

namespace SchemaLedger

/-- Where a path starts: at the working folder, at the top of the file system,
or at the separate top that exactly two leading slashes denote. -/
inductive Anchor
  | relative
  | top
  | secondTop
deriving DecidableEq, Repr

def Anchor.text : Anchor → Text
  | .relative => []
  | .top => [.char '/']
  | .secondTop => [.char '/', .char '/']

structure Path where
  anchor : Anchor
  names : List Text
deriving DecidableEq

namespace Path

/-- The anchor that a written path begins with: three or more slashes count as
one. -/
def anchorOf (t : Text) : Anchor :=
  match (t.takeWhile (· == .char '/')).length with
  | 0 => .relative
  | 2 => .secondTop
  | _ => .top

/-- Names that say where to go: neither empty nor a single full stop. -/
def isName (t : Text) : Bool :=
  !t.isEmpty && t != [.char '.']

def ofText (t : Text) : Path :=
  ⟨anchorOf t, (Text.splitOn '/' t).filter isName⟩

def text (p : Path) : Text :=
  if p.anchor = .relative ∧ p.names = [] then [.char '.']
  else p.anchor.text ++ Text.joined [.char '/'] p.names

def child (p : Path) (name : Text) : Path :=
  ⟨p.anchor, p.names ++ [name]⟩

def parent (p : Path) : Path :=
  ⟨p.anchor, p.names.dropLast⟩

def name (p : Path) : Text :=
  p.names.getLastD []

end Path

/-! ## Suffixes -/

namespace Text

/-- A file name cut at its last full stop, which goes to the suffix.  A full
stop at either end of the name starts no suffix. -/
def splitSuffix (name : Text) : Text × Text :=
  let suffix := (name.reverse.takeWhile (· != .char '.')).reverse
  let stem := ((name.reverse.dropWhile (· != .char '.')).drop 1).reverse
  if suffix.isEmpty || stem.isEmpty then (name, []) else (stem, .char '.' :: suffix)

end Text

namespace Path

def stem (p : Path) : Text :=
  (Text.splitSuffix p.name).1

def suffix (p : Path) : Text :=
  (Text.splitSuffix p.name).2

/-- Lists of names in the order of their first differing name. -/
def namesBefore : List Text → List Text → Bool
  | [], [] => false
  | [], _ :: _ => true
  | _ :: _, [] => false
  | a :: as, b :: bs => if a = b then namesBefore as bs else Text.before a b

def atMost (p q : Path) : Bool :=
  !namesBefore q.names p.names

end Path

end SchemaLedger
