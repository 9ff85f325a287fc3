import SchemaLedger.Text.Blank

/-!
# Environment files

A file of statements that give variables their values: a name, an equals sign
and a value, which may be quoted.  Newlines are the only line ends here.
-/

namespace SchemaLedger
namespace EnvFile

inductive Statement
  /-- A name without an equals sign has no value. -/
  | entry (name : Text) (value : Option Text)
  | broken (line : Nat)
deriving DecidableEq, Repr

def isGap (c : CodePoint) : Bool :=
  isBlank c && c != '\n'

def skipGap (t : Text) : Text :=
  t.dropWhile isGap

/-! ## Values -/

/-- A text cut at the quote that closes it.  A backslash takes the character
behind it along, so an escaped quote closes nothing. -/
def cutAtQuote (quote : CodePoint) : Text → Option (Text × Text)
  | [] => none
  | .char '\\' :: c :: rest =>
    (cutAtQuote quote rest).map fun (inside, after) => (.char '\\' :: c :: inside, after)
  | c :: rest =>
    if c = quote then some ([], rest)
    else (cutAtQuote quote rest).map fun (inside, after) => (c :: inside, after)

/-- What may follow a backslash between single quotes, with what it then stands
for. -/
def singleEscapes : List (CodePoint × CodePoint) :=
  [(.char '\\', .char '\\'), (.char '\'', .char '\'')]

def doubleEscapes : List (CodePoint × CodePoint) :=
  singleEscapes ++
    [(.char '"', .char '"'), (.char 'a', .char '\x07'), (.char 'b', .char '\x08'),
     (.char 'f', .char '\x0c'), (.char 'n', .char '\n'), (.char 'r', .char '\r'),
     (.char 't', .char '\t'), (.char 'v', .char '\x0b')]

/-- Replaces escapes.  A backslash in front of anything else stays. -/
def unescape (escapes : List (CodePoint × CodePoint)) : Text → Text
  | [] => []
  | [.char '\\'] => [.char '\\']
  | .char '\\' :: c :: rest =>
    match escapes.lookup c with
    | some d => d :: unescape escapes rest
    | none => .char '\\' :: unescape escapes (c :: rest)
  | c :: rest => c :: unescape escapes rest

/-- A line up to a number sign behind a blank; `blankBefore` says whether there is
one in front of the line. -/
def beforeRemark (blankBefore : Bool) : Text → Text
  | [] => []
  | c :: rest => if c = '#' && blankBefore then [] else c :: beforeRemark (isBlank c) rest

def readValue (behindSign : Text) : Except Text (Text × Text) :=
  let t := skipGap behindSign
  let quoted (quote : CodePoint) (escapes : List (CodePoint × CodePoint)) (rest : Text) :=
    match cutAtQuote quote rest with
    | some (inside, after) => .ok (unescape escapes inside, after)
    | none => .error t
  match t with
  | .char '\'' :: rest => quoted '\'' singleEscapes rest
  | .char '"' :: rest => quoted '"' doubleEscapes rest
  | t =>
    let line := t.takeWhile (· != .char '\n')
    let gapBefore := t.length < behindSign.length
    .ok (Text.trimRight (beforeRemark gapBefore line), t.drop line.length)

/-! ## Statements -/

def skipExport (t : Text) : Text :=
  match Text.after? "export".text t with
  | some (c :: rest) => if isGap c then skipGap rest else t
  | _ => t

def readName (t : Text) : Except Text (Option Text × Text) :=
  let named (name after : Text) :=
    if name.isEmpty then .error t else .ok (some name, after)
  match t with
  | .char '#' :: _ => .ok (none, t)
  | .char '\'' :: rest =>
    let name := rest.takeWhile (· != .char '\'')
    match rest.drop name.length with
    | _ :: after => named name after
    | [] => .error t
  | t =>
    let name := t.takeWhile fun c => c != .char '=' && c != .char '#' && !isBlank c
    named name (t.drop name.length)

def skipRemark (t : Text) : Text :=
  match skipGap t with
  | .char '#' :: rest => rest.dropWhile (· != .char '\n')
  | _ => t

def endLine (t : Text) : Except Text Text :=
  match skipGap t with
  | [] => .ok []
  | c :: rest => if c = '\n' then .ok rest else .error t

def readEntry (t : Text) : Except Text (Option (Text × Option Text) × Text) := do
  let (name, rest) ← readName (skipExport t)
  let (value, rest) ← match skipGap rest with
    | .char '=' :: rest => do
      let (value, rest) ← readValue rest
      pure (some value, rest)
    | rest => pure (none, rest)
  return (name.map fun name => (name, value), ← endLine (skipRemark rest))

def nextLine (t : Text) : Text :=
  (t.dropWhile (· != .char '\n')).drop 1

/-- Reads statements.  What cannot be read ends with its line.  Every round uses
up a character. -/
def readStatements : (rounds : Nat) → (line : Nat) → Text → List Statement
  | 0, _, _ => []
  | rounds + 1, line, t =>
    let start := t.dropWhile isBlank
    let lineOf (rest : Text) : Nat := line + (t.count (.char '\n') - rest.count (.char '\n'))
    if start.isEmpty then []
    else match readEntry start with
      | .ok (some (name, value), rest) =>
        .entry name value :: readStatements rounds (lineOf rest) rest
      | .ok (none, rest) => readStatements rounds (lineOf rest) rest
      | .error rest =>
        .broken line :: readStatements rounds (lineOf (nextLine rest)) (nextLine rest)

/-- The statements of a file.  A byte order mark in front of them says nothing. -/
def statements (t : Text) : List Statement :=
  let t := if t.head? = some byteOrderMark then t.tail else t
  readStatements t.length 1 t

end EnvFile
end SchemaLedger
