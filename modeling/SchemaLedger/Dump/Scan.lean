import SchemaLedger.Dump.Statement

/-!
# Scanning a dump

A scan reads a dump token by token.  Between statements everything is residual;
behind `CREATE` tokens are held back until it is clear what is created; inside a
statement that becomes an artifact they are captured up to its end.
-/

namespace SchemaLedger
namespace Dump

inductive Phase
  | name
  | returns
  | returnType
  | delimiter
  | body
  | atomicBody
  | terminator
deriving DecidableEq, Repr

/-- A statement that is being captured.  The name is empty until its token came,
the delimiter until a dollar-quoted body began. -/
structure Capture where
  kind : ObjectKind
  line : Int
  text : Text
  phase : Phase
  name : Text := []
  delimiter : Text := []
deriving DecidableEq, Repr

inductive State
  | scanning
  /-- `CREATE` and header words so far. -/
  | pending (held : List Token)
  | capturing (capture : Capture)
deriving DecidableEq, Repr

/-- What one token leads to: the next state, text that turned out to be
residual, and the statement that the token completed. -/
structure Step where
  state : State
  residual : Text := []
  extracted : Option Statement := none
deriving DecidableEq, Repr

inductive Fault
  /-- The token in the place of the name starts with a bracket. -/
  | unnamed (kind : ObjectKind) (line : Int)
  /-- The dump ended inside a statement. -/
  | unfinished (capture : Capture)
  /-- `ATOMIC` came where the statement has no word before it; no scan that
  started between statements gets there. -/
  | nothingBefore
deriving DecidableEq, Repr

namespace Capture

def statement (c : Capture) : Statement :=
  ⟨c.kind, c.name, c.text, c.line⟩

def settle (c : Capture) (word : Text) : Step :=
  if endsStatement word then ⟨.scanning, [], some c.statement⟩ else ⟨.capturing c, [], none⟩

def go (c : Capture) : Except Fault Step :=
  .ok ⟨.capturing c, [], none⟩

/-- Whether the last word of a text is `BEGIN`; an error if it has no word. -/
def followsBegin (before : Text) : Except Fault Bool :=
  match (Text.words before).getLast? with
  | none => .error .nothingBefore
  | some word => .ok (Text.capitals word == "BEGIN".text)

def endsLine (before : Text) : Bool :=
  (Text.trailingBlanks before).contains '\n'

/-- A captured statement takes in one more token.  `before` is what was captured
until then; only the phases that look for the end of the statement can end
it. -/
def step (before : Capture) (token : Token) : Except Fault Step :=
  let word := token.word
  let c := { before with text := before.text ++ token.text }
  match before.phase with
  | .name =>
    let name := nameIn word
    if name.isEmpty then .error (.unnamed c.kind token.line)
    else if c.kind = .function then go { c with name, phase := .returns }
    else .ok ({ c with name, phase := .terminator }.settle word)
  | .returns =>
    if token.keyword = "RETURNS".text then go { c with phase := .returnType } else go c
  | .returnType =>
    let kind := if token.keyword = "TRIGGER".text then .trigger else c.kind
    go { c with kind, phase := .delimiter }
  | .delimiter =>
    match dollarTag? word with
    | some delimiter =>
      -- the whole body may sit inside one word
      if Text.hasInfix delimiter (word.drop delimiter.length) then
        .ok ({ c with delimiter, phase := .terminator }.settle word)
      else go { c with delimiter, phase := .body }
    | none =>
      -- without a body the first semicolon ends the statement
      if token.keyword = "ATOMIC".text then
        match followsBegin before.text with
        | .error fault => .error fault
        | .ok true => go { c with phase := .atomicBody }
        | .ok false => .ok (c.settle word)
      else .ok (c.settle word)
  | .atomicBody =>
    -- the `END;` that closes the body stands at the start of a line
    if token.keyword = "END;".text && endsLine before.text then
      .ok ({ c with phase := .terminator }.settle word)
    else go c
  | .body =>
    if Text.hasInfix c.delimiter word then .ok ({ c with phase := .terminator }.settle word)
    else go c
  | .terminator => .ok (c.settle word)

def missing (c : Capture) : Text :=
  match c.phase with
  | .name => "an object name".text
  | .returns => "RETURNS".text
  | .returnType => "a return type".text
  | .delimiter => "a body".text
  | .atomicBody => "the END; closing its BEGIN ATOMIC body".text
  | .body => "the closing ".text ++ c.delimiter ++ " delimiter".text
  | .terminator => "a terminating ';'".text

def label (c : Capture) : Text :=
  if c.name.isEmpty then c.kind.name else c.kind.name ++ " '".text ++ c.name ++ [.char '\'']

end Capture

def headerWords (held : List Token) : List Text :=
  held.tail.map Token.keyword

/-- Held tokens after one more came: the start of a capture, a longer start of a
header, or residual after all. -/
def pendingStep (held : List Token) : Step :=
  match header? (headerWords held) with
  | some header =>
    ⟨.capturing
      { kind := header.kind
        line := (held.head?.map Token.line).getD 0
        text := header.opening
        phase := .name }, [], none⟩
  | none =>
    if startsHeader (headerWords held) then ⟨.pending held, [], none⟩
    else ⟨.scanning, written held, none⟩

def step : State → Token → Except Fault Step
  | .scanning, token =>
    if token.keyword = "CREATE".text then .ok ⟨.pending [token], [], none⟩
    else .ok ⟨.scanning, token.text, none⟩
  | .pending held, token => .ok (pendingStep (held ++ [token]))
  | .capturing capture, token => capture.step token

def finish : State → Except Fault Text
  | .scanning => .ok []
  | .pending held => .ok (written held)
  | .capturing capture => .error (.unfinished capture)

namespace Fault

/-- The line that a fault is reported at; the fault that no dump can bring about
has none. -/
def line? : Fault → Option Int
  | .unnamed _ line => some line
  | .unfinished capture => some capture.line
  | .nothingBefore => none

def message : Fault → Text
  | .unnamed kind line =>
    "line ".text ++ Text.ofInt line ++ ": CREATE ".text ++ kind.keyword ++
      " has no object name".text
  | .unfinished capture =>
    "line ".text ++ Text.ofInt capture.line ++ ": ".text ++ capture.label ++
      " starting here is missing ".text ++ capture.missing ++ " before end of input".text
  | .nothingBefore => "list index out of range".text

end Fault

end Dump
end SchemaLedger
