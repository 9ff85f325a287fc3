import SchemaLedger.Cli.Grammar

/-!
# Arguments of a command

A command line is read from its first argument to its last: switches take their
values, the first operand in turn is the operand, and what fits nowhere is kept
apart.
-/

namespace SchemaLedger
namespace Cli

inductive SwitchValue
  | text (t : Text)
  /-- Two hyphens, which are no value where one is attached: the switch was given
  nothing. -/
  | nothing
deriving DecidableEq, Repr

def SwitchValue.ofAttached (t : Text) : SwitchValue :=
  if t = "--".text then .nothing else .text t

/-- What a command line holds: the values of switches by their keys, the latest
first, the operand or the command with its arguments, and what fits nowhere. -/
structure Given where
  values : List (Text × SwitchValue) := []
  operand : Option Text := none
  command : Option (Text × List Text) := none
  /-- Whether the operand had its turn. -/
  filled : Bool := false
  extras : List Text := []
deriving DecidableEq, Repr

namespace Given

def value? (g : Given) (key : Text) : Option SwitchValue :=
  g.values.lookup key

def has (g : Given) (key : Text) : Bool :=
  (g.value? key).isSome

def record (given : Given) (grammar : Grammar) (s : Switch) (value : SwitchValue) :
    Except UsageError Given :=
  match s.excludes.find? given.has with
  | some other =>
    let label := ((grammar.switches.find? (·.key = other)).map Switch.label).getD other
    .error (.conflict s.label label)
  | none => .ok { given with values := (s.key, value) :: given.values }

end Given

def isSeparator : Argument → Bool
  | (_, .separator) => true
  | _ => false

/-- An argument that starts with a hyphen and is read as a switch. -/
def isSwitch : Argument → Bool
  | (_, .switch ..) | (_, .unknown) => true
  | _ => false

/-- The first operand of the arguments with the separators around it, if the
arguments begin with one; what is cut off comes first. -/
def cutOperand (arguments : List Argument) : Option (List Text × List Argument) :=
  let before := arguments.takeWhile isSeparator
  match arguments.dropWhile isSeparator with
  | (operand, .operand) :: rest =>
    some ((before.map (·.1) ++ operand :: (rest.takeWhile isSeparator).map (·.1)),
      rest.dropWhile isSeparator)
  | _ => none

def fillOperand (grammar : Grammar) (given : Given) (arguments : List Argument) :
    Except UsageError (Given × List Argument) :=
  if given.filled then .ok (given, arguments)
  else
    match grammar.operand with
    | .none => .ok (given, arguments)
    | .optional =>
      match cutOperand arguments with
      | some (cut, rest) =>
        .ok ({ given with operand := (cut.erase "--".text).head?, filled := true }, rest)
      | none => .ok ({ given with filled := true }, arguments.dropWhile isSeparator)
    | .required _ =>
      match cutOperand arguments with
      | some (cut, rest) =>
        .ok ({ given with operand := (cut.erase "--".text).head?, filled := true }, rest)
      | none => .ok (given, arguments)
    | .command name choices =>
      match cutOperand arguments, arguments with
      | some _, (first, _) :: rest =>
        if choices.contains first then
          .ok ({ given with command := some (first, rest.map (·.1)), filled := true }, [])
        else .error (.invalidChoice name first choices)
      | _, _ => .ok (given, arguments)

/-- What is attached to a switch of one letter that takes no value must be more
such letters. -/
def checkLetters (grammar : Grammar) (s : Switch) : Text → Except UsageError Unit
  | [] => .error (.unwantedValue s.label [])
  | letter :: rest =>
    match grammar.spellings.lookup [.char '-', letter], rest with
    | none, _ => .error (.unwantedValue s.label (letter :: rest))
    | some _, [] => .ok ()
    | some s, c :: more => checkLetters grammar s (c :: more)

def takeSwitch (grammar : Grammar) (given : Given) (s : Switch) (spelling : Text)
    (attached : Option Text) (rest : List Argument) :
    Except Exit (Given × List Argument) :=
  let wrong (e : UsageError) : Exit := .usage grammar.program e
  match s.effect, attached with
  | .value, some attached => do
    return (← (given.record grammar s (.ofAttached attached)).mapError wrong, rest)
  | .value, none =>
    match rest with
    | (value, .operand) :: rest => do
      return (← (given.record grammar s (.text value)).mapError wrong, rest)
    | _ => .error (wrong (.noValue s.label))
  | .flag, none => do return (← (given.record grammar s (.text [])).mapError wrong, rest)
  | .help, none => .error .help
  | _, some attached =>
    if spelling[1]? = some (.char '-') then .error (wrong (.unwantedValue s.label attached))
    else
      match checkLetters grammar s attached with
      | .error e => .error (wrong e)
      | .ok () => .error .help

def finishArguments (grammar : Grammar) (given : Given) (arguments : List Argument) :
    Except Exit Given := do
  let wrong (e : UsageError) : Exit := .usage grammar.program e
  let (given, rest) ← (fillOperand grammar given arguments).mapError wrong
  let missing (name : Text) : Except Exit Given :=
    if given.filled then .ok { given with extras := given.extras ++ rest.map (·.1) }
    else .error (wrong (.missing name))
  match grammar.operand with
  | .required name | .command name _ => missing name
  | _ => .ok { given with extras := given.extras ++ rest.map (·.1) }

/-- Reads arguments from the first to the last.  Every round uses up at least
one of them, so as many rounds as arguments are enough. -/
def readArguments (grammar : Grammar) : (rounds : Nat) → Given → List Argument → Except Exit Given
  | 0, given, arguments => finishArguments grammar given arguments
  | rounds + 1, given, arguments =>
    if !arguments.any isSwitch then finishArguments grammar given arguments
    else
      match arguments with
      | [] => finishArguments grammar given []
      | (_, .switch s spelling attached) :: rest => do
        let (given, rest) ← takeSwitch grammar given s spelling attached rest
        readArguments grammar rounds given rest
      | (text, .unknown) :: rest =>
        readArguments grammar rounds { given with extras := given.extras ++ [text] } rest
      | arguments => do
        let (given, rest) ← (fillOperand grammar given arguments).mapError (.usage grammar.program)
        if rest.length < arguments.length then readArguments grammar rounds given rest
        else
          let skipped := (arguments.takeWhile fun a => !isSwitch a).map (·.1)
          readArguments grammar rounds { given with extras := given.extras ++ skipped }
            (arguments.dropWhile fun a => !isSwitch a)

namespace Grammar

def read (g : Grammar) (line : List Text) : Except Exit Given := do
  let arguments ← (g.meanings line).mapError (.usage g.program)
  readArguments g arguments.length {} arguments

end Grammar

end Cli
end SchemaLedger
