import SchemaLedger.Text.Digit
import SchemaLedger.Text.Quoted

/-!
# Grammars of command lines

A grammar says what a command line may hold: switches, which may stand anywhere
and be shortened as long as they stay unique, and at most one operand.  The
operand may be the name of a command, which then gets everything behind it.  Here
is what each argument is by itself.
-/

namespace SchemaLedger
namespace Cli

inductive Effect
  /-- Shows how the command is used and ends the program. -/
  | help
  | flag
  /-- Takes the next argument, or what is attached with an equals sign. -/
  | value
deriving DecidableEq, Repr

/-- The last spelling of a switch is the one that it is looked up by; `excludes`
lists the switches that it cannot go together with. -/
structure Switch where
  spellings : List Text
  effect : Effect
  excludes : List Text := []
deriving DecidableEq, Repr

def Switch.key (s : Switch) : Text :=
  s.spellings.getLastD []

def Switch.label (s : Switch) : Text :=
  Text.joined [.char '/'] s.spellings

inductive Operand
  | none
  | optional
  | required (name : Text)
  | command (name : Text) (choices : List Text)
deriving DecidableEq, Repr

structure Grammar where
  /-- The program and the commands so far, for messages. -/
  program : Text
  switches : List Switch
  operand : Operand := .none
deriving DecidableEq, Repr

/-! ## Errors -/

inductive UsageError
  | ambiguous (given : Text) (candidates : List Text)
  | noValue (label : Text)
  | unwantedValue (label value : Text)
  | conflict (label other : Text)
  | invalidChoice (operand given : Text) (choices : List Text)
  | missing (operand : Text)
  | unrecognized (extras : List Text)
deriving DecidableEq, Repr

def UsageError.message : UsageError → Text
  | .ambiguous given candidates =>
    "ambiguous option: ".text ++ given ++ " could match ".text ++
      Text.joined ", ".text candidates
  | .noValue label => "argument ".text ++ label ++ ": expected one argument".text
  | .unwantedValue label value =>
    "argument ".text ++ label ++ ": ignored explicit argument ".text ++ Text.quoted value
  | .conflict label other =>
    "argument ".text ++ label ++ ": not allowed with argument ".text ++ other
  | .invalidChoice operand given choices =>
    "argument ".text ++ operand ++ ": invalid choice: ".text ++ Text.quoted given ++
      " (choose from ".text ++ Text.joined ", ".text (choices.map Text.quoted) ++ [.char ')']
  | .missing operand => "the following arguments are required: ".text ++ operand
  | .unrecognized extras => "unrecognized arguments: ".text ++ Text.joined [.char ' '] extras

inductive Exit
  | help
  | usage (program : Text) (error : UsageError)
deriving DecidableEq, Repr

def Exit.status : Exit → Nat
  | .help => 0
  | .usage .. => 2

def Exit.message : Exit → Text
  | .help => []
  | .usage program error => program ++ ": error: ".text ++ error.message

/-! ## What an argument is -/

/-- `attached` is what is written into the same argument as a switch, behind an
equals sign or directly behind its letter. -/
inductive Meaning
  /-- Two hyphens: everything behind them is an operand. -/
  | separator
  | operand
  | switch (switch : Switch) (spelling : Text) (attached : Option Text)
  | unknown
deriving DecidableEq, Repr

abbrev Argument := Text × Meaning

/-- A negative number, which is an operand although it starts with a hyphen. -/
def isNegativeNumber (t : Text) : Bool :=
  let t := if t.getLast? = some (.char '\n') then t.dropLast else t
  match t with
  | .char '-' :: rest =>
    match rest.dropWhile isDecimalDigit with
    | [] => !rest.isEmpty
    | .char '.' :: places => !places.isEmpty && places.all isDecimalDigit
    | _ => false
  | _ => false

namespace Grammar

def spellings (g : Grammar) : List (Text × Switch) :=
  g.switches.flatMap fun s => s.spellings.map (·, s)

def candidates (g : Grammar) (given : Text) : List (Text × Switch × Option Text) :=
  if "--".text.isPrefixOf given then
    let start := given.takeWhile (· != .char '=')
    let attached := (given.dropWhile (· != .char '=')).tail
    let value? := if given.contains '=' then some attached else none
    g.spellings.filterMap fun (spelling, s) =>
      if start.isPrefixOf spelling then some (spelling, s, value?) else none
  else
    g.spellings.filterMap fun (spelling, s) =>
      if spelling = given.take 2 then some (spelling, s, some (given.drop 2))
      else if given.isPrefixOf spelling then some (spelling, s, none)
      else none

/-- What one argument in front of any separator is. -/
def meaning (g : Grammar) (given : Text) : Except UsageError Meaning :=
  if given.head? ≠ some (.char '-') then .ok .operand
  else
    match g.spellings.lookup given with
    | some s => .ok (.switch s given none)
    | none =>
      if given.length = 1 then .ok .operand
      else
        let start := given.takeWhile (· != .char '=')
        match if given.contains '=' then g.spellings.lookup start else none with
        | some s => .ok (.switch s start (some (given.dropWhile (· != .char '=')).tail))
        | none =>
          match g.candidates given with
          | [(spelling, s, attached)] => .ok (.switch s spelling attached)
          | [] =>
            if isNegativeNumber given || given.contains ' ' then .ok .operand else .ok .unknown
          | several => .error (.ambiguous given (several.map (·.1)))

def meanings (g : Grammar) : List Text → Except UsageError (List Argument)
  | [] => .ok []
  | given :: rest =>
    if given = "--".text then .ok ((given, .separator) :: rest.map (·, .operand))
    else do
      let meaning ← g.meaning given
      return (given, meaning) :: (← meanings g rest)

end Grammar

end Cli
end SchemaLedger
