import SchemaLedger.Dump.Residual
import SchemaLedger.Dump.Scan

namespace SchemaLedger
namespace Dump

structure Progress where
  state : State := .scanning
  residual : Text := []
  statements : List Statement := []
deriving DecidableEq, Repr

namespace Progress

def add (p : Progress) (s : Step) : Progress :=
  ⟨s.state, p.residual ++ s.residual, p.statements ++ s.extracted.toList⟩

def scan (p : Progress) : List Token → Except Fault Progress
  | [] => .ok p
  | token :: rest =>
    match step p.state token with
    | .error fault => .error fault
    | .ok s => scan (p.add s) rest

end Progress

structure Split where
  statements : List Statement
  bootstrap : Text
deriving DecidableEq, Repr

namespace Split

/-- The statements of one kind by name: every name once, where it first occurs,
with the last statement of that name. -/
def ofKind (s : Split) (kind : ObjectKind) : List (Text × Statement) :=
  let mine := s.statements.filter (·.kind = kind)
  (mine.map (·.name)).eraseDups.filterMap fun name =>
    (mine.reverse.find? (·.name = name)).map fun statement => (name, statement)

end Split

def separate (dump : Text) : Except Fault (List Statement × Text) :=
  match Progress.scan {} (tokens dump) with
  | .error fault => .error fault
  | .ok p =>
    match finish p.state with
    | .error fault => .error fault
    | .ok held => .ok (p.statements, Text.leadingBlanks dump ++ p.residual ++ held)

def split (dump : Text) (noise : List Text) : Except Fault Split :=
  (separate dump).map fun (statements, residual) => ⟨statements, cleaned noise residual⟩

end Dump
end SchemaLedger
