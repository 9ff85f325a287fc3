import SchemaLedger.Text.Basic

/-!
# Kinds of artifacts

An artifact tree has one folder for each kind of database object that is
replaced as a whole, one for migrations and one for seeds.  The database keeps
a tracking table for each but the seeds.
-/

namespace SchemaLedger

inductive ObjectKind
  | function
  | trigger
  | view
deriving DecidableEq, Repr

namespace ObjectKind

def all : List ObjectKind := [.function, .trigger, .view]

def name : ObjectKind → Text
  | .function => "function".text
  | .trigger => "trigger".text
  | .view => "view".text

/-- The name in capitals, as it stands behind `CREATE`. -/
def keyword : ObjectKind → Text
  | .function => "FUNCTION".text
  | .trigger => "TRIGGER".text
  | .view => "VIEW".text

def title : ObjectKind → Text
  | .function => "Function".text
  | .trigger => "Trigger".text
  | .view => "View".text

def folder : ObjectKind → Text
  | .function => "functions".text
  | .trigger => "triggers".text
  | .view => "views".text

/-- The table that records the digest of each applied artifact of a kind. -/
def table : ObjectKind → Text
  | .function => "pgm_function".text
  | .trigger => "pgm_trigger".text
  | .view => "pgm_view".text

def ofName? (t : Text) : Option ObjectKind :=
  all.find? (·.name = t)

end ObjectKind

namespace Layout

def migrations : Text := "migrations".text

def seeds : Text := "seeds".text

def migrationTable : Text := "pgm_migration".text

/-- The migration that creates everything which is no artifact of its own. -/
def bootstrap : Text := "00000.sql".text

def suffix : Text := ".sql".text

def fileName (name : Text) : Text := name ++ suffix

def sequenceWidth : Nat := 5

end Layout

end SchemaLedger
