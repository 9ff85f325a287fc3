import SchemaLedger.Script.Stage
import SchemaLedger.Sql.Command

/-!
# Fragments

A script is put together from fragments.  A fragment may name the artifact it
comes from, which brackets it in markers, and may have a guard, a condition that
the database decides when the script runs.
-/

namespace SchemaLedger

/-- `onApply` runs after the body, `onSkip` in its place when the guard does not
hold.  An empty source or condition counts as none. -/
structure Fragment where
  stage : Stage
  body : Sql.Command
  source : Option Text := none
  guard : Option Sql.Guard := none
  onApply : List Sql.Command := []
  onSkip : List Sql.Command := []
deriving DecidableEq

namespace Fragment

def given (t : Option Text) : Option Text :=
  t.filter (!·.isEmpty)

def origin (f : Fragment) : Option Text :=
  given f.source

def condition (f : Fragment) : Option Text :=
  given (f.guard.map Sql.Guard.sql)

def runMarker (source : Text) : Text :=
  "-- RUN ".text ++ source ++ " --".text

def doneMarker (source : Text) : Text :=
  "-- DONE ".text ++ source ++ " --".text

/-- The body without newlines at its end, and what follows it. -/
def applied (f : Fragment) : List Text :=
  Text.dropEndWhile (· == .char '\n') f.body.sql :: f.onApply.map Sql.Command.sql

def skipped (f : Fragment) : List Text :=
  if f.onSkip.isEmpty then [] else "ELSE".text :: f.onSkip.map Sql.Command.sql

def guarded (f : Fragment) : List Text :=
  match f.condition with
  | none => f.applied
  | some condition =>
    ("IF ".text ++ condition ++ " THEN".text) :: f.applied ++ f.skipped ++ ["END IF;".text]

/-- The parts of a fragment, which become lines of the script. -/
def parts (f : Fragment) : List Text :=
  match f.origin with
  | none => f.guarded
  | some source => runMarker source :: f.guarded ++ [doneMarker source]

def render (f : Fragment) : Text :=
  Text.unlines f.parts

end Fragment
end SchemaLedger
