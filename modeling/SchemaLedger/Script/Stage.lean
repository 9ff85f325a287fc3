/-!
# Stages

A script runs in stages.  Functions and triggers come twice: before the
migrations with unchecked bodies, so that definitions may refer to each other in
any order, and after them with checked bodies.
-/

namespace SchemaLedger

inductive Stage
  | prelude
  | trackingTables
  | bootstrap
  | functionsUnchecked
  | triggersUnchecked
  | migrations
  | views
  | checkBodies
  | functionsChecked
  | triggersChecked
  | seeds
deriving DecidableEq, Repr

namespace Stage

def all : List Stage :=
  [.prelude, .trackingTables, .bootstrap, .functionsUnchecked, .triggersUnchecked,
   .migrations, .views, .checkBodies, .functionsChecked, .triggersChecked, .seeds]

/-- The place of a stage in that order, counted from one. -/
def number : Stage → Nat
  | .prelude => 1
  | .trackingTables => 2
  | .bootstrap => 3
  | .functionsUnchecked => 4
  | .triggersUnchecked => 5
  | .migrations => 6
  | .views => 7
  | .checkBodies => 8
  | .functionsChecked => 9
  | .triggersChecked => 10
  | .seeds => 11

def ofNumber? (n : Int) : Option Stage :=
  all.find? fun stage => (stage.number : Int) = n

end Stage
end SchemaLedger
