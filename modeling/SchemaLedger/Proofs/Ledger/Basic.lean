import Mathlib.Data.List.Basic
import SchemaLedger.Proofs.Sql.Constant
import SchemaLedger.Sql.Command

/-!
# The ledger of a database

What the tracking tables hold, and what the SQL of guards and commands means for
them.  SQL is read as a text: the fixed words say what is asked or done and in
which table, the constants say which name and which digest.
-/

namespace SchemaLedger

theorem ObjectKind.findSome?_all {α : Type} {f : ObjectKind → Option α} {kind : ObjectKind} {a : α}
    (hkind : f kind = some a) (hother : ∀ other, other ≠ kind → f other = none) :
    all.findSome? f = some a := by
  cases kind with
  | function => rw [all, List.findSome?_cons, hkind]
  | trigger => rw [all, List.findSome?_cons, hother .function nofun, List.findSome?_cons, hkind]
  | view =>
    rw [all, List.findSome?_cons, hother .function nofun, List.findSome?_cons,
      hother .trigger nofun, List.findSome?_cons, hkind]

/-- The recorded migrations, and for each kind of object the digests by name.
When something was applied is left out. -/
@[ext]
structure Ledger where
  migrations : Text → Bool
  digests : ObjectKind → Text → Option Text

namespace Ledger

/-- What a guard asks. -/
inductive Question
  /-- Whether the migration is not recorded. -/
  | unrecorded (migration : Text)
  /-- Whether the object has no digest or another one. -/
  | outdated (kind : ObjectKind) (name digest : Text)
deriving DecidableEq

def answer (l : Ledger) : Question → Bool
  | .unrecorded migration => !l.migrations migration
  | .outdated kind name digest => l.digests kind name != some digest

/-- What a command does to a ledger. -/
inductive Change
  /-- A new migration; recorded twice it is an error. -/
  | record (migration : Text)
  | ensure (migration : Text)
  | store (kind : ObjectKind) (name digest : Text)
  /-- A notice leaves no trace. -/
  | nothing
deriving DecidableEq

/-- The ledger with a migration recorded. -/
def recording (l : Ledger) (migration : Text) : Ledger :=
  { l with migrations := fun other => other == migration || l.migrations other }

/-- The ledger with a digest in place of an earlier one. -/
def storing (l : Ledger) (kind : ObjectKind) (name digest : Text) : Ledger :=
  { l with digests := fun k other =>
      if k = kind ∧ other = name then some digest else l.digests k other }

def change (l : Ledger) : Change → Option Ledger
  | .record migration => if l.migrations migration then none else some (l.recording migration)
  | .ensure migration => some (l.recording migration)
  | .store kind name digest => some (l.storing kind name digest)
  | .nothing => some l

/-! ## Entries -/

theorem recording_of_recorded {l : Ledger} {migration : Text} (h : l.migrations migration = true) :
    l.recording migration = l := by
  refine Ledger.ext (funext fun other => ?_) rfl
  show (other == migration || l.migrations other) = l.migrations other
  by_cases hother : other = migration
  · rw [hother, h, Bool.or_true]
  · rw [beq_false_of_ne hother, Bool.false_or]

theorem storing_of_stored {l : Ledger} {kind : ObjectKind} {name digest : Text}
    (h : l.digests kind name = some digest) : l.storing kind name digest = l := by
  refine Ledger.ext rfl (funext fun k => funext fun other => ?_)
  show (if k = kind ∧ other = name then some digest else l.digests k other) = l.digests k other
  by_cases hentry : k = kind ∧ other = name
  · rw [if_pos hentry, hentry.1, hentry.2, h]
  · rw [if_neg hentry]

theorem answer_unrecorded_recording {other migration : Text} (h : other ≠ migration) (l : Ledger) :
    (l.recording migration).answer (.unrecorded other) = l.answer (.unrecorded other) := by
  show (!(other == migration || l.migrations other)) = !l.migrations other
  rw [beq_false_of_ne h, Bool.false_or]

theorem answer_outdated_storing {other name : Text} (h : other ≠ name) (l : Ledger)
    (kind : ObjectKind) (digest otherDigest : Text) :
    (l.storing kind name digest).answer (.outdated kind other otherDigest) =
      l.answer (.outdated kind other otherDigest) := by
  have hentry : ¬ (kind = kind ∧ other = name) := fun hboth => h hboth.2
  show ((if kind = kind ∧ other = name then some digest else l.digests kind other) !=
    some otherDigest) = _
  rw [if_neg hentry]
  rfl

/-! ## The SQL of guards -/

namespace Question

/-- What stands in front of the name. -/
def unrecordedHead : Text :=
  "NOT EXISTS (SELECT 1 FROM ".text ++ Layout.migrationTable ++ " WHERE name = ".text

def outdatedHead (kind : ObjectKind) : Text :=
  "(SELECT hash FROM ".text ++ kind.table ++ " WHERE name = ".text

/-- The question that a condition asks. -/
def ofSql? (sql : Text) : Option Question :=
  ((Sql.between? unrecordedHead [.char ')'] sql).map .unrecorded).or
    (ObjectKind.all.findSome? fun kind =>
      (Sql.pair? (outdatedHead kind) ") IS DISTINCT FROM ".text [] sql).map
        fun (name, digest) => .outdated kind name digest)

theorem ofSql?_unrecorded (migration : Text) :
    ofSql? (Sql.Guard.unrecorded migration).sql = some (.unrecorded migration) := by
  show ofSql? (unrecordedHead ++ Sql.literal migration ++ [.char ')']) = _
  rw [ofSql?, Sql.between?_literal _ _ _ (by decide), if_pos rfl]
  rfl

theorem ofSql?_outdated (kind : ObjectKind) (name digest : Text) :
    ofSql? (Sql.Guard.outdated kind.table name digest).sql =
      some (.outdated kind name digest) := by
  have hsql : (Sql.Guard.outdated kind.table name digest).sql =
      outdatedHead kind ++ Sql.literal name ++ ") IS DISTINCT FROM ".text ++
        Sql.literal digest ++ [] := (List.append_nil _).symm
  have hread : Sql.pair? (outdatedHead kind) ") IS DISTINCT FROM ".text []
      (Sql.Guard.outdated kind.table name digest).sql = some (name, digest) := by
    rw [hsql]
    exact Sql.pair?_literal _ _ _ _ _ (by decide) (by decide) (by decide)
  have hunrecorded : Sql.between? unrecordedHead [.char ')']
      (Sql.Guard.outdated kind.table name digest).sql = none := Sql.between?_eq_none _ rfl
  rw [ofSql?, hunrecorded, Option.map_none, Option.none_or]
  refine ObjectKind.findSome?_all (by rw [hread]; rfl) fun other hne => ?_
  -- the tables differ in a character in front of the name
  rw [Sql.pair?_eq_none]
  · rfl
  · cases other <;> cases kind <;> first | exact absurd rfl hne | rfl

end Question

/-! ## The SQL of commands -/

namespace Change

def migrationHead : Text :=
  "INSERT INTO ".text ++ Layout.migrationTable ++ " (name) VALUES (".text

def storeHead (kind : ObjectKind) : Text :=
  "INSERT INTO ".text ++ kind.table ++ " (name, hash) VALUES (".text

def storeTail : Text :=
  (") ON CONFLICT (name) DO UPDATE SET " ++
    "hash = EXCLUDED.hash, applied_at = CURRENT_TIMESTAMP;").text

/-- The change that a command makes. -/
def ofSql? (sql : Text) : Option Change :=
  ((Sql.between? migrationHead ");".text sql).map .record).or
    (((Sql.between? migrationHead ") ON CONFLICT (name) DO NOTHING;".text sql).map .ensure).or
      (((Sql.between? "RAISE NOTICE ".text [.char ';'] sql).map fun _ => .nothing).or
        (ObjectKind.all.findSome? fun kind =>
          (Sql.pair? (storeHead kind) ", ".text storeTail sql).map
            fun (name, digest) => .store kind name digest)))

theorem ofSql?_record (migration : Text) :
    ofSql? (Sql.Command.record migration).sql = some (.record migration) := by
  have hsql : (Sql.Command.record migration).sql =
      migrationHead ++ Sql.literal migration ++ ");".text := List.append_assoc _ ")".text ";".text
  rw [ofSql?, hsql, Sql.between?_literal _ _ _ (by decide), if_pos rfl]
  rfl

theorem ofSql?_ensureRecorded (migration : Text) :
    ofSql? (Sql.Command.ensureRecorded migration).sql = some (.ensure migration) := by
  have hsql : (Sql.Command.ensureRecorded migration).sql =
      migrationHead ++ Sql.literal migration ++ ") ON CONFLICT (name) DO NOTHING;".text :=
    List.append_assoc _ ")".text " ON CONFLICT (name) DO NOTHING;".text
  rw [ofSql?, hsql, Sql.between?_literal _ _ _ (by decide), if_neg (by decide),
    Sql.between?_literal _ _ _ (by decide), if_pos rfl]
  rfl

theorem ofSql?_notice (message : Text) :
    ofSql? (Sql.Command.notice message).sql = some .nothing := by
  have hsql : (Sql.Command.notice message).sql =
      "RAISE NOTICE ".text ++ Sql.literal (Sql.doubled '%' message) ++ [.char ';'] := rfl
  rw [ofSql?, Sql.between?_eq_none _ rfl, Sql.between?_eq_none _ rfl, hsql,
    Sql.between?_literal _ _ _ (by decide), if_pos rfl]
  rfl

theorem ofSql?_upsert (kind : ObjectKind) (name digest : Text) :
    ofSql? (Sql.Command.upsert kind.table name digest).sql = some (.store kind name digest) := by
  have hsql : (Sql.Command.upsert kind.table name digest).sql =
      storeHead kind ++ Sql.literal name ++ ", ".text ++ Sql.literal digest ++ storeTail := rfl
  have hread : Sql.pair? (storeHead kind) ", ".text storeTail
      (Sql.Command.upsert kind.table name digest).sql = some (name, digest) := by
    rw [hsql]
    exact Sql.pair?_literal _ _ _ _ _ (by decide) (by decide) (by decide)
  have hmigration : migrationHead.isPrefixOf (Sql.Command.upsert kind.table name digest).sql =
      false := by
    cases kind <;> rfl
  rw [ofSql?, Sql.between?_eq_none _ hmigration, Sql.between?_eq_none _ hmigration,
    Sql.between?_eq_none _ rfl, Option.map_none, Option.none_or, Option.map_none, Option.none_or,
    Option.map_none, Option.none_or]
  refine ObjectKind.findSome?_all (by rw [hread]; rfl) fun other hne => ?_
  rw [Sql.pair?_eq_none]
  · rfl
  · cases other <;> cases kind <;> first | exact absurd rfl hne | rfl

end Change

end Ledger
end SchemaLedger
