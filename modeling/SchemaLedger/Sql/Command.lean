import SchemaLedger.Artifact.Kind
import SchemaLedger.Sql.Literal

/-!
# Commands of a script

The tracking tables record what was applied.  The commands that write to them
and the conditions that read them are data here, and their SQL is a rendering,
so that what a script does to the tables can be said without reading SQL.
-/

namespace SchemaLedger
namespace Sql

/-- A condition that the database decides when a script runs. -/
inductive Guard
  | condition (sql : Text)
  | unrecorded (migration : Text)
  /-- The table has no such name, or another digest for it. -/
  | outdated (table name digest : Text)
deriving DecidableEq

inductive Command
  /-- Any SQL, such as the body of an artifact. -/
  | plain (sql : Text)
  /-- Records a migration, which must be new. -/
  | record (migration : Text)
  /-- Records a migration unless it is recorded already. -/
  | ensureRecorded (migration : Text)
  /-- Records the digest of an object in place of an earlier one. -/
  | upsert (table name digest : Text)
  | notice (message : Text)
deriving DecidableEq

namespace Guard

def sql : Guard → Text
  | .condition sql => sql
  | .unrecorded migration =>
    "NOT EXISTS (SELECT 1 FROM ".text ++ Layout.migrationTable ++ " WHERE name = ".text ++
      literal migration ++ [.char ')']
  | .outdated table name digest =>
    "(SELECT hash FROM ".text ++ table ++ " WHERE name = ".text ++ literal name ++
      ") IS DISTINCT FROM ".text ++ literal digest

end Guard

namespace Command

def insertMigration (migration : Text) : Text :=
  "INSERT INTO ".text ++ Layout.migrationTable ++ " (name) VALUES (".text ++
    literal migration ++ [.char ')']

def sql : Command → Text
  | .plain sql => sql
  | .record migration => insertMigration migration ++ [.char ';']
  | .ensureRecorded migration =>
    insertMigration migration ++ " ON CONFLICT (name) DO NOTHING;".text
  | .upsert table name digest =>
    "INSERT INTO ".text ++ table ++ " (name, hash) VALUES (".text ++ literal name ++
      ", ".text ++ literal digest ++ (") ON CONFLICT (name) DO UPDATE SET " ++
      "hash = EXCLUDED.hash, applied_at = CURRENT_TIMESTAMP;").text
  | .notice message => Sql.notice message

end Command

end Sql
end SchemaLedger
