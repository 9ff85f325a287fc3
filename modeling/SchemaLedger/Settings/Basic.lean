import SchemaLedger.Dump.Residual

namespace SchemaLedger

structure ToolCommand where
  command : Text
  arguments : List Text
deriving DecidableEq, Repr

/-- `runner` runs scripts and `dumper` dumps a schema. -/
structure Settings where
  path : Text := "postgres".text
  runner : ToolCommand := ⟨"psql".text, []⟩
  dumper : ToolCommand := ⟨"pg_dump".text, ["--no-owner".text, "--schema-only".text]⟩
  noise : List Text := Dump.defaultNoise
deriving DecidableEq, Repr

end SchemaLedger
