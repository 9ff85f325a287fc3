import SchemaLedger.Text.Basic

namespace SchemaLedger
namespace Sql

/-- The text with every `mark` written twice. -/
def doubled (mark : CodePoint) (t : Text) : Text :=
  t.flatMap fun c => if c = mark then [c, c] else [c]

def literal (t : Text) : Text :=
  .char '\'' :: doubled '\'' t ++ [.char '\'']

def notice (message : Text) : Text :=
  "RAISE NOTICE ".text ++ literal (doubled '%' message) ++ [.char ';']

end Sql
end SchemaLedger
