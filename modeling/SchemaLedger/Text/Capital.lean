import SchemaLedger.Text.Basic

/-!
# Capitals

SQL keywords are recognised in any case.  All keywords are ASCII, so only the
letters whose capital is an ASCII letter matter.
-/

namespace SchemaLedger

/-- The capital of a letter where that is an ASCII letter: the small letters `a`
to `z`, the dotless i and the long s.  Every other character stays. -/
def capital (c : CodePoint) : CodePoint :=
  if c.toNat = 0x131 then 'I'
  else if c.toNat = 0x17F then 'S'
  else c.toUpper

namespace Text

def capitals (t : Text) : Text :=
  t.map capital

end Text

end SchemaLedger
