import SchemaLedger.Text.Blank
import SchemaLedger.Text.Line

namespace SchemaLedger
namespace Dump

def defaultNoise : List Text :=
  ["SELECT pg_catalog.set_config('search_path', '', false);".text,
   "SET client_min_messages = warning;".text]

def isComment (line : Text) : Bool :=
  "--".text.isPrefixOf line

/-- Whether a line is kept.  Noise is recognised without the blanks around it,
a comment only at the very start of the line. -/
def isKept (noise : List Text) (line : Text) : Bool :=
  !Text.isBlankText line && !isComment line && !(noise.map Text.trim).contains (Text.trim line)

def cleaned (noise : List Text) (residual : Text) : Text :=
  Text.eachLine ((Text.lines residual).filter (isKept noise))

end Dump
end SchemaLedger
