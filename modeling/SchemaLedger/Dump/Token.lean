import SchemaLedger.Text.Blank
import SchemaLedger.Text.Capital
import SchemaLedger.Text.Line

/-!
# Tokens of a dump

A token is a word with the blanks behind it, so the tokens of a dump put
together are the dump again.  Each knows the line it starts on.
-/

namespace SchemaLedger
namespace Dump

structure Token where
  text : Text
  line : Int
deriving DecidableEq, Repr

namespace Token

def word (t : Token) : Text :=
  Text.trim t.text

def keyword (t : Token) : Text :=
  Text.capitals t.word

end Token

/-- Texts as tokens, the first of them starting on the given line. -/
def numbered (line : Int) : List Text → List Token
  | [] => []
  | t :: rest => ⟨t, line⟩ :: numbered (line + Text.newlines t) rest

/-- The tokens of a dump, with lines counted from one.  The blanks before the
first word belong to no token but count as lines. -/
def tokens (dump : Text) : List Token :=
  numbered (1 + Text.newlines (Text.leadingBlanks dump)) (Text.wordsWithGaps (Text.trimLeft dump))

def written (tokens : List Token) : Text :=
  tokens.flatMap Token.text

theorem written_numbered (line : Int) (parts : List Text) :
    written (numbered line parts) = parts.flatten := by
  induction parts generalizing line with
  | nil => rfl
  | cons part rest ih =>
    simp only [numbered, written, List.flatMap_cons, List.flatten_cons]
    exact congrArg (part ++ ·) (ih _)

end Dump
end SchemaLedger
