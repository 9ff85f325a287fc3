import SchemaLedger.Artifact.Kind
import SchemaLedger.Dump.Token

namespace SchemaLedger
namespace Dump

/-- The words behind `CREATE` that start a statement of some kind, and the text
that stands for them in the artifact.  Functions and views are made replaceable;
a materialized view cannot be. -/
structure Header where
  words : List Text
  kind : ObjectKind
  opening : Text

def functionOpening : Text := "CREATE OR REPLACE FUNCTION ".text

def viewOpening : Text := "CREATE OR REPLACE VIEW ".text

def materializedViewOpening : Text := "CREATE MATERIALIZED VIEW ".text

def headers : List Header :=
  [⟨["FUNCTION".text], .function, functionOpening⟩,
   ⟨["VIEW".text], .view, viewOpening⟩,
   ⟨["MATERIALIZED".text, "VIEW".text], .view, materializedViewOpening⟩,
   ⟨["OR".text, "REPLACE".text, "FUNCTION".text], .function, functionOpening⟩,
   ⟨["OR".text, "REPLACE".text, "VIEW".text], .view, viewOpening⟩]

def header? (words : List Text) : Option Header :=
  headers.find? (·.words = words)

def startsHeader (words : List Text) : Bool :=
  headers.any (words.isPrefixOf ·.words)

/-- A statement taken out of a dump.  Its line is that of its `CREATE`. -/
structure Statement where
  kind : ObjectKind
  name : Text
  text : Text
  line : Int
deriving DecidableEq, Repr

def isTagStart (c : CodePoint) : Bool :=
  c.isAlpha || c == '_'

def isTagChar (c : CodePoint) : Bool :=
  isTagStart c || c.isDigit

/-- The dollar-quote tag at the start of a word: two dollar signs with nothing
or an ASCII identifier between them. -/
def dollarTag? : Text → Option Text
  | .char '$' :: .char '$' :: _ => some [.char '$', .char '$']
  | .char '$' :: c :: rest =>
    if isTagStart c then
      match rest.dropWhile isTagChar with
      | .char '$' :: _ => some (.char '$' :: c :: rest.takeWhile isTagChar ++ [.char '$'])
      | _ => none
    else none
  | _ => none

def endsStatement (word : Text) : Bool :=
  word.getLast? == some (.char ';')

/-- The name at the start of a word: what stands before the first opening
bracket or blank. -/
def nameIn (word : Text) : Text :=
  word.takeWhile fun c => c != '(' && !isBlank c

end Dump
end SchemaLedger
