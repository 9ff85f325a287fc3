import SchemaLedger.Proofs.Dump.Quote

/-!
# Items of a well-formed dump

A well-formed dump is a row of items: ordinary text, statements that a semicolon
ends, and functions with a dollar-quoted body.  What may stand in each is said
by its words alone, without the scan, and so is the statement that a split has
to take out of it.  Keywords are meant in any case.
-/

namespace SchemaLedger
namespace Dump

open Text

/-- The ways to introduce a statement that is stored on its own. -/
inductive Form
  | function
  | replacedFunction
  | view
  | replacedView
  | materializedView
deriving DecidableEq

namespace Form

def words : Form → List Text
  | function => ["CREATE".text, "FUNCTION".text]
  | replacedFunction => ["CREATE".text, "OR".text, "REPLACE".text, "FUNCTION".text]
  | view => ["CREATE".text, "VIEW".text]
  | replacedView => ["CREATE".text, "OR".text, "REPLACE".text, "VIEW".text]
  | materializedView => ["CREATE".text, "MATERIALIZED".text, "VIEW".text]

def kind : Form → ObjectKind
  | function | replacedFunction => .function
  | view | replacedView | materializedView => .view

/-- The text that takes the place of the words in the statement. -/
def normal : Form → Text
  | function | replacedFunction => "CREATE OR REPLACE FUNCTION ".text
  | view | replacedView => "CREATE OR REPLACE VIEW ".text
  | materializedView => "CREATE MATERIALIZED VIEW ".text

end Form

/-- The words that make a statement out of a `CREATE` in front of them. -/
def introducing : List Text :=
  ["FUNCTION".text, "VIEW".text, "MATERIALIZED".text, "OR".text]

/-- Of these words exactly the last ends in a semicolon. -/
def ClosesAtLast (words : List Text) : Prop :=
  words.getLast?.map endsStatement = some true ∧
    ∀ word ∈ words.dropLast, endsStatement word = false

instance (words : List Text) : Decidable (ClosesAtLast words) :=
  inferInstanceAs (Decidable (_ ∧ _))

theorem closesAtLast_singleton {word : Text} :
    ClosesAtLast [word] ↔ endsStatement word = true := by
  simp [ClosesAtLast]

theorem closesAtLast_cons_cons {word next : Text} {more : List Text} :
    ClosesAtLast (word :: next :: more) ↔
      endsStatement word = false ∧ ClosesAtLast (next :: more) := by
  simp only [ClosesAtLast, List.getLast?_cons_cons, List.dropLast_cons_cons, List.forall_mem_cons]
  tauto

/-- Of a first word only its end matters. -/
theorem closesAtLast_cons_congr {word other : Text} {more : List Text}
    (h : endsStatement word = endsStatement other) :
    ClosesAtLast (word :: more) ↔ ClosesAtLast (other :: more) := by
  cases more with
  | nil => rw [closesAtLast_singleton, closesAtLast_singleton, h]
  | cons next rest => rw [closesAtLast_cons_cons, closesAtLast_cons_cons, h]

/-- What stands in front of the first opening bracket of a word. -/
def bareName (word : Text) : Text :=
  word.takeWhile (· != .char '(')

/-! ## Statements that a semicolon ends -/

/-- The opening is the words of the form with the blanks behind them, the rest
is everything behind it. -/
structure ViewItem where
  form : Form
  opening : Text
  rest : Text
  name : Text
  more : List Text

namespace ViewItem

def text (v : ViewItem) : Text :=
  v.opening ++ v.rest

structure WellFormed (v : ViewItem) : Prop where
  isView : v.form.kind = .view
  opening_starts : StartsWord v.opening
  opening_ends : EndsBlank v.opening
  opening_words : (words v.opening).map capitals = v.form.words
  rest_starts : StartsWord v.rest
  rest_ends : v.rest.getLast? = some (.char '\n')
  rest_words : words v.rest = v.name :: v.more
  name_plain : v.name.head? ≠ some (.char '(')
  closes : ClosesAtLast (v.name :: v.more)

def statement (v : ViewItem) (line : Int) : Statement :=
  ⟨.view, bareName v.name, v.form.normal ++ v.rest, line⟩

end ViewItem

/-! ## Heads of functions -/

/-- The head of a function reaches from the name to the last clause in front of
the body and has the blanks behind it. -/
structure FunctionHead where
  text : Text
  name : Text
  signature : List Text
  returns : Text
  type : Text
  clauses : List Text

namespace FunctionHead

structure WellFormed (f : FunctionHead) : Prop where
  starts : StartsWord f.text
  ends : EndsBlank f.text
  words_text : words f.text = f.name :: (f.signature ++ f.returns :: f.type :: f.clauses)
  name_plain : f.name.head? ≠ some (.char '(')
  signature_plain : ∀ word ∈ f.signature, capitals word ≠ "RETURNS".text
  isReturns : capitals f.returns = "RETURNS".text
  clauses_plain : ∀ word ∈ f.clauses, ¬ StartsWithQuote word ∧ endsStatement word = false
  /-- No clause word is an `ATOMIC` directly behind a `BEGIN`. -/
  clauses_atomic : (f.type :: f.clauses).IsChain fun before word =>
    ¬ (capitals before = "BEGIN".text ∧ capitals word = "ATOMIC".text)

def kind (f : FunctionHead) : ObjectKind :=
  if capitals f.type = "TRIGGER".text then .trigger else .function

end FunctionHead

/-! ## Functions with a dollar-quoted body -/

structure FunctionItem where
  form : Form
  opening : Text
  head : FunctionHead
  tag : Text
  body : Text
  tail : Text

namespace FunctionItem

/-- The body in its quotes and everything behind it. -/
def quoted (f : FunctionItem) : Text :=
  dollarQuote f.tag ++ f.body ++ dollarQuote f.tag ++ f.tail

def text (f : FunctionItem) : Text :=
  f.opening ++ (f.head.text ++ f.quoted)

structure WellFormed (f : FunctionItem) : Prop where
  isFunction : f.form.kind = .function
  opening_starts : StartsWord f.opening
  opening_ends : EndsBlank f.opening
  opening_words : (words f.opening).map capitals = f.form.words
  head : f.head.WellFormed
  tag_name : IsTagName f.tag
  body_free : ¬ dollarQuote f.tag <:+: f.body
  tail_ends : f.tail.getLast? = some (.char '\n')
  closes : ClosesAtLast (words f.tail)

def statement (f : FunctionItem) (line : Int) : Statement :=
  ⟨f.head.kind, bareName f.head.name, f.form.normal ++ (f.head.text ++ f.quoted), line⟩

end FunctionItem

/-! ## Items -/

inductive Item
  | ordinary (text : Text)
  | view (v : ViewItem)
  | function (f : FunctionItem)

namespace Item

def text : Item → Text
  | ordinary text => text
  | view v => v.text
  | function f => f.text

/-- Ordinary text starts with a word and ends its line, and every `CREATE` in it
has a word behind it that introduces no statement. -/
def WellFormed : Item → Prop
  | ordinary text => StartsWord text ∧ text.getLast? = some (.char '\n') ∧
    ((words text).map capitals).getLast? ≠ some "CREATE".text ∧
    ((words text).map capitals).IsChain fun word next =>
      word = "CREATE".text → next ∉ introducing
  | view v => v.WellFormed
  | function f => f.WellFormed

/-- The text that belongs to no statement. -/
def residue : Item → Text
  | ordinary text => text
  | view _ | function _ => []

/-- The statement of an item that starts on a line. -/
def statement? (line : Int) : Item → Option Statement
  | ordinary _ => none
  | view v => some (v.statement line)
  | function f => some (f.statement line)

/-- The items one after the other. -/
def dump (items : List Item) : Text :=
  items.flatMap text

/-- The statements of items that stand one after the other from a line on. -/
def statements (line : Int) : List Item → List Statement
  | [] => []
  | i :: rest => (i.statement? line).toList ++ statements (line + newlines i.text) rest

end Item
end Dump
end SchemaLedger
