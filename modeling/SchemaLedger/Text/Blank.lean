import SchemaLedger.Text.Basic

namespace SchemaLedger

/-- The white space of Unicode together with the four information separators.
A no-break space separates words here like any other blank. -/
def isBlank (c : CodePoint) : Bool :=
  let n := c.toNat
  (9 ≤ n && n ≤ 13) || (28 ≤ n && n ≤ 32) || n == 0x85 || n == 0xA0 || n == 0x1680 ||
    (0x2000 ≤ n && n ≤ 0x200A) || n == 0x2028 || n == 0x2029 || n == 0x202F ||
    n == 0x205F || n == 0x3000

namespace Text

def trimLeft (t : Text) : Text :=
  t.dropWhile isBlank

def trimRight (t : Text) : Text :=
  dropEndWhile isBlank t

def trim (t : Text) : Text :=
  trimRight (trimLeft t)

def isBlankText (t : Text) : Bool :=
  t.all isBlank

def leadingBlanks (t : Text) : Text :=
  t.takeWhile isBlank

def trailingBlanks (t : Text) : Text :=
  (t.reverse.takeWhile isBlank).reverse

/-- The text cut in front of every character that follows a blank without being
one itself.  A text that starts with a word is thereby cut into words, each
with the blanks behind it. -/
def wordsWithGaps (t : Text) : List Text :=
  t.splitBy fun a b => !(isBlank a && !isBlank b)

theorem leadingBlanks_append_trimLeft (t : Text) : leadingBlanks t ++ trimLeft t = t :=
  List.takeWhile_append_dropWhile

def words (t : Text) : List Text :=
  (wordsWithGaps (trimLeft t)).map trim

end Text

end SchemaLedger
