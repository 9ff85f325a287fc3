import SchemaLedger.Text.CodePoint

/-- The text of a string, which has no surrogates. -/
def String.text (s : String) : List SchemaLedger.CodePoint :=
  s.toList.map .char

namespace SchemaLedger

/-- A list rather than a `String`, because every rule of this library cuts, joins
or filters code points one after the other, and a recursion on the list is then
both the program and the induction.  Nor could a `String` hold a surrogate. -/
abbrev Text := List CodePoint

def byteOrderMark : CodePoint := CodePoint.ofNat 0xFEFF

namespace Text

def string (t : Text) : String :=
  String.ofList (t.filterMap CodePoint.char?)

def dropEndWhile (p : CodePoint → Bool) (t : Text) : Text :=
  (t.reverse.dropWhile p).reverse

def hasInfix (part : Text) : Text → Bool
  | [] => part.isEmpty
  | c :: rest => part.isPrefixOf (c :: rest) || hasInfix part rest

/-- What follows `start`, if the text begins with it. -/
def after? (start t : Text) : Option Text :=
  if start.isPrefixOf t then some (t.drop start.length) else none

def joined (gap : Text) (parts : List Text) : Text :=
  List.intercalate gap parts

def unlines (parts : List Text) : Text :=
  joined [.char '\n'] parts

/-- The pieces of a text between the occurrences of one character; a text
without it is its own only piece. -/
def splitOn (separator : CodePoint) : Text → List Text
  | [] => [[]]
  | c :: rest =>
    if c = separator then [] :: splitOn separator rest
    else match splitOn separator rest with
      | [] => [[c]]
      | piece :: pieces => (c :: piece) :: pieces

theorem joined_cons_cons (gap a b : Text) (rest : List Text) :
    joined gap (a :: b :: rest) = a ++ gap ++ joined gap (b :: rest) := by
  simp [joined, List.intercalate]

theorem splitOn_ne_nil (c : CodePoint) (t : Text) : splitOn c t ≠ [] := by
  induction t with
  | nil => simp [splitOn]
  | cons x rest ih =>
    unfold splitOn
    split
    · simp
    · split <;> simp

/-- Nothing is lost between the pieces but the separators. -/
theorem joined_splitOn (c : CodePoint) (t : Text) : joined [c] (splitOn c t) = t := by
  induction t with
  | nil => rfl
  | cons x rest ih =>
    unfold splitOn
    cases hrest : splitOn c rest with
    | nil => exact absurd hrest (splitOn_ne_nil c rest)
    | cons piece pieces =>
      rw [hrest] at ih
      split
      · next hx => rw [joined_cons_cons, ih, hx]; rfl
      · cases pieces with
        | nil =>
          simp only [joined, List.intercalate_singleton] at ih ⊢
          rw [ih]
        | cons next more =>
          rw [joined_cons_cons] at ih ⊢
          rw [List.cons_append, List.cons_append, ih]

/-- Code-point order, in which names and paths are listed. -/
def before (a b : Text) : Bool :=
  match a, b with
  | [], [] => false
  | [], _ :: _ => true
  | _ :: _, [] => false
  | x :: xs, y :: ys => if x = y then before xs ys else x.toNat < y.toNat

def atMost (a b : Text) : Bool :=
  !before b a

def isOnlyDots (t : Text) : Bool :=
  t.all (· == .char '.')

def ofNat (n : Nat) : Text :=
  (Nat.toDigits 10 n).map .char

def ofInt : Int → Text
  | .ofNat n => ofNat n
  | .negSucc n => .char '-' :: ofNat (n + 1)

def padZeros (width : Nat) (t : Text) : Text :=
  List.replicate (width - t.length) (.char '0') ++ t

/-- Lower-case hexadecimal digits of `n`, at least `width` of them. -/
def hex (width n : Nat) : Text :=
  padZeros width ((Nat.toDigits 16 n).map .char)

end Text

end SchemaLedger
