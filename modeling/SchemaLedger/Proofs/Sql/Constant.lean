import SchemaLedger.Proofs.Text.Infix
import SchemaLedger.Sql.Literal

/-!
# Reading string constants

The database reads a string constant up to the first quote that is not followed
by another one, and two quotes inside it stand for one.  A literal is read back
as the text it was made of, so SQL that is fixed but for its constants says what
it was made of, too.
-/

namespace SchemaLedger
namespace Sql

/-- What stands in front of the closing quote and what stands behind it. -/
def closing? : Text → Option (Text × Text)
  | [] => none
  | .char '\'' :: .char '\'' :: rest => (closing? rest).map fun (value, behind) =>
      (.char '\'' :: value, behind)
  | .char '\'' :: behind => some ([], behind)
  | c :: rest => (closing? rest).map fun (value, behind) => (c :: value, behind)

/-- The value of the string constant at the start of a text and what stands
behind the constant. -/
def constant? : Text → Option (Text × Text)
  | .char '\'' :: rest => closing? rest
  | _ => none

theorem doubled_cons (mark c : CodePoint) (t : Text) :
    doubled mark (c :: t) = (if c = mark then [c, c] else [c]) ++ doubled mark t :=
  List.flatMap_cons

theorem closing?_doubled (value : Text) {behind : Text} (h : behind.head? ≠ some (.char '\'')) :
    closing? (doubled '\'' value ++ .char '\'' :: behind) = some (value, behind) := by
  induction value with
  | nil =>
    show closing? (.char '\'' :: behind) = _
    rw [closing?]
    rintro more rfl
    exact h rfl
  | cons c rest ih =>
    rw [doubled_cons, List.append_assoc]
    by_cases hc : c = '\''
    · rw [if_pos hc, hc, List.cons_append, List.singleton_append, closing?, ih]
      rfl
    · rw [if_neg hc, List.singleton_append, closing?, ih]
      · rfl
      · exact fun more hquote _ => hc hquote
      · exact hc

theorem constant?_literal (value : Text) {behind : Text} (h : behind.head? ≠ some (.char '\'')) :
    constant? (literal value ++ behind) = some (value, behind) := by
  have hshape : literal value ++ behind =
      .char '\'' :: (doubled '\'' value ++ .char '\'' :: behind) := by
    simp [literal]
  rw [hshape]
  exact closing?_doubled value h

/-! ## Fixed SQL around constants -/

/-- The value of a constant with fixed SQL in front of it and behind it. -/
def between? (first last t : Text) : Option Text := do
  let (value, behind) ← constant? (← Text.after? first t)
  if behind = last then some value else none

/-- The values of two constants with fixed SQL around them. -/
def pair? (first middle last t : Text) : Option (Text × Text) := do
  let (value, behind) ← constant? (← Text.after? first t)
  return (value, ← between? middle last behind)

theorem between?_literal (first last value : Text) {behind : Text}
    (h : behind.head? ≠ some (.char '\'')) :
    between? first last (first ++ literal value ++ behind) =
      if behind = last then some value else none := by
  rw [List.append_assoc]
  simp only [between?, Text.after?_append, Option.bind_eq_bind, Option.bind_some,
    constant?_literal value h]

theorem pair?_literal (first middle last value other : Text)
    (hmiddle : middle.head? ≠ some (.char '\''))
    (hne : middle ≠ []) (hlast : last.head? ≠ some (.char '\'')) :
    pair? first middle last (first ++ literal value ++ middle ++ literal other ++ last) =
      some (value, other) := by
  have hhead : (middle ++ literal other ++ last).head? ≠ some (.char '\'') := by
    obtain ⟨c, rest, rfl⟩ := List.exists_cons_of_ne_nil hne
    exact hmiddle
  have hshape : first ++ literal value ++ middle ++ literal other ++ last =
      first ++ (literal value ++ (middle ++ literal other ++ last)) := by
    simp only [List.append_assoc]
  rw [hshape]
  simp only [pair?, Text.after?_append, Option.bind_eq_bind, Option.bind_some,
    constant?_literal value hhead, between?_literal middle last other hlast]
  rfl

/-- SQL that starts in another way is something else. -/
theorem between?_eq_none {first t : Text} (last : Text) (h : first.isPrefixOf t = false) :
    between? first last t = none := by
  have hafter : Text.after? first t = none := if_neg (ne_true_of_eq_false h)
  rw [between?, hafter]
  rfl

theorem pair?_eq_none {first t : Text} (middle last : Text) (h : first.isPrefixOf t = false) :
    pair? first middle last t = none := by
  have hafter : Text.after? first t = none := if_neg (ne_true_of_eq_false h)
  rw [pair?, hafter]
  rfl

end Sql
end SchemaLedger
