import SchemaLedger.Proofs.Text.Line

/-!
# Lines and their breaks

What the lines of a text are, apart from any way to find them: they stand in the text one
after the other, each with a break behind it, and only the last may do without.  Every
text has exactly one list of lines in this sense.
-/

namespace SchemaLedger
namespace Text

/-- A line break as it is written. -/
inductive IsBreak : Text → Prop
  | single {c : CodePoint} : isLineBreak c = true → IsBreak [c]
  | pair : IsBreak [.char '\r', .char '\n']

/-- The text is made of these lines and of breaks behind them.  A carriage return in front
of a newline is no break of its own, and what follows the last break is a line unless it is
empty. -/
inductive HasLines : Text → List Text → Prop
  | nil : HasLines [] []
  | last {line : Text} : line ≠ [] → Unbroken line → HasLines line [line]
  | cons {line ending rest : Text} {below : List Text} : Unbroken line → IsBreak ending →
      (ending = [.char '\r'] → rest.head? ≠ some (.char '\n')) → HasLines rest below →
      HasLines (line ++ ending ++ rest) (line :: below)

variable {line ending rest t : Text} {c : CodePoint} {below : List Text}

/-! ## Such lines are those that are found -/

theorem lines_break_append (hending : IsBreak ending)
    (hcut : ending = [.char '\r'] → rest.head? ≠ some (.char '\n')) :
    lines (ending ++ rest) = [] :: lines rest := by
  cases hending with
  | single hc => exact lines_break hc fun hreturn => hcut (hreturn ▸ rfl)
  | pair => rw [List.cons_append, List.singleton_append, lines]

theorem lines_unbroken_append (hline : Unbroken line) (ht : lines t = [] :: below) :
    lines (line ++ t) = line :: below := by
  induction line with
  | nil => exact ht
  | cons c more ih =>
    obtain ⟨hc, hmore⟩ := List.forall_mem_cons.1 hline
    rw [List.cons_append, lines_cons hc, ih hmore]
    rfl

theorem HasLines.lines_eq (h : HasLines t below) : lines t = below := by
  induction h with
  | nil => rfl
  | last hne hline => exact lines_of_unbroken hline hne
  | cons hline hending hcut _ ih =>
    rw [List.append_assoc, lines_unbroken_append hline (lines_break_append hending hcut), ih]

/-! ## What is found are such lines -/

/-- A character that ends no line lengthens the first line. -/
theorem HasLines.lengthen (hc : isLineBreak c = false) (h : HasLines t (line :: below)) :
    HasLines (c :: t) ((c :: line) :: below) := by
  cases h with
  | last _ hline =>
    exact .last (List.cons_ne_nil _ _) (List.forall_mem_cons.2 ⟨hc, hline⟩)
  | cons hline hending hcut hrest =>
    exact .cons (List.forall_mem_cons.2 ⟨hc, hline⟩) hending hcut hrest

theorem hasLines_lines (t : Text) : HasLines t (lines t) := by
  fun_induction lines t with
  | case1 => exact .nil
  | case2 rest ih =>
    have hpair : ([.char '\r', .char '\n'] : Text) ≠ [.char '\r'] := by decide
    exact @HasLines.cons [] _ _ _ (List.forall_mem_nil _) .pair (fun h => absurd h hpair) ih
  | case3 c rest hpair hc ih =>
    refine @HasLines.cons [] _ _ _ (List.forall_mem_nil _) (.single hc) ?_ ih
    intro hreturn hhead
    obtain ⟨more, rfl⟩ := List.head?_eq_some_iff.1 hhead
    exact hpair more (List.singleton_inj.1 hreturn) rfl
  | case4 c rest _ hc hrest _ =>
    obtain rfl := lines_eq_nil.1 hrest
    exact .last (List.cons_ne_nil _ _) (List.forall_mem_singleton.2 (by simpa using hc))
  | case5 c rest _ hc first below hrest ih =>
    rw [hrest] at ih
    exact ih.lengthen (by simpa using hc)

theorem hasLines_iff : HasLines t below ↔ below = lines t :=
  ⟨fun h => h.lines_eq.symm, fun h => h ▸ hasLines_lines t⟩

end Text
end SchemaLedger
