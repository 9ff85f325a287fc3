import SchemaLedger.Proofs.Dump.Cleaned
import SchemaLedger.Proofs.Script.Blocks
import SchemaLedger.Proofs.Text.Break

/-!
# Finished texts

Finishing a text keeps some of its lines and ends each with a newline, so the lines of the
finished text are the ones that were kept.  A text that is finished twice is therefore
finished once, minified if either time asks for it.  A text without such lines becomes a
single newline, whose one line is blank and is dropped again.
-/

namespace SchemaLedger
namespace Script

open Text (eachLine unlines_concat_newline)

variable {t line : Text} {minify : Bool}

/-! ## Lines that remain -/

/-- What finishing asks of a line. -/
def Remains (minify : Bool) (line : Text) : Prop :=
  ¬Text.IsGap line ∧ (minify = true → ¬"--".text <+: line)

instance (minify : Bool) (line : Text) : Decidable (Remains minify line) :=
  decidable_of_iff _ (and_congr_left' Text.not_isBlankText_iff)

theorem kept_eq_filter (t : Text) (minify : Bool) :
    kept t minify = (Text.lines t).filter fun line => Remains minify line := by
  cases minify with
  | false =>
    refine List.filter_congr fun line _ => ?_
    rw [Bool.eq_iff_iff, Text.not_isBlankText_iff, decide_eq_true_iff, Remains]
    simp
  | true =>
    rw [kept, if_pos rfl, shown, List.filter_filter]
    refine List.filter_congr fun line _ => ?_
    rw [Bool.eq_iff_iff, Bool.and_eq_true, Text.not_isBlankText_iff, Text.not_isPrefixOf_iff,
      decide_eq_true_iff, Remains, and_comm]
    simp

/-- The lines with a newline behind each; a newline alone stands for none. -/
def endedLines : List Text → Text
  | [] => [.char '\n']
  | lines => eachLine lines

theorem finish_eq_endedLines (t : Text) (minify : Bool) :
    finish t minify = endedLines (kept t minify) := by
  rw [finish_eq]
  cases hkept : kept t minify with
  | nil => rfl
  | cons line rest => exact unlines_concat_newline (List.cons_ne_nil _ _)

/-- A finished text ends its lines with newlines only. -/
theorem eq_newline_of_mem_finish {c : CodePoint} (hc : isLineBreak c = true)
    (h : c ∈ finish t minify) : c = '\n' := by
  rw [finish_eq] at h
  rcases List.mem_append.1 h with h | h
  · obtain hbreak | ⟨line, hline, hmem⟩ := Text.mem_unlines h
    · exact hbreak
    · rw [unbroken_of_mem_kept hline c hmem] at hc
      cases hc
  · exact List.mem_singleton.1 h

/-! ## Finishing again -/

theorem shown_of_mem_kept (h : line ∈ kept t minify) : shown line = [line] :=
  shown_of_unbroken (unbroken_of_mem_kept h)
    (by simpa using (List.mem_filter.1 (kept_subset_shown t minify h)).2)

theorem shown_finish (t : Text) (minify : Bool) : shown (finish t minify) = kept t minify := by
  rw [finish_eq, shown_append_newline, shown_unlines,
    List.flatMap_congr fun _ => shown_of_mem_kept, List.flatMap_singleton']
  exact List.append_nil _

theorem kept_finish (t : Text) (first second : Bool) :
    kept (finish t first) second = kept t (first || second) := by
  rw [kept, shown_finish]
  cases first with
  | false => rfl
  | true =>
    cases second with
    | false => rfl
    | true =>
      show ((shown t).filter _).filter _ = (shown t).filter _
      rw [List.filter_filter]
      simp only [Bool.and_self]

theorem finish_finish (t : Text) (first second : Bool) :
    finish (finish t first) second = finish t (first || second) := by
  rw [finish_eq, kept_finish, ← finish_eq]

/-- Finishing twice is finishing once, the newline is the only line break in a finished
text, and the lines that remain of the text are all that is in it. -/
theorem finish_by_lines (t : Text) (first second : Bool) :
    finish (finish t first) second = finish t (first || second) ∧
      (∀ c ∈ finish t first, isLineBreak c = true → c = '\n') ∧
      ∃ lines, (∀ other, Text.HasLines t other ↔ other = lines) ∧
        finish t first = endedLines (lines.filter fun line => Remains first line) := by
  refine ⟨finish_finish t first second, fun c hc hbreak => eq_newline_of_mem_finish hbreak hc,
    Text.lines t, fun _ => Text.hasLines_iff, ?_⟩
  rw [← kept_eq_filter, finish_eq_endedLines]

/-- Comments and blank lines between breaks of several kinds. -/
def brokenText : Text :=
  "\r\n-- a\u2028\u00a0\x0bSELECT 1;\r\r --b\n".text

theorem finish_by_lines_broken :
    (.char '\n' ∈ finish brokenText false ∧ isLineBreak '\n' = true) ∧
      finish (finish brokenText false) true = finish brokenText true ∧
      (∀ c ∈ finish brokenText false, isLineBreak c = true → c = '\n') ∧
      ∃ lines, (∀ other, Text.HasLines brokenText other ↔ other = lines) ∧
        finish brokenText false = endedLines (lines.filter fun line => Remains false line) :=
  ⟨by decide +kernel, finish_by_lines brokenText false true⟩

end Script
end SchemaLedger
