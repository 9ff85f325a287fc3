import Mathlib.Data.List.Infix
import SchemaLedger.Proofs.Text.Line

/-!
# Parts of a text

A part without a certain character lies on one side of that character, so a text
that is cut at a separator has the parts of its pieces and no others.
-/

namespace SchemaLedger
namespace Text

theorem not_isPrefixOf_iff {part t : Text} : (!part.isPrefixOf t) = true ↔ ¬part <+: t := by
  rw [Bool.not_eq_true', ← Bool.not_eq_true, List.isPrefixOf_iff_prefix]

theorem after?_append (start t : Text) : after? start (start ++ t) = some t := by
  have hstart : start.isPrefixOf (start ++ t) = true :=
    List.isPrefixOf_iff_prefix.2 (List.prefix_append start t)
  rw [after?, if_pos hstart, List.drop_left]

theorem after?_eq_some {start t rest : Text} : after? start t = some rest ↔ t = start ++ rest := by
  constructor
  · intro h
    unfold after? at h
    split at h
    · next hstart =>
      obtain ⟨back, rfl⟩ := List.isPrefixOf_iff_prefix.1 hstart
      rw [← Option.some.inj h, List.drop_left]
    · cases h
  · rintro rfl
    exact after?_append start rest

/-- How often a part stands in a text, also where it overlaps itself. -/
def occurrences (part t : Text) : Nat :=
  t.tails.countP (part.isPrefixOf ·)

example : occurrences "aa".text "aaba aa".text = 2 := by
  decide

variable {part t u : Text} {c : CodePoint}

theorem occurrences_eq_zero : occurrences part t = 0 ↔ ¬part <:+: t := by
  rw [occurrences, List.countP_eq_zero, List.infix_iff_prefix_suffix, not_exists]
  refine forall_congr' fun rest => ?_
  rw [List.mem_tails, List.isPrefixOf_iff_prefix]
  tauto

theorem occurrences_cons : occurrences part (c :: t) =
    occurrences part t + if part.isPrefixOf (c :: t) then 1 else 0 := by
  rw [occurrences, List.tails_cons, List.countP_cons]
  rfl

theorem prefix_append_separator_iff (hc : c ∉ part) : part <+: t ++ c :: u ↔ part <+: t := by
  refine ⟨fun h => ?_, fun h => h.trans (List.prefix_append _ _)⟩
  have hcut : t ++ [c] <+: t ++ c :: u := ⟨u, by simp⟩
  rcases List.prefix_or_prefix_of_prefix h hcut with hshort | hlong
  · rcases List.prefix_concat_iff.1 hshort with heq | hprefix
    · exact absurd (heq ▸ List.mem_append_right t List.mem_cons_self) hc
    · exact hprefix
  · exact absurd (hlong.subset (List.mem_append_right t List.mem_cons_self)) hc

/-- The separator is in no occurrence. -/
theorem occurrences_append_separator (hne : part ≠ []) (hc : c ∉ part) :
    occurrences part (t ++ c :: u) = occurrences part t + occurrences part u := by
  induction t with
  | nil =>
    have hfirst : part.isPrefixOf (c :: u) = false := by
      rw [← Bool.not_eq_true, List.isPrefixOf_iff_prefix, ← List.nil_append (c :: u),
        prefix_append_separator_iff hc, List.prefix_nil]
      exact hne
    have hnil : occurrences part [] = 0 := by
      rw [occurrences_eq_zero, List.infix_nil]
      exact hne
    rw [List.nil_append, occurrences_cons, hfirst, hnil]
    simp
  | cons x rest ih =>
    have hfirst : part.isPrefixOf (x :: rest ++ c :: u) = part.isPrefixOf (x :: rest) := by
      rw [Bool.eq_iff_iff, List.isPrefixOf_iff_prefix, List.isPrefixOf_iff_prefix,
        prefix_append_separator_iff hc]
    rw [List.cons_append] at hfirst ⊢
    rw [occurrences_cons, occurrences_cons, hfirst, ih]
    omega

theorem infix_append_separator_iff (hne : part ≠ []) (hc : c ∉ part) :
    part <:+: t ++ c :: u ↔ part <:+: t ∨ part <:+: u := by
  rw [← not_iff_not, not_or, ← occurrences_eq_zero, ← occurrences_eq_zero, ← occurrences_eq_zero,
    occurrences_append_separator hne hc, Nat.add_eq_zero_iff]

/-- A text stands once in itself. -/
theorem occurrences_self (hne : part ≠ []) : occurrences part part = 1 := by
  obtain ⟨c, rest, rfl⟩ := List.exists_cons_of_ne_nil hne
  have hrest : occurrences (c :: rest) rest = 0 :=
    occurrences_eq_zero.2 fun h => absurd h.length_le (by simp)
  have hfirst : (c :: rest).isPrefixOf (c :: rest) = true :=
    List.isPrefixOf_iff_prefix.2 List.prefix_rfl
  rw [occurrences_cons, hrest, hfirst]
  rfl

/-! ## Ends that are not in the part -/

theorem infix_append_left_iff {front : Text} (h : c ∉ front) :
    c :: part <:+: front ++ t ↔ c :: part <:+: t := by
  induction front with
  | nil => exact Iff.rfl
  | cons x rest ih =>
    obtain ⟨hx, hrest⟩ := not_or.1 (List.mem_cons.not.1 h)
    rw [List.cons_append, List.infix_cons_iff, ih hrest]
    exact or_iff_right fun hprefix => hx (List.cons_prefix_cons.1 hprefix).1

theorem infix_append_right_iff {back : Text} (h : c ∉ back) :
    part ++ [c] <:+: t ++ back ↔ part ++ [c] <:+: t := by
  have hback : c ∉ back.reverse := fun hmem => h (List.mem_reverse.1 hmem)
  calc part ++ [c] <:+: t ++ back
      ↔ (part ++ [c]).reverse <:+: (t ++ back).reverse := List.reverse_infix.symm
    _ ↔ c :: part.reverse <:+: back.reverse ++ t.reverse := by
      rw [List.reverse_concat, List.reverse_append]
    _ ↔ c :: part.reverse <:+: t.reverse := infix_append_left_iff hback
    _ ↔ part ++ [c] <:+: t := by rw [← List.reverse_concat, List.reverse_infix]

/-! ## Lines -/

/-- No part of one line goes over the end of a line. -/
theorem infix_iff_exists_line (hne : part ≠ []) (hpart : Unbroken part) (t : Text) :
    part <:+: t ↔ ∃ line ∈ lines t, part <:+: line := by
  have hunbroken : ∀ line, Unbroken line →
      (part <:+: line ↔ ∃ other ∈ lines line, part <:+: other) := by
    intro line hline
    by_cases hnil : line = []
    · rw [hnil, List.infix_nil]
      simp [lines, hne]
    · rw [lines_of_unbroken hline hnil]
      simp
  induction t using lines_induction with
  | unbroken t ht => exact hunbroken t ht
  | cut front b rest extra hb hrest hextra hlines ih =>
    have hbreak : b ∉ part := fun hmem => by simp [hpart b hmem] at hb
    have hnone : ¬∃ line ∈ extra, part <:+: line := by
      rcases hextra with rfl | rfl
      · simp
      · simpa using hne
    have hfront : part <:+: front ↔ ∃ line ∈ lines front, part <:+: line := ih
    rw [infix_append_separator_iff hne hbreak, hfront, hunbroken rest hrest, hlines]
    simp only [List.mem_append, or_and_right, exists_or]
    rw [or_iff_left hnone]

end Text
end SchemaLedger
