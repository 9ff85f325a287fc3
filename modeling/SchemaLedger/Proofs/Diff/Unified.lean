import SchemaLedger.Diff.Unified
import SchemaLedger.Proofs.Diff.Matching

/-!
# Unified differences of equal lists

Every change is shown in some hunk, and kept lines alone make none.  So nothing
is shown exactly when the lists are equal.
-/

namespace SchemaLedger
namespace Diff

variable {ps : List Placed} {hunk : Hunk} {es : List Edit} {old new : List Text}

/-- Some of the edits is a change. -/
def Changes (ps : List Placed) : Prop :=
  ∃ p ∈ ps, p.isKept = false

@[simp] theorem isKept_firstLines (p : Placed) : p.firstLines.isKept = p.isKept := by
  obtain ⟨e, i, j⟩ := p
  cases e <;> rfl

@[simp] theorem isKept_lastLines (p : Placed) : p.lastLines.isKept = p.isKept := by
  obtain ⟨e, i, j⟩ := p
  cases e <;> rfl

theorem isKept_of_isWide {p : Placed} (h : p.isWide = true) : p.isKept = true := by
  obtain ⟨e, i, j⟩ := p
  cases e with
  | keep lines => rfl
  | change old new => cases h

@[simp] theorem not_changes_nil : ¬ Changes [] := by
  simp [Changes]

theorem changes_cons {p : Placed} : Changes (p :: ps) ↔ p.isKept = false ∨ Changes ps := by
  simp [Changes]

theorem changes_append {qs : List Placed} : Changes (ps ++ qs) ↔ Changes ps ∨ Changes qs := by
  simp [Changes, or_and_right, exists_or]

theorem changes_trimFirst : Changes (trimFirst ps) ↔ Changes ps := by
  cases ps with
  | nil => rfl
  | cons p rest => rw [trimFirst, changes_cons, changes_cons, isKept_lastLines]

theorem changes_trimLast : Changes (trimLast ps) ↔ Changes ps := by
  induction ps with
  | nil => rfl
  | cons p rest ih =>
    cases rest with
    | nil => rw [trimLast, changes_cons, changes_cons, isKept_firstLines]
    | cons q rest =>
      rw [trimLast, changes_cons, ih, ← changes_cons]
      exact List.cons_ne_nil q rest

/-- Cutting edits into hunks leaves none of the changes out. -/
theorem exists_changes_cutHunks : (∃ h ∈ cutHunks hunk ps, Changes h) ↔ Changes (hunk ++ ps) := by
  induction ps generalizing hunk with
  | nil => simp [cutHunks]
  | cons p rest ih =>
    rw [cutHunks]
    split
    · next hwide =>
      have hkept := isKept_of_isWide hwide
      simp [ih, changes_append, changes_cons, hkept]
    · simp [ih, changes_append, changes_cons]

theorem changes_placed (i j : Nat) :
    Changes (placed i j es) ↔ ∃ e ∈ es, ∀ lines, e ≠ .keep lines := by
  induction es generalizing i j with
  | nil => simp [placed, Changes]
  | cons e rest ih =>
    rw [placed, changes_cons, ih]
    cases e with
    | keep lines => simp [Placed.isKept]
    | change old new => simp [Placed.isKept]

/-- Edits make no hunk exactly when all lines are kept. -/
theorem hunks_eq_nil_iff : hunks es = [] ↔ ∀ e ∈ es, ∃ lines, e = .keep lines := by
  have hchanges : (∃ h ∈ cutHunks [] (trimLast (trimFirst (placed 0 0 es))), Changes h) ↔
      ∃ e ∈ es, ∀ lines, e ≠ .keep lines := by
    rw [exists_changes_cutHunks, List.nil_append, changes_trimLast, changes_trimFirst,
      changes_placed]
  have hany : ∀ h : Hunk, (h.any (!·.isKept)) = true ↔ Changes h := by
    simp [Changes]
  have hnone : (¬ ∃ e ∈ es, ∀ lines, e ≠ .keep lines) ↔ ∀ e ∈ es, ∃ lines, e = .keep lines := by
    simp
  rw [hunks, List.filter_eq_nil_iff, ← hnone, ← hchanges]
  simp only [hany, not_exists, not_and]

/-- The difference of two lists of lines is empty exactly when they are equal. -/
theorem unified_eq_nil_iff {oldName newName : Text} :
    unified oldName newName old new = [] ↔ old = new := by
  have hempty : unified oldName newName old new = [] ↔ hunks (edits old new) = [] := by
    unfold unified
    cases hunks (edits old new) with
    | nil => exact iff_of_true rfl rfl
    | cons hunk rest => exact iff_of_false (List.cons_ne_nil _ _) (List.cons_ne_nil _ _)
  rw [hempty, hunks_eq_nil_iff, edits_kept_iff]

end Diff
end SchemaLedger
