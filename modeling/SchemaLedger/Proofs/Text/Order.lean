import Mathlib.Data.List.Lex
import SchemaLedger.Proofs.Text.CodePoint

/-!
# Code-point order

The order in which names are listed is the lexicographic order of texts, so two
lists of the same names are listed alike.
-/

namespace SchemaLedger
namespace Text

theorem before_eq_true_iff {a b : Text} : before a b = true ↔ a < b := by
  induction a generalizing b with
  | nil =>
    cases b with
    | nil => simp [before]
    | cons y ys => simp [before]
  | cons x xs ih =>
    cases b with
    | nil => simp [before]
    | cons y ys =>
      rw [before, List.cons_lt_cons_iff]
      by_cases hxy : x = y
      · subst hxy
        rw [if_pos rfl, ih]
        simp
      · rw [if_neg hxy]
        have hlt : x.toNat < y.toNat ↔ x < y := Iff.rfl
        simp [hxy, hlt]

theorem atMost_eq_true_iff {a b : Text} : atMost a b = true ↔ a ≤ b := by
  rw [atMost, Bool.not_eq_true', ← Bool.not_eq_true, before_eq_true_iff, not_lt]

theorem pairwise_mergeSort {α : Type} (key : α → Text) (xs : List α) :
    (xs.mergeSort fun x y => atMost (key x) (key y)).Pairwise
      fun x y => atMost (key x) (key y) = true := by
  refine List.pairwise_mergeSort (fun a b c hab hbc => ?_) (fun a b => ?_) xs
  · rw [atMost_eq_true_iff] at *
    exact hab.trans hbc
  · rw [Bool.or_eq_true, atMost_eq_true_iff, atMost_eq_true_iff]
    exact le_total _ _

/-- Sorting by a text that tells the elements apart does not depend on their
order. -/
theorem mergeSort_eq_of_perm {α : Type} {key : α → Text} {xs ys : List α} (hperm : xs.Perm ys)
    (hkey : ∀ x ∈ xs, ∀ y ∈ xs, key x = key y → x = y) :
    (xs.mergeSort fun x y => atMost (key x) (key y)) =
      ys.mergeSort fun x y => atMost (key x) (key y) := by
  refine List.Perm.eq_of_pairwise (fun x y hx hy hxy hyx => ?_) (pairwise_mergeSort key xs)
    (pairwise_mergeSort key ys)
    ((List.mergeSort_perm xs _).trans (hperm.trans (List.mergeSort_perm ys _).symm))
  rw [atMost_eq_true_iff] at hxy hyx
  exact hkey x (List.mem_mergeSort.1 hx) y (hperm.mem_iff.2 (List.mem_mergeSort.1 hy))
    (le_antisymm hxy hyx)

/-- Listed texts are the same when their members are. -/
theorem eq_of_sorted {xs ys : List Text} (hxs : xs.Pairwise fun x y => atMost x y = true)
    (hys : ys.Pairwise fun x y => atMost x y = true) (hxnodup : xs.Nodup) (hynodup : ys.Nodup)
    (hmem : ∀ t, t ∈ xs ↔ t ∈ ys) : xs = ys := by
  refine List.Perm.eq_of_pairwise (fun x y _ _ hxy hyx => ?_) hxs hys
    ((List.perm_ext_iff_of_nodup hxnodup hynodup).2 hmem)
  rw [atMost_eq_true_iff] at hxy hyx
  exact le_antisymm hxy hyx

end Text
end SchemaLedger
