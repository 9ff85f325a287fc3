import Mathlib.Data.List.Basic
import Mathlib.Data.List.Induction
import SchemaLedger.Diff.Matching

/-!
# What the edits say

Edits lead from the one list of lines to the other, so lists that are only kept
are equal.  Of a list and itself all lines are kept: the longest common run that
is found lies at the same place in both, because at least as long a one on the
diagonal is met before any other.
-/

namespace SchemaLedger
namespace Diff

variable {excluded old new front lines : List Text} {line : Text} {r best : Run} {i j n : Nat}

/-! ## The table of runs -/

/-- How many lines two lists begin with that are the same and not excluded. -/
def matched (excluded : List Text) : List Text → List Text → Nat
  | a :: as, b :: bs => if b = a && !excluded.contains b then matched excluded as bs + 1 else 0
  | _, _ => 0

theorem exists_of_matched (excluded xs ys : List Text) :
    ∃ both xs' ys', xs = both ++ xs' ∧ ys = both ++ ys' ∧ both.length = matched excluded xs ys := by
  induction xs generalizing ys with
  | nil => exact ⟨[], [], ys, rfl, rfl, rfl⟩
  | cons a as ih =>
    cases ys with
    | nil => exact ⟨[], a :: as, [], rfl, rfl, rfl⟩
    | cons b bs =>
      rw [matched]
      split
      · next hsame =>
        obtain ⟨rfl, _⟩ : b = a ∧ _ := by simpa using hsame
        obtain ⟨both, xs', ys', rfl, rfl, hlength⟩ := ih bs
        exact ⟨b :: both, xs', ys', rfl, rfl, congrArg Nat.succ hlength⟩
      · exact ⟨[], a :: as, b :: bs, rfl, rfl, rfl⟩

theorem matched_le_left (excluded xs ys : List Text) :
    matched excluded xs ys ≤ matched excluded xs xs := by
  induction xs generalizing ys with
  | nil => exact Nat.le_refl 0
  | cons a as ih =>
    cases ys with
    | nil => exact Nat.zero_le _
    | cons b bs =>
      rw [matched, matched]
      split
      · next hsame =>
        obtain ⟨rfl, hplain⟩ : b = a ∧ _ := by simpa using hsame
        simpa [hplain] using ih bs
      · exact Nat.zero_le _

theorem matched_le_right (excluded xs ys : List Text) :
    matched excluded xs ys ≤ matched excluded ys ys := by
  induction xs generalizing ys with
  | nil => exact Nat.zero_le _
  | cons a as ih =>
    cases ys with
    | nil => exact Nat.le_refl 0
    | cons b bs =>
      rw [matched, matched]
      split
      · next hsame =>
        obtain ⟨rfl, hplain⟩ : b = a ∧ _ := by simpa using hsame
        simpa [hplain] using ih bs
      · exact Nat.zero_le _

/-- How many lines agree that end with the last of `front` and with the line
number `j` of the new list. -/
def sizeAt (excluded new front : List Text) (j : Nat) : Nat :=
  matched excluded front.reverse (new.take (j + 1)).reverse

def row (excluded new front : List Text) : List Nat :=
  (List.range new.length).map (sizeAt excluded new front)

theorem row_nil : row excluded new [] = List.replicate new.length 0 :=
  List.eq_replicate_iff.2 ⟨by simp [row], by simp [row, sizeAt, matched]⟩

theorem runsEnding_row : runsEnding excluded new (row excluded new front) line =
    row excluded new (front ++ [line]) := by
  refine List.ext_getElem (by simp [runsEnding, row]) fun j hj hj' => ?_
  have hnew : j < new.length := by simpa [row] using hj'
  have hbound : j < (0 :: row excluded new front).length := by
    rw [List.length_cons, row, List.length_map, List.length_range]
    exact Nat.lt_succ_of_lt hnew
  have hbefore : (0 :: row excluded new front)[j] =
      matched excluded front.reverse (new.take j).reverse := by
    cases j with
    | zero =>
      rw [List.getElem_cons_zero, List.take_zero]
      cases front.reverse <;> rfl
    | succ j => simp [row, sizeAt]
  have hlast : sizeAt excluded new (front ++ [line]) j =
      if new[j] = line && !excluded.contains new[j] then
        matched excluded front.reverse (new.take j).reverse + 1 else 0 := by
    rw [sizeAt, List.take_succ_eq_append_getElem hnew, List.reverse_append, List.reverse_append]
    rfl
  simp only [runsEnding, row, List.getElem_zipWith, List.getElem_map, List.getElem_range, hlast]
  rw [← hbefore]
  rfl

/-- The best run and the last row after the lines of `front`. -/
def table (excluded new front : List Text) : Run × List Nat :=
  front.zipIdx.foldl (fun (best, before) (line, i) =>
    let sizes := runsEnding excluded new before line
    (bestEnding best i sizes, sizes)) (⟨0, 0, 0⟩, List.replicate new.length 0)

theorem table_concat : table excluded new (front ++ [line]) =
    (bestEnding (table excluded new front).1 front.length
      (runsEnding excluded new (table excluded new front).2 line),
      runsEnding excluded new (table excluded new front).2 line) := by
  rw [table, List.zipIdx_append, List.foldl_append]
  simp only [List.zipIdx_singleton, List.foldl_cons, List.foldl_nil, Nat.zero_add]
  rfl

theorem table_row : (table excluded new front).2 = row excluded new front := by
  induction front using List.reverseRecOn with
  | nil => exact row_nil.symm
  | append_singleton front line ih => rw [table_concat, ih, runsEnding_row]

/-- The run that ends with the last of `front` and with the line number `j`. -/
def runAt (excluded new front : List Text) (j : Nat) : Run :=
  ⟨front.length - sizeAt excluded new front j, j + 1 - sizeAt excluded new front j,
    sizeAt excluded new front j⟩

/-- The best run after the first `n` columns of a row. -/
def bestBefore (excluded new front : List Text) (best : Run) (n : Nat) : Run :=
  (List.range n).foldl (fun best j => best.better (runAt excluded new front j)) best

theorem bestBefore_succ : bestBefore excluded new front best (n + 1) =
    (bestBefore excluded new front best n).better (runAt excluded new front n) := by
  rw [bestBefore, List.range_succ, List.foldl_append]
  rfl

theorem bestEnding_range (excluded new front : List Text) (best : Run) (i n : Nat)
    (hi : i + 1 = front.length) :
    bestEnding best i ((List.range n).map (sizeAt excluded new front)) =
      bestBefore excluded new front best n := by
  induction n with
  | zero => rfl
  | succ n ih =>
    rw [bestBefore_succ, ← ih, List.range_succ, List.map_append, bestEnding, List.zipIdx_append,
      List.foldl_append, ← bestEnding]
    simp only [List.map_cons, List.map_nil, List.length_map, List.length_range, Nat.zero_add,
      List.zipIdx_singleton, List.foldl_cons, List.foldl_nil, hi, runAt]

theorem table_best : (table excluded new (front ++ [line])).1 =
    bestBefore excluded new (front ++ [line]) (table excluded new front).1 new.length := by
  rw [table_concat, table_row, runsEnding_row]
  exact bestEnding_range _ _ _ _ _ _ (by simp)

/-! ## Common runs -/

/-- The run is one of lines that both lists have. -/
def Run.IsCommon (old new : List Text) (r : Run) : Prop :=
  ∃ a b c d lines, old = a ++ lines ++ b ∧ new = c ++ lines ++ d ∧
    r = ⟨a.length, c.length, lines.length⟩

namespace Run

theorem isCommon_zero (old new : List Text) : (⟨0, 0, 0⟩ : Run).IsCommon old new :=
  ⟨[], old, [], new, [], rfl, rfl, rfl⟩

theorem IsCommon.append (h : r.IsCommon front new) (more : List Text) :
    r.IsCommon (front ++ more) new := by
  obtain ⟨a, b, c, d, lines, rfl, hnew, hr⟩ := h
  exact ⟨a, b ++ more, c, d, lines, by simp, hnew, hr⟩

theorem better_cases (best candidate : Run) :
    best.better candidate = best ∨ best.better candidate = candidate := by
  unfold better
  split
  · exact .inr rfl
  · exact .inl rfl

end Run

theorem isCommon_runAt (hj : j < new.length) : (runAt excluded new front j).IsCommon front new := by
  obtain ⟨both, xs, ys, hfront, hnew, hlength⟩ :=
    exists_of_matched excluded front.reverse (new.take (j + 1)).reverse
  have hsize : sizeAt excluded new front j = both.length := hlength.symm
  have hfront' : front = xs.reverse ++ both.reverse := by
    rw [← List.reverse_append, ← hfront, List.reverse_reverse]
  have hnew' : new.take (j + 1) = ys.reverse ++ both.reverse := by
    rw [← List.reverse_append, ← hnew, List.reverse_reverse]
  have hcolumn : j + 1 = ys.length + both.length := by
    have := congrArg List.length hnew'
    rw [List.length_take_of_le hj] at this
    simpa using this
  refine ⟨xs.reverse, [], ys.reverse, new.drop (j + 1), both.reverse, ?_, ?_, ?_⟩
  · rw [List.append_nil, hfront']
  · rw [← hnew', List.take_append_drop]
  · rw [runAt, hsize, hcolumn, hfront']
    simp

theorem isCommon_table (excluded old new : List Text) :
    (table excluded new old).1.IsCommon old new := by
  induction old using List.reverseRecOn with
  | nil => exact Run.isCommon_zero _ _
  | append_singleton front line ih =>
    rw [table_best]
    have hrow : ∀ n, n ≤ new.length →
        (bestBefore excluded new (front ++ [line]) (table excluded new front).1 n).IsCommon
          (front ++ [line]) new := by
      intro n hn
      induction n with
      | zero => exact ih.append [line]
      | succ n ihn =>
        rw [bestBefore_succ]
        rcases Run.better_cases (bestBefore excluded new (front ++ [line])
          (table excluded new front).1 n) (runAt excluded new (front ++ [line]) n) with h | h
        · rw [h]
          exact ihn (Nat.le_of_succ_le hn)
        · rw [h]
          exact isCommon_runAt hn
    exact hrow _ (Nat.le_refl _)

/-- Lines agree as far as they are matched with none excluded. -/
theorem agreeing_eq_matched (xs ys : List Text) : agreeing xs ys = matched [] xs ys := by
  induction xs generalizing ys with
  | nil => rfl
  | cons a as ih =>
    cases ys with
    | nil => rfl
    | cons b bs =>
      rw [agreeing, matched, ih]
      simp [eq_comm]

theorem agreeing_self (xs : List Text) : agreeing xs xs = xs.length := by
  induction xs with
  | nil => rfl
  | cons x xs ih => rw [agreeing, if_pos rfl, ih, List.length_cons]

theorem Run.extend_append (a b c d lines : List Text) :
    (⟨a.length, c.length, lines.length⟩ : Run).extend (a ++ lines ++ b) (c ++ lines ++ d) =
      ⟨a.length - agreeing a.reverse c.reverse, c.length - agreeing a.reverse c.reverse,
        agreeing a.reverse c.reverse + lines.length + agreeing b d⟩ := by
  unfold Run.extend
  simp only [← List.length_append, List.drop_left]
  simp only [List.append_assoc, List.take_left]

/-- A common run stays one when it is made longer. -/
theorem Run.IsCommon.extend (h : r.IsCommon old new) : (r.extend old new).IsCommon old new := by
  obtain ⟨a, b, c, d, lines, rfl, rfl, rfl⟩ := h
  obtain ⟨ahead, a', c', ha, hc, hahead⟩ := exists_of_matched [] a.reverse c.reverse
  obtain ⟨behind, b', d', hb, hd, hbehind⟩ := exists_of_matched [] b d
  rw [← agreeing_eq_matched] at hahead hbehind
  have ha' : a = a'.reverse ++ ahead.reverse := by
    rw [← List.reverse_append, ← ha, List.reverse_reverse]
  have hc' : c = c'.reverse ++ ahead.reverse := by
    rw [← List.reverse_append, ← hc, List.reverse_reverse]
  refine ⟨a'.reverse, b', c'.reverse, d', ahead.reverse ++ lines ++ behind, ?_, ?_, ?_⟩
  · rw [ha', hb]
    simp only [List.append_assoc]
  · rw [hc', hd]
    simp only [List.append_assoc]
  · rw [Run.extend_append, ← hahead, ← hbehind, ha', hc']
    simp [Nat.add_assoc]

theorem isCommon_longest (excluded old new : List Text) :
    (longest excluded old new).IsCommon old new :=
  (isCommon_table excluded old new).extend

/-! ## The edits -/

namespace Edit

variable {rest : List Edit}

theorem flatMap_cons {side : Edit → List Text} (hside : side = Edit.old ∨ side = Edit.new)
    (e : Edit) (rest : List Edit) :
    (Edit.cons e rest).flatMap side = side e ++ rest.flatMap side := by
  unfold Edit.cons
  rcases hside with rfl | rfl <;> split <;> simp [Edit.old, Edit.new]

end Edit

/-- The edits on either side of a run, which is kept. -/
theorem editsBefore_of_run {a b c d : List Text} {rest : List Edit} (hlines : lines ≠ [])
    (h : longest excluded (a ++ lines ++ b) (c ++ lines ++ d) =
      ⟨a.length, c.length, lines.length⟩) :
    editsBefore excluded (a ++ lines ++ b) (c ++ lines ++ d) rest =
      editsBefore excluded a c (Edit.cons (.keep lines) (editsBefore excluded b d rest)) := by
  have hpos : 0 < lines.length := List.length_pos_iff.2 hlines
  rw [editsBefore]
  simp only [h]
  rw [dif_pos ⟨hpos, by simp⟩]
  simp only [← List.length_append, List.drop_left]
  simp only [List.append_assoc, List.take_left, List.drop_left]

theorem editsBefore_of_nothing {rest : List Edit} (h : (longest excluded old new).size = 0) :
    editsBefore excluded old new rest = Edit.cons (.change old new) rest := by
  rw [editsBefore]
  simp only [h]
  rw [dif_neg (fun hrun => absurd hrun.1 (Nat.lt_irrefl 0))]

/-- The old sides of the edits make up the old list, the new sides the new
one. -/
theorem flatMap_editsBefore (excluded old new : List Text) (rest : List Edit) :
    (editsBefore excluded old new rest).flatMap Edit.old = old ++ rest.flatMap Edit.old ∧
      (editsBefore excluded old new rest).flatMap Edit.new = new ++ rest.flatMap Edit.new := by
  induction hlength : old.length using Nat.strongRecOn generalizing old new rest with
  | _ n ih =>
    obtain ⟨a, b, c, d, lines, hold, hnew, hrun⟩ := isCommon_longest excluded old new
    by_cases hlines : lines = []
    · have hnothing : (longest excluded old new).size = 0 := by
        rw [hrun, hlines]
        rfl
      rw [editsBefore_of_nothing hnothing, Edit.flatMap_cons (.inl rfl),
        Edit.flatMap_cons (.inr rfl)]
      exact ⟨rfl, rfl⟩
    · have hpos : 0 < lines.length := List.length_pos_iff.2 hlines
      subst hold hnew
      rw [List.length_append, List.length_append] at hlength
      rw [editsBefore_of_run hlines hrun]
      obtain ⟨hold, hnew⟩ := ih a.length (by omega) a c
        (Edit.cons (.keep lines) (editsBefore excluded b d rest)) rfl
      obtain ⟨hold', hnew'⟩ := ih b.length (by omega) b d rest rfl
      rw [hold, hnew, Edit.flatMap_cons (.inl rfl), Edit.flatMap_cons (.inr rfl), hold', hnew']
      simp only [Edit.old, Edit.new, List.append_assoc, and_self]

/-! ## A list and itself -/

/-- How many lines that are not excluded end with the line number `k - 1`: the
run on the diagonal there. -/
def stretch (excluded lines : List Text) (k : Nat) : Nat :=
  matched excluded (lines.take k).reverse (lines.take k).reverse

/-- The run is on the diagonal, and none on the diagonal up to `i` is longer. -/
structure Leads (excluded lines : List Text) (i : Nat) (best : Run) : Prop where
  diagonal : best.old = best.new
  longest : ∀ k ≤ i, stretch excluded lines k ≤ best.size

theorem Run.better_of_le {candidate : Run} (h : candidate.size ≤ best.size) :
    best.better candidate = best :=
  if_neg (Nat.not_lt.2 h)

theorem Leads.better (h : Leads excluded lines i best) {candidate : Run}
    (hcandidate : candidate.old = candidate.new) :
    Leads excluded lines i (best.better candidate) := by
  unfold Run.better
  split
  · next hlonger =>
    exact ⟨hcandidate, fun k hk => Nat.le_trans (h.longest k hk) (Nat.le_of_lt hlonger)⟩
  · exact h

/-- Left of the diagonal a run is no longer than one of an earlier row, right of
it no longer than that on the diagonal of its own row. -/
theorem leads_bestBefore (h : Leads excluded lines i best) (hi : i < lines.length) (n : Nat) :
    Leads excluded lines i (bestBefore excluded lines (lines.take (i + 1)) best n) ∧
      (i < n → stretch excluded lines (i + 1) ≤
        (bestBefore excluded lines (lines.take (i + 1)) best n).size) := by
  induction n with
  | zero => exact ⟨h, fun hn => absurd hn (Nat.not_lt_zero i)⟩
  | succ n ih =>
    obtain ⟨hleads, hown⟩ := ih
    rw [bestBefore_succ]
    generalize bestBefore excluded lines (lines.take (i + 1)) best n = before at hleads hown ⊢
    have hrow : sizeAt excluded lines (lines.take (i + 1)) n ≤ stretch excluded lines (i + 1) :=
      matched_le_left _ _ _
    have hcolumn : sizeAt excluded lines (lines.take (i + 1)) n ≤ stretch excluded lines (n + 1) :=
      matched_le_right _ _ _
    rcases Nat.lt_trichotomy n i with hleft | rfl | hright
    · rw [Run.better_of_le (Nat.le_trans hcolumn (hleads.longest (n + 1) hleft))]
      exact ⟨hleads, fun hn => absurd hn (by omega)⟩
    · have hlength : (lines.take (n + 1)).length = n + 1 := List.length_take_of_le hi
      refine ⟨hleads.better ?_, fun _ => ?_⟩
      · simp only [runAt, hlength]
      · have hsize : (runAt excluded lines (lines.take (n + 1)) n).size =
            stretch excluded lines (n + 1) := rfl
        rw [← hsize, Run.better]
        split
        · exact Nat.le_refl _
        · next hshort => exact Nat.not_lt.1 hshort
    · rw [Run.better_of_le (Nat.le_trans hrow (hown hright))]
      exact ⟨hleads, fun _ => hown hright⟩

theorem leads_table (excluded : List Text) (hi : i ≤ lines.length) :
    Leads excluded lines i (table excluded lines (lines.take i)).1 := by
  induction i with
  | zero => exact ⟨rfl, fun k hk => by rw [Nat.le_zero.1 hk]; exact Nat.zero_le _⟩
  | succ i ih =>
    have hsplit : lines.take (i + 1) = lines.take i ++ [lines[i]] :=
      List.take_succ_eq_append_getElem hi
    obtain ⟨hleads, hown⟩ := leads_bestBefore (ih (Nat.le_of_succ_le hi)) hi lines.length
    rw [hsplit, table_best, ← hsplit]
    refine ⟨hleads.diagonal, fun k hk => ?_⟩
    rcases Nat.le_succ_iff.1 hk with hk | rfl
    · exact hleads.longest k hk
    · exact hown hi

/-- Of a list and itself the first longest run is on the diagonal. -/
theorem table_diagonal (excluded lines : List Text) :
    (table excluded lines lines).1.old = (table excluded lines lines).1.new := by
  have hleads := leads_table excluded (Nat.le_refl lines.length)
  rw [List.take_length] at hleads
  exact hleads.diagonal

theorem longest_self (excluded lines : List Text) :
    longest excluded lines lines = ⟨0, 0, lines.length⟩ := by
  obtain ⟨a, b, c, d, run, hold, hnew, hrun⟩ := isCommon_table excluded lines lines
  have hdiagonal := table_diagonal excluded lines
  have hlongest : longest excluded lines lines =
      (table excluded lines lines).1.extend lines lines := rfl
  rw [hrun] at hdiagonal hlongest
  have hparts := hold.symm.trans hnew
  simp only [List.append_assoc] at hparts
  obtain ⟨rfl, hbehind⟩ := List.append_inj hparts hdiagonal
  obtain rfl := List.append_cancel_left hbehind
  rw [hlongest]
  conv_lhs => rw [hold]
  rw [Run.extend_append, agreeing_self, agreeing_self, List.length_reverse, Nat.sub_self, hold]
  simp only [List.length_append]

theorem editsBefore_self (excluded lines : List Text) (rest : List Edit) :
    editsBefore excluded lines lines rest = Edit.cons (.keep lines) rest := by
  have hnil : ∀ rest, editsBefore excluded [] [] rest = rest := by
    intro rest
    rw [editsBefore_of_nothing (by rw [longest_self]; rfl)]
    rfl
  by_cases hlines : lines = []
  · rw [hlines, hnil]
    rfl
  · have hlongest : longest excluded ([] ++ lines ++ []) ([] ++ lines ++ []) =
        ⟨0, 0, lines.length⟩ := by
      rw [List.nil_append, List.append_nil]
      exact longest_self excluded lines
    have hrun : editsBefore excluded ([] ++ lines ++ []) ([] ++ lines ++ []) rest =
        editsBefore excluded [] [] (Edit.cons (.keep lines) (editsBefore excluded [] [] rest)) :=
      editsBefore_of_run hlines hlongest
    rw [List.nil_append, List.append_nil] at hrun
    rw [hrun, hnil, hnil]

/-- Only kept lines are left exactly between equal lists. -/
theorem edits_kept_iff : (∀ e ∈ edits old new, ∃ lines, e = .keep lines) ↔ old = new := by
  constructor
  · intro hkept
    obtain ⟨hold, hnew⟩ := flatMap_editsBefore (frequent new) old new []
    rw [List.flatMap_nil, List.append_nil] at hold hnew
    calc old = (edits old new).flatMap Edit.old := hold.symm
      _ = (edits old new).flatMap Edit.new := List.flatMap_congr fun e he => by
        obtain ⟨lines, rfl⟩ := hkept e he
        rfl
      _ = new := hnew
  · rintro rfl e he
    rw [edits, editsBefore_self] at he
    cases old with
    | nil => cases he
    | cons line rest => exact ⟨_, List.mem_singleton.1 he⟩

end Diff
end SchemaLedger
