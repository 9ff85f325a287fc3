import SchemaLedger.Proofs.Script.Contents

/-!
# Additions in another order

Fragments are added in any order of the stages, and a script sorts them.  Sorting keeps
the fragments of one stage in the order in which they were added, so a script is the
concatenation of its stages, and it does not matter how the additions to different stages
are interleaved.
-/

namespace SchemaLedger

namespace Stage

theorem mem_all (stage : Stage) : stage ∈ all := by
  cases stage <;> decide

theorem pairwise_all : all.Pairwise fun a b => a.number < b.number := by
  decide

end Stage

namespace Script

/-! ## One stage -/

/-- The fragments of one stage, in their order. -/
def ofStage (stage : Stage) (fs : List Fragment) : List Fragment :=
  fs.filter (·.stage = stage)

theorem mem_ofStage {stage : Stage} {fs : List Fragment} {f : Fragment} :
    f ∈ ofStage stage fs ↔ f ∈ fs ∧ f.stage = stage := by
  rw [ofStage, List.mem_filter, decide_eq_true_iff]

theorem ofStage_eq_nil {stage : Stage} {fs : List Fragment} (h : ∀ f ∈ fs, f.stage ≠ stage) :
    ofStage stage fs = [] :=
  List.filter_eq_nil_iff.2 fun f hf => by simpa using h f hf

theorem ofStage_cons (stage : Stage) (f : Fragment) (fs : List Fragment) :
    ofStage stage (f :: fs) =
      if f.stage = stage then f :: ofStage stage fs else ofStage stage fs := by
  simp only [ofStage, List.filter_cons, decide_eq_true_eq]

/-- Sorting leaves the fragments of a stage in the order in which they were added. -/
theorem ofStage_ordered (s : Script) (stage : Stage) :
    ofStage stage s.ordered = ofStage stage s.fragments := by
  have hsame : (ofStage stage s.fragments).Pairwise fun f g =>
      decide (f.stage.number ≤ g.stage.number) = true := by
    refine List.pairwise_of_forall_mem_list fun f hf g hg => ?_
    rw [(mem_ofStage.1 hf).2, (mem_ofStage.1 hg).2, decide_eq_true_iff]
  have hsub : (ofStage stage s.fragments).Sublist s.ordered :=
    List.sublist_mergeSort (fun _ _ _ hab hbc => by simp only [decide_eq_true_eq] at *; omega)
      (fun _ _ => by simp only [Bool.or_eq_true, decide_eq_true_eq]; omega)
      hsame List.filter_sublist
  have hstage : ofStage stage (ofStage stage s.fragments) = ofStage stage s.fragments := by
    rw [ofStage, ofStage, List.filter_filter]
    simp only [Bool.and_self]
  have hlength : (ofStage stage s.fragments).length = (ofStage stage s.ordered).length :=
    (s.ordered_perm.filter _).length_eq.symm
  refine (List.Sublist.eq_of_length ?_ hlength).symm
  rw [← hstage]
  exact hsub.filter _

/-- Sorted fragments stand stage by stage. -/
theorem eq_flatMap_ofStage {stages : List Stage}
    (hstages : stages.Pairwise fun a b => a.number < b.number) {fs : List Fragment}
    (hsorted : fs.Pairwise fun f g => f.stage.number ≤ g.stage.number)
    (hmem : ∀ f ∈ fs, f.stage ∈ stages) : fs = stages.flatMap fun stage => ofStage stage fs := by
  induction fs with
  | nil => simp [ofStage]
  | cons f rest ih =>
    obtain ⟨hf, hrest⟩ := List.forall_mem_cons.1 hmem
    obtain ⟨hfirst, hsorted⟩ := List.pairwise_cons.1 hsorted
    obtain ⟨before, after, rfl⟩ := List.append_of_mem hf
    obtain ⟨_, hafter, hbefore⟩ := List.pairwise_append.1 hstages
    -- no fragment belongs to a stage in front of the first one's
    have hnone : ∀ fs : List Fragment, (∀ g ∈ fs, f.stage.number ≤ g.stage.number) →
        (before.flatMap fun stage => ofStage stage fs) = [] := by
      intro fs hfs
      refine List.flatMap_eq_nil_iff.2 fun stage hstage => ofStage_eq_nil fun g hg heq => ?_
      have hlt := hbefore stage hstage f.stage List.mem_cons_self
      have hle := hfs g hg
      rw [heq] at hle
      omega
    have hothers : (after.flatMap fun stage => ofStage stage (f :: rest)) =
        after.flatMap fun stage => ofStage stage rest := by
      refine List.flatMap_congr fun stage hstage => ?_
      have hlt := (List.pairwise_cons.1 hafter).1 stage hstage
      rw [ofStage_cons, if_neg fun heq => by rw [heq] at hlt; omega]
    have hrest := ih hsorted hrest
    rw [List.flatMap_append, hnone rest hfirst, List.nil_append, List.flatMap_cons] at hrest
    rw [List.flatMap_append, hnone (f :: rest) (List.forall_mem_cons.2 ⟨le_rfl, hfirst⟩),
      List.nil_append, List.flatMap_cons, ofStage_cons, if_pos rfl, hothers, List.cons_append,
      ← hrest]

/-- A script runs its fragments stage by stage, those of a stage as they were added. -/
theorem ordered_eq_flatMap (s : Script) :
    s.ordered = Stage.all.flatMap fun stage => ofStage stage s.fragments := by
  have h := eq_flatMap_ofStage Stage.pairwise_all s.ordered_pairwise fun f _ => f.stage.mem_all
  simpa only [ofStage_ordered] using h

theorem sources_some (s : Script) (stage : Stage) :
    s.sources (some stage) = (ofStage stage s.fragments).filterMap Fragment.origin := by
  rw [← ofStage_ordered, ofStage, List.filterMap_filter]
  refine List.filterMap_congr fun f _ => ?_
  simp only [Option.all_some, decide_eq_true_eq]
  exact if_congr eq_comm rfl rfl

theorem sources_none (s : Script) :
    s.sources = Stage.all.flatMap fun stage => s.sources (some stage) := by
  rw [sources_eq, ordered_eq_flatMap, List.filterMap_flatMap]
  exact List.flatMap_congr fun stage _ => (s.sources_some stage).symm

/-! ## Interleavings -/

/-- One call that adds to a script. -/
inductive Addition
  | one (f : Fragment)
  | several (fs : List Fragment)

namespace Addition

def fragments : Addition → List Fragment
  | .one f => [f]
  | .several fs => fs

def apply (s : Script) : Addition → Script
  | .one f => s.add f
  | .several fs => s.extend fs

theorem apply_eq (s : Script) (addition : Addition) :
    addition.apply s = { s with fragments := s.fragments ++ addition.fragments } := by
  cases addition <;> rfl

end Addition

/-- A script after some additions to it. -/
def grown (s : Script) (additions : List Addition) : Script :=
  additions.foldl Addition.apply s

/-- What additions come to does not depend on how they are divided into calls. -/
theorem grown_eq (s : Script) (additions : List Addition) :
    s.grown additions =
      { s with fragments := s.fragments ++ additions.flatMap Addition.fragments } := by
  induction additions generalizing s with
  | nil => simp [grown]
  | cons addition rest ih =>
    have hrest := ih (addition.apply s)
    rw [Addition.apply_eq, List.append_assoc] at hrest
    rw [grown, List.foldl_cons, Addition.apply_eq, List.flatMap_cons]
    exact hrest

/-- The same fragments up to the interleaving of the stages: those of each stage come in the
same order. -/
def Interleaved (fs gs : List Fragment) : Prop :=
  ∀ stage, ofStage stage fs = ofStage stage gs

theorem Interleaved.append_left {fs gs : List Fragment} (h : Interleaved fs gs)
    (front : List Fragment) : Interleaved (front ++ fs) (front ++ gs) := by
  intro stage
  have hstage := h stage
  unfold ofStage at hstage ⊢
  rw [List.filter_append, List.filter_append, hstage]

theorem ordered_eq_of_interleaved {s t : Script} (h : Interleaved s.fragments t.fragments) :
    s.ordered = t.ordered := by
  rw [ordered_eq_flatMap, ordered_eq_flatMap]
  exact List.flatMap_congr fun stage _ => h stage

/-- What is made of a script depends on its fragments as far as they are ordered. -/
theorem sources_eq_of_ordered {s t : Script} (h : s.ordered = t.ordered) (stage : Option Stage) :
    s.sources stage = t.sources stage := by
  rw [sources, sources, h]

theorem render_eq_of_ordered {s t : Script} (htag : s.tag = t.tag) (h : s.ordered = t.ordered)
    (minify : Bool) : s.render minify = t.render minify := by
  have hdraft : s.draft = t.draft := by
    unfold draft header footer
    rw [htag, h]
  exact congrArg (finish · minify) hdraft

/-- Additions to a script may be interleaved in any way that keeps the order inside each
stage, and the script stays the same: its order, its sources and its text.  The order is
that of the stages and, in a stage, that of the additions, and nothing is lost or
repeated; the sources are those of the stages one after the other. -/
theorem ordered_of_additions (s : Script) (additions : List Addition) :
    (∀ others, Interleaved (additions.flatMap Addition.fragments)
        (others.flatMap Addition.fragments) →
      (s.grown additions).ordered = (s.grown others).ordered ∧
      (∀ stage, (s.grown additions).sources stage = (s.grown others).sources stage) ∧
      ∀ minify, (s.grown additions).render minify = (s.grown others).render minify) ∧
    (s.grown additions).ordered.Perm (s.fragments ++ additions.flatMap Addition.fragments) ∧
    ((s.grown additions).ordered.Pairwise fun f g => f.stage.number ≤ g.stage.number) ∧
    (∀ stage, ofStage stage (s.grown additions).ordered =
      ofStage stage (s.fragments ++ additions.flatMap Addition.fragments)) ∧
    (s.grown additions).sources =
      Stage.all.flatMap fun stage => (s.grown additions).sources (some stage) := by
  refine ⟨fun others h => ?_, ?_, ordered_pairwise _, fun stage => ?_, sources_none _⟩
  · have hordered : (s.grown additions).ordered = (s.grown others).ordered := by
      rw [grown_eq, grown_eq]
      exact ordered_eq_of_interleaved (h.append_left s.fragments)
    refine ⟨hordered, sources_eq_of_ordered hordered, render_eq_of_ordered ?_ hordered⟩
    rw [grown_eq, grown_eq]
  · rw [grown_eq]
    exact ordered_perm _
  · rw [grown_eq]
    exact ofStage_ordered _ stage

def sampleFragment (stage : Stage) (sql : String) : Fragment :=
  { stage, body := .plain sql.text, source := some sql.text }

/-- Two views on both sides of a migration, and the same with the migration last but for the
opening. -/
def viewsAround : List Addition :=
  [.one (sampleFragment .views "v"),
   .several [sampleFragment .migrations "m", sampleFragment .views "u"],
   .one (sampleFragment .prelude "p")]

def viewsFirst : List Addition :=
  [.several [sampleFragment .views "v", sampleFragment .views "u",
    sampleFragment .migrations "m"], .one (sampleFragment .prelude "p")]

theorem ordered_of_additions_views :
    Interleaved (viewsAround.flatMap Addition.fragments) (viewsFirst.flatMap Addition.fragments) ∧
    (grown ⟨schemaTag, []⟩ viewsAround).fragments ≠ (grown ⟨schemaTag, []⟩ viewsFirst).fragments ∧
    (grown ⟨schemaTag, []⟩ viewsAround).render true =
      (grown ⟨schemaTag, []⟩ viewsFirst).render true ∧
    (grown ⟨schemaTag, []⟩ viewsAround).sources = ["p", "m", "v", "u"].map String.text := by
  have h : Interleaved (viewsAround.flatMap Addition.fragments)
      (viewsFirst.flatMap Addition.fragments) := by
    intro stage
    cases stage <;> decide
  obtain ⟨hsame, _, _, _, hsources⟩ := ordered_of_additions ⟨schemaTag, []⟩ viewsAround
  refine ⟨h, by decide, (hsame viewsFirst h).2.2 true, hsources.trans ?_⟩
  simp only [sources_some]
  decide

end Script
end SchemaLedger
