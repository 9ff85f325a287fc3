import SchemaLedger.Proofs.Ledger.Apply
import SchemaLedger.Proofs.Script.Recording

/-!
# Recording a tree

A run of the script that records a tree leaves the ledger that a run of the
script that applies the tree would have left.
-/

namespace SchemaLedger
namespace Ledger

open Script (Contents)

/-! ## Running the fragments -/

theorem runFragment_recordedFragment (l : Ledger) (stage : Stage) (file : SqlFile) :
    l.runFragment (Script.recordedFragment stage file) = some (l.recording file.name, true) := by
  refine runFragment_of_applied (l.holds_of_unguarded rfl) ?_
  show l.performAll [.ensureRecorded _, .notice _] = _
  rw [performAll_cons _ (l.perform_ensureRecorded _), performAll_cons _ (perform_notice _ _)]
  rfl

theorem runFragment_recordedObject (l : Ledger) (stage : Stage) (kind : ObjectKind)
    (file : SqlFile) :
    l.runFragment (Script.recordedObject stage kind file) =
      some (l.storing kind file.name file.digest, true) := by
  refine runFragment_of_applied (l.holds_of_unguarded rfl) ?_
  show l.performAll [.upsert _ _ _, .notice _] = _
  rw [performAll_cons _ (l.perform_upsert _ _ _), performAll_cons _ (perform_notice _ _)]
  rfl

theorem run_recordedFragments (l : Ledger) (stage : Stage) (files : List SqlFile) :
    l.run (files.map (Script.recordedFragment stage)) =
      some (l.recordingAll files, files.map (Script.recordedFragment stage)) := by
  have hrun := run_files (fun l file => l.runFragment_recordedFragment stage file) l
    (List.pairwise_of_forall (l := files) fun _ _ _ => rfl)
  rwa [List.filter_true] at hrun

theorem run_recordedObjects (l : Ledger) (stage : Stage) (kind : ObjectKind)
    (files : List SqlFile) :
    l.run (files.map (Script.recordedObject stage kind)) =
      some (l.storingAll kind files, files.map (Script.recordedObject stage kind)) := by
  have hrun := run_files (fun l file => l.runFragment_recordedObject stage kind file) l
    (List.pairwise_of_forall (l := files) fun _ _ _ => rfl)
  rwa [List.filter_true] at hrun

/-- The contents are recorded in the order in which they would be applied. -/
theorem run_recorded (l : Ledger) (c : Contents) :
    l.run (c.recorded.flatMap (·.2)) = some (l.applying c, c.recorded.flatMap (·.2)) := by
  have htables : l.run [Contents.tables] = some (l, [Contents.tables]) :=
    l.run_plain fun f hf => by
      obtain rfl := List.mem_singleton.1 hf
      exact ⟨rfl, ⟨_, rfl⟩, rfl⟩
  exact run_append htables <| run_append (run_recordedFragments _ _ _) <|
    run_append (run_recordedFragments _ _ _) <| run_append (run_recordedObjects _ _ _ _) <|
    run_append (run_recordedObjects _ _ _ _) <| run_append (run_recordedObjects _ _ _ _) rfl

/-! ## Agreement with applying -/

/-- A tree that can be applied can be recorded, without guards.  From every ledger
both runs end in the same one, where nothing with a guard is left to apply.  What
is in the migrations does not matter to the recording. -/
theorem recording_agrees (d : Disk) (root : Path) :
    (∀ s, Script.assemble d root = .ok s →
      ∃ r, Script.assembleRecording d root = .ok r ∧ (∀ f ∈ r.fragments, f.guard = none) ∧
        ∀ before : Ledger, ∃ after applied recorded again,
          before.run s.ordered = some (after, applied) ∧
          before.run r.ordered = some (after, recorded) ∧
          after.run s.ordered = some (after, again) ∧ ∀ f ∈ again, f.guard = none) ∧
    ∀ e : Disk, d.SameButIn e (root.child Layout.migrations) → ∀ r,
      Script.assembleRecording d root = .ok r ↔ Script.assembleRecording e root = .ok r := by
  constructor
  · intro s hs
    obtain ⟨c, hread, rfl⟩ := Contents.exists_of_assemble hs
    refine ⟨_, Contents.assembleRecording_of_readFrom hread, fun f hf => ?_, fun before => ?_⟩
    · obtain ⟨part, hpart, hf⟩ := List.mem_flatMap.1 hf
      exact (c.stage_of_mem_recorded part hpart f hf).2
    · rw [c.ordered_of_fragments rfl, c.ordered_of_recorded rfl]
      obtain ⟨again, hagain, hguards⟩ := before.run_again c
      exact ⟨_, _, _, again, before.run_fragments c, before.run_recorded c, hagain, hguards⟩
  · intro e he r
    refine ⟨Script.assembleRecording_of_sameButIn he, fun hr => ?_⟩
    refine Script.assembleRecording_of_sameButIn ?_ hr
    exact he.symm

theorem recording_agrees_small :
    ∃ s r, Script.assemble ⟨smallTree, []⟩ ⟨.relative, ["db".text]⟩ = .ok s ∧
      Script.assembleRecording ⟨smallTree, []⟩ ⟨.relative, ["db".text]⟩ = .ok r ∧
      (∀ before : Ledger, ∃ after applied recorded, before.run s.ordered = some (after, applied) ∧
        before.run r.ordered = some (after, recorded)) ∧
      Script.assembleRecording ⟨smallTree.overwrite
        ["00000.sql".name, "migrations".name, "db".name] (Utf8.encode "SELECT 3;".text), []⟩
        ⟨.relative, ["db".text]⟩ = .ok r := by
  have hok : (Script.assemble ⟨smallTree, []⟩ ⟨.relative, ["db".text]⟩).toBool = true := by
    decide +kernel
  have hplace : Disk.locate ⟨smallTree, []⟩
      (Path.child ⟨.relative, ["db".text]⟩ Layout.migrations) =
        .ok ["migrations".name, "db".name] := by decide +kernel
  have hfile : smallTree.at? ["00000.sql".name, "migrations".name, "db".name] =
      some (.file (Utf8.encode "SELECT 2;".text)) := by decide +kernel
  have hother : Disk.SameButIn ⟨smallTree, []⟩ ⟨smallTree.overwrite
      ["00000.sql".name, "migrations".name, "db".name] (Utf8.encode "SELECT 3;".text), []⟩
      (Path.child ⟨.relative, ["db".text]⟩ Layout.migrations) := by
    refine ⟨rfl, fun place => ?_⟩
    by_cases h : place = ["00000.sql".name, "migrations".name, "db".name]
    · subst h
      exact .inr ⟨⟨_, _, hplace, rfl⟩, _, _, hfile, Tree.at?_overwrite_self _ hfile⟩
    · exact .inl (Tree.at?_overwrite_of_ne _ h).symm
  have hagrees := recording_agrees ⟨smallTree, []⟩ ⟨.relative, ["db".text]⟩
  cases hs : Script.assemble ⟨smallTree, []⟩ ⟨.relative, ["db".text]⟩ with
  | error e =>
    rw [hs] at hok
    cases hok
  | ok s =>
    obtain ⟨r, hr, _, hruns⟩ := hagrees.1 s hs
    refine ⟨s, r, rfl, hr, fun before => ?_, (hagrees.2 _ hother r).1 hr⟩
    obtain ⟨after, applied, recorded, _, happly, hrecord, _⟩ := hruns before
    exact ⟨after, applied, recorded, happly, hrecord⟩

end Ledger
end SchemaLedger
