import SchemaLedger.Proofs.Diff.Unified
import SchemaLedger.Proofs.Script.Check
import SchemaLedger.Proofs.Script.Drift

/-!
# What a report of drift shows

A check compares texts, and its report compares their lines.  So a report names
or shows a difference exactly when the lines of the texts differ; of texts that
differ in their line breaks only it says no more than that there is a drift.
-/

namespace SchemaLedger
namespace Script

variable {path : Path} {existing generated t : Text} {data : Bytes} {w : World}

/-- The lines of a report that name the artifacts that differ. -/
def sourceLines (existing generated : Text) : List Text :=
  (drift existing generated).map fun (drift, source) =>
    "[check] ".text ++ drift.name ++ ": ".text ++ source

/-- The lines of a report that show the difference. -/
def differenceLines (path : Path) (existing generated : Text) : List Text :=
  shortened (Diff.unified path.text ("generated:".text ++ path.text)
    (Text.lines existing) (Text.lines generated))

theorem driftReport_eq : driftReport path existing generated =
    ("[check] drift detected: ".text ++ path.text) ::
      (sourceLines existing generated ++ differenceLines path existing generated) := rfl

theorem shortened_eq_nil_iff {lines : List Text} : shortened lines = [] ↔ lines = [] := by
  unfold shortened
  split
  · next hlong =>
    refine iff_of_false (List.append_ne_nil_of_right_ne_nil _ (List.cons_ne_nil _ _)) ?_
    rintro rfl
    exact absurd hlong (by decide)
  · exact Iff.rfl

theorem differenceLines_eq_nil_iff :
    differenceLines path existing generated = [] ↔ Text.lines existing = Text.lines generated := by
  rw [differenceLines, shortened_eq_nil_iff, Diff.unified_eq_nil_iff]

/-- Scripts with the same lines have the same blocks. -/
theorem sourceLines_eq_nil (h : Text.lines existing = Text.lines generated) :
    sourceLines existing generated = [] := by
  have hblocks : blocks existing = blocks generated := by
    unfold blocks
    rw [h]
  rw [sourceLines, drift_eq_nil_iff.2 fun source => by rw [hblocks], List.map_nil]

theorem reported_eq_nil_iff :
    sourceLines existing generated ++ differenceLines path existing generated = [] ↔
      Text.lines existing = Text.lines generated := by
  rw [List.append_eq_nil_iff, differenceLines_eq_nil_iff]
  exact and_iff_right_of_imp sourceLines_eq_nil

/-- A check of a file answers whether its text is the generated one.  If it is
not, the drift is reported, with an artifact that differs or a difference to show
exactly when the lines of the two are not the same. -/
theorem check_shows_drift (hread : w.disk.read path = .ok data)
    (htext : Utf8.decode data = .ok t) :
    ∃ w', (check path generated).runIn w =
        (.ok (decide (Text.unifyNewlines t = generated)), w') ∧
      (Text.unifyNewlines t ≠ generated →
        w' = { w with
          complaints :=
            w.complaints ++ "[check] drift detected: ".text ++ path.text ++ [.char '\n'] ++
            (sourceLines (Text.unifyNewlines t) generated ++
              differenceLines path (Text.unifyNewlines t) generated).flatMap (· ++ [.char '\n']) } ∧
        (sourceLines (Text.unifyNewlines t) generated ++
            differenceLines path (Text.unifyNewlines t) generated ≠ [] ↔
          Text.lines (Text.unifyNewlines t) ≠ Text.lines generated)) := by
  rw [runIn_check_of_read hread htext]
  by_cases hsame : Text.unifyNewlines t = generated
  · rw [if_pos hsame, decide_eq_true hsame]
    exact ⟨w, rfl, fun hne => absurd hsame hne⟩
  · rw [if_neg hsame, decide_eq_false hsame]
    refine ⟨_, rfl, fun _ => ⟨?_, not_congr reported_eq_nil_iff⟩⟩
    rw [driftReport_eq, List.flatMap_cons]
    simp only [List.append_assoc]

/-- The working folder with a script in it that was compiled before. -/
def compiledAs (content : Text) : World :=
  ((Artifact.writeText compiled content).runIn bare).2

theorem read_compiledAs (content : String) :
    (compiledAs content.text).disk.read compiled = .ok (Utf8.encode content.text) := by
  have hfolders : bare.disk.ensureFolders compiled.parent = (.ok (), bare.disk) := by
    have hfolder : bare.disk.isFolder compiled.parent = .ok true := by decide +kernel
    exact Disk.ensureFolders_of_isFolder hfolder
  have hwritable : ∀ data, ∃ e, bare.disk.write compiled data = .ok e := fun data => ⟨_, rfl⟩
  obtain ⟨e, he⟩ := hwritable (Utf8.encode content.text)
  have hwrite : (Artifact.writeText compiled content.text).runIn bare =
      (.ok (), compiledAs content.text) := Act.runIn_eq_of_fst <| by
    rw [Artifact.runIn_writeText_of_write hfolders (Text.plain_text content) he]
  exact Disk.read_eq_ok.2 (Artifact.find_of_writeText hwrite)

/-- The difference of a line and another in its place. -/
theorem edits_select : Diff.edits ["SELECT 1;".text] ["SELECT 2;".text] =
    [.change ["SELECT 1;".text] ["SELECT 2;".text]] :=
  Diff.editsBefore_of_nothing (by decide)

theorem check_shows_drift_select :
    ∃ w', (check compiled "SELECT 2;\n".text).runIn (compiledAs "SELECT 1;\n".text) =
        (.ok false, w') ∧
      w'.complaints =
        ("[check] drift detected: compiled.sql\n--- compiled.sql\n+++ generated:compiled.sql\n" ++
          "@@ -1 +1 @@\n-SELECT 1;\n+SELECT 2;\n").text := by
  obtain ⟨w', hrun, hreport⟩ := @check_shows_drift compiled "SELECT 2;\n".text _ _ _
    (read_compiledAs "SELECT 1;\n") (Utf8.decode_encode_text _)
  have hne : Text.unifyNewlines "SELECT 1;\n".text ≠ "SELECT 2;\n".text := by decide
  obtain ⟨rfl, _⟩ := hreport hne
  refine ⟨_, by rwa [decide_eq_false hne] at hrun, ?_⟩
  have hlines : Text.lines (Text.unifyNewlines "SELECT 1;\n".text) = ["SELECT 1;".text] := by
    decide
  have hlines' : Text.lines "SELECT 2;\n".text = ["SELECT 2;".text] := by decide
  have hsources : sourceLines (Text.unifyNewlines "SELECT 1;\n".text) "SELECT 2;\n".text =
      [] := by
    decide +kernel
  rw [hsources, differenceLines, hlines, hlines', Diff.unified, edits_select]
  decide +kernel

/-- The last line of a file lacks its newline: that is a drift of which nothing is
shown. -/
theorem check_shows_nothing :
    ∃ w', (check compiled "SELECT 1;\n".text).runIn (compiledAs "SELECT 1;".text) =
        (.ok false, w') ∧ w'.complaints = "[check] drift detected: compiled.sql\n".text := by
  have hne : Text.unifyNewlines "SELECT 1;".text ≠ "SELECT 1;\n".text := by decide
  have hlines : Text.lines (Text.unifyNewlines "SELECT 1;".text) =
      Text.lines "SELECT 1;\n".text := by
    decide
  rw [runIn_check_of_read (read_compiledAs _) (Utf8.decode_encode_text _), if_neg hne]
  refine ⟨_, rfl, ?_⟩
  rw [driftReport_eq, reported_eq_nil_iff.2 hlines]
  decide +kernel

end Script
end SchemaLedger
