import SchemaLedger.Proofs.Artifact.Writing
import SchemaLedger.Proofs.Script.Finish
import SchemaLedger.Proofs.Text.Utf8
import SchemaLedger.Script.Check

/-!
# Checking what was written

A check compares a file, read as text, with a script.  A rendered script has no
line break but the newline, so nothing in it changes on the way to a file and
back, and a check directly after writing finds no drift.
-/

namespace SchemaLedger

namespace Disk

variable {d : Disk} {path : Path} {data : Bytes} {t : Text}

theorem readText_of_read (hread : d.read path = .ok data) (htext : Utf8.decode data = .ok t) :
    d.readText path = .ok (Text.unifyNewlines t) := by
  simp only [readText, hread, htext]

end Disk

namespace Script

variable {path : Path} {generated t : Text} {data : Bytes} {w w' : World}

theorem unifyNewlines_finish (t : Text) (minify : Bool) :
    Text.unifyNewlines (finish t minify) = finish t minify :=
  Text.unifyNewlines_of_notMem fun h =>
    absurd (eq_newline_of_mem_finish (by decide) h) (by decide)

/-- A check of a file that is there compares its text, and reports the drift if
there is one. -/
theorem runIn_check_of_read (hread : w.disk.read path = .ok data)
    (htext : Utf8.decode data = .ok t) : (check path generated).runIn w =
      if Text.unifyNewlines t = generated then (.ok true, w)
      else
        (.ok false, { w with
          complaints := w.complaints ++
            (driftReport path (Text.unifyNewlines t) generated).flatMap (· ++ [.char '\n']) }) := by
  have hpresent : (Act.look fun d => unreported (d.isPresent path)).runIn w = (.ok true, w) := by
    rw [Act.runIn_look, unreported_eq_ok.2 (Disk.isPresent_of_read hread)]
  have hlook : (Act.look fun d => (d.readText path).mapError <|
      Fault.reported fun cause => .file (.unreadable path cause)).runIn w =
        (.ok (Text.unifyNewlines t), w) := by
    rw [Act.runIn_look, Disk.readText_of_read hread htext]
    rfl
  unfold check
  split
  · next hsame =>
    refine Act.bind_eq_ok.2 ⟨true, w, hpresent, Act.bind_eq_ok.2 ⟨_, w, hlook, ?_⟩⟩
    rw [if_pos hsame]
    rfl
  · next hne =>
    refine Act.bind_eq_ok.2 ⟨true, w, hpresent, Act.bind_eq_ok.2 ⟨_, w, hlook, ?_⟩⟩
    rw [if_neg hne]
    exact Act.bind_eq_ok.2 ⟨(), _, Act.runIn_forM_complain _ w, rfl⟩

/-- The answer says whether the texts are the same, and nothing is said when they
are. -/
theorem runIn_check (hread : w.disk.read path = .ok data) (htext : Utf8.decode data = .ok t) :
    ∃ complaints, (check path generated).runIn w =
      (.ok (decide (Text.unifyNewlines t = generated)), { w with complaints }) ∧
        (Text.unifyNewlines t = generated → complaints = w.complaints) := by
  rw [runIn_check_of_read hread htext]
  by_cases hsame : Text.unifyNewlines t = generated
  · rw [if_pos hsame, decide_eq_true hsame]
    exact ⟨w.complaints, rfl, fun _ => rfl⟩
  · rw [if_neg hsame, decide_eq_false hsame]
    exact ⟨_, rfl, fun h => absurd h hsame⟩

/-- Right after a rendered script is written a check of its file finds it up to
date and leaves the world alone.  In general a check answers whether the file, with
its newlines read as one kind, is the generated text. -/
theorem check_of_written :
    (∀ (s : Script) (minify : Bool) (path : Path) (w w' : World),
      (Artifact.writeText path (s.render minify)).runIn w = (.ok (), w') →
        (check path (s.render minify)).runIn w' = (.ok true, w')) ∧
      ∀ (path : Path) (generated t : Text) (data : Bytes) (w : World),
        w.disk.read path = .ok data → Utf8.decode data = .ok t →
          ∃ b w', (check path generated).runIn w = (.ok b, w') ∧
            (b = true ↔ Text.unifyNewlines t = generated) := by
  constructor
  · intro s minify path w w' hwrite
    have hread := Disk.read_eq_ok.2 (Artifact.find_of_writeText hwrite)
    obtain ⟨_, _, _, hplain, _⟩ := Artifact.writeText_ok hwrite
    have hsame : Text.unifyNewlines (s.render minify) = s.render minify :=
      unifyNewlines_finish s.draft minify
    obtain ⟨complaints, hcheck, hquiet⟩ :=
      @runIn_check path (s.render minify) _ _ _ hread (Utf8.decode_encode hplain)
    rw [hcheck, decide_eq_true hsame, hquiet hsame]
  · intro path generated t data w hread htext
    obtain ⟨_, hcheck, _⟩ := runIn_check hread htext
    exact ⟨_, _, hcheck, decide_eq_true_iff⟩

/-- A script whose constant goes over lines that end in several ways. -/
def manyBreaks : Script where
  tag := "pgm".text
  fragments :=
    [{ stage := .views, body := .plain "SELECT 'a\r\nb\u000cc\rd';\r\n".text }]

def compiled : Path := ⟨.relative, ["compiled.sql".text]⟩

def bare : World :=
  { disk := ⟨Tree.empty, []⟩ }

/-- A script with other line breaks inside, and a file that only reads like the
generated text. -/
theorem check_of_written_manyBreaks :
    (∃ w', (Artifact.writeText compiled (manyBreaks.render false)).runIn bare = (.ok (), w') ∧
      (check compiled (manyBreaks.render false)).runIn w' = (.ok true, w')) ∧
    ∃ w', (Artifact.writeText compiled "SELECT 1;\r\n".text).runIn bare = (.ok (), w') ∧
      ∃ w'', (check compiled "SELECT 1;\n".text).runIn w' = (.ok true, w'') := by
  have hwrite : (Artifact.writeText compiled (manyBreaks.render false)).runIn bare =
      (.ok (), ((Artifact.writeText compiled (manyBreaks.render false)).runIn bare).2) :=
    Act.runIn_eq_of_fst (by decide +kernel)
  have hother : (Artifact.writeText compiled "SELECT 1;\r\n".text).runIn bare =
      (.ok (), ((Artifact.writeText compiled "SELECT 1;\r\n".text).runIn bare).2) :=
    Act.runIn_eq_of_fst (by decide +kernel)
  refine ⟨⟨_, hwrite, check_of_written.1 _ _ _ _ _ hwrite⟩, _, hother, ?_⟩
  have hread := Disk.read_eq_ok.2 (Artifact.find_of_writeText hother)
  obtain ⟨b, w'', hcheck, hb⟩ := check_of_written.2 compiled "SELECT 1;\n".text
    "SELECT 1;\r\n".text _ _ hread (Utf8.decode_encode_text _)
  rw [hb.2 rfl] at hcheck
  exact ⟨w'', hcheck⟩

end Script
end SchemaLedger
