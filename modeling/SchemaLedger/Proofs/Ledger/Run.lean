import SchemaLedger.Proofs.Ledger.Basic
import SchemaLedger.Script.Assemble

/-!
# Running fragments

The database runs fragments one after the other.  A fragment whose guard holds
is applied: its body runs and then the commands behind it; any other fragment
runs the commands that it has for that case.
-/

namespace SchemaLedger
namespace Ledger

/-- The SQL of an artifact raises no error and leaves the tables alone; every
other command is read from its SQL. -/
def perform (l : Ledger) : Sql.Command → Option Ledger
  | .plain _ => some l
  | command => (Change.ofSql? command.sql).bind l.change

def performAll (l : Ledger) : List Sql.Command → Option Ledger
  | [] => some l
  | command :: rest => (l.perform command).bind fun after => after.performAll rest

/-- Whether a fragment is applied. -/
def holds (l : Ledger) (f : Fragment) : Option Bool :=
  match f.condition with
  | none => some true
  | some sql => (Question.ofSql? sql).map l.answer

/-- The ledger behind a fragment, and whether the fragment was applied. -/
def runFragment (l : Ledger) (f : Fragment) : Option (Ledger × Bool) :=
  (l.holds f).bind fun applied =>
    (l.performAll (if applied then f.body :: f.onApply else f.onSkip)).map (·, applied)

/-- The ledger behind fragments, and those of them that were applied. -/
def run (l : Ledger) : List Fragment → Option (Ledger × List Fragment)
  | [] => some (l, [])
  | f :: rest =>
    (l.runFragment f).bind fun (after, applied) =>
      (after.run rest).map fun (last, others) => (last, if applied then f :: others else others)

/-! ## Commands -/

theorem perform_record {l : Ledger} {migration : Text} (h : l.migrations migration = false) :
    l.perform (.record migration) = some (l.recording migration) := by
  rw [perform, Change.ofSql?_record]
  · exact if_neg (ne_true_of_eq_false h)
  · nofun

theorem perform_ensureRecorded (l : Ledger) (migration : Text) :
    l.perform (.ensureRecorded migration) = some (l.recording migration) := by
  rw [perform, Change.ofSql?_ensureRecorded]
  · rfl
  · nofun

theorem perform_upsert (l : Ledger) (kind : ObjectKind) (name digest : Text) :
    l.perform (.upsert kind.table name digest) = some (l.storing kind name digest) := by
  rw [perform, Change.ofSql?_upsert]
  · rfl
  · nofun

theorem perform_notice (l : Ledger) (message : Text) : l.perform (.notice message) = some l := by
  rw [perform, Change.ofSql?_notice]
  · rfl
  · nofun

theorem performAll_cons {l after : Ledger} {command : Sql.Command} (rest : List Sql.Command)
    (h : l.perform command = some after) :
    l.performAll (command :: rest) = after.performAll rest := by
  rw [performAll, h]
  rfl

/-! ## Fragments -/

theorem runFragment_of_applied {l after : Ledger} {f : Fragment} (hholds : l.holds f = some true)
    (h : l.performAll (f.body :: f.onApply) = some after) :
    l.runFragment f = some (after, true) := by
  simp only [runFragment, hholds, Option.bind_some, if_true, h, Option.map_some]

theorem runFragment_of_skipped {l after : Ledger} {f : Fragment} (hholds : l.holds f = some false)
    (h : l.performAll f.onSkip = some after) : l.runFragment f = some (after, false) := by
  simp only [runFragment, hholds, Option.bind_some, Bool.false_eq_true, if_false, h,
    Option.map_some]

theorem holds_of_unguarded (l : Ledger) {f : Fragment} (h : f.guard = none) :
    l.holds f = some true := by
  rw [holds, Fragment.condition, h]
  rfl

theorem holds_of_guard (l : Ledger) {f : Fragment} {guard : Sql.Guard} {q : Question}
    (hguard : f.guard = some guard) (hq : Question.ofSql? guard.sql = some q) :
    l.holds f = some (l.answer q) := by
  have hne : guard.sql ≠ [] := by
    intro hnil
    have hempty : Question.ofSql? [] = none := by decide
    rw [hnil, hempty] at hq
    cases hq
  have hcondition : f.condition = some guard.sql := by
    rw [Fragment.condition, hguard, Option.map_some, Fragment.given, Option.filter_some,
      if_pos (by simpa using hne)]
  simp only [holds, hcondition, hq, Option.map_some]

theorem holds_migrationFragment (l : Ledger) (stage : Stage) (file : SqlFile) :
    l.holds (Script.migrationFragment stage file) = some (l.answer (.unrecorded file.name)) :=
  l.holds_of_guard rfl (Question.ofSql?_unrecorded file.name)

theorem holds_objectFragment (l : Ledger) (stage : Stage) (kind : ObjectKind) (label : Text)
    (records : Bool) (file : SqlFile) :
    l.holds (Script.objectFragment stage kind.table label records file) =
      some (l.answer (.outdated kind file.name file.digest)) :=
  l.holds_of_guard rfl (Question.ofSql?_outdated kind file.name file.digest)

/-- Recorded or not, the migration is recorded afterwards. -/
theorem runFragment_migration (l : Ledger) (stage : Stage) (file : SqlFile) :
    l.runFragment (Script.migrationFragment stage file) =
      some (l.recording file.name, l.answer (.unrecorded file.name)) := by
  have hholds := l.holds_migrationFragment stage file
  cases hrecorded : l.migrations file.name with
  | true =>
    have hanswer : l.answer (.unrecorded file.name) = false := by simp [answer, hrecorded]
    rw [hanswer] at hholds ⊢
    refine runFragment_of_skipped hholds ?_
    rw [recording_of_recorded hrecorded]
    exact performAll_cons [] (l.perform_notice _)
  | false =>
    have hanswer : l.answer (.unrecorded file.name) = true := by simp [answer, hrecorded]
    rw [hanswer] at hholds ⊢
    refine runFragment_of_applied hholds ?_
    show l.performAll [.plain _, .record _, .notice _] = _
    rw [performAll_cons _ rfl, performAll_cons _ (perform_record hrecorded),
      performAll_cons _ (perform_notice _ _)]
    rfl

/-- In the first pass an object leaves the ledger alone. -/
theorem runFragment_unchecked (l : Ledger) (stage : Stage) (kind : ObjectKind) (label : Text)
    (file : SqlFile) :
    l.runFragment (Script.objectFragment stage kind.table label false file) =
      some (l, l.answer (.outdated kind file.name file.digest)) := by
  have hholds := l.holds_objectFragment stage kind label false file
  cases hanswer : l.answer (.outdated kind file.name file.digest) with
  | true =>
    rw [hanswer] at hholds
    exact runFragment_of_applied hholds rfl
  | false =>
    rw [hanswer] at hholds
    exact runFragment_of_skipped hholds rfl

/-- In the last pass the digest of an object is stored, or it was there. -/
theorem runFragment_checked (l : Ledger) (stage : Stage) (kind : ObjectKind) (label : Text)
    (file : SqlFile) :
    l.runFragment (Script.objectFragment stage kind.table label true file) =
      some (l.storing kind file.name file.digest,
        l.answer (.outdated kind file.name file.digest)) := by
  have hholds := l.holds_objectFragment stage kind label true file
  cases hanswer : l.answer (.outdated kind file.name file.digest) with
  | true =>
    rw [hanswer] at hholds
    refine runFragment_of_applied hholds ?_
    show l.performAll [.plain _, .upsert _ _ _, .notice _] = _
    rw [performAll_cons _ rfl, performAll_cons _ (perform_upsert _ _ _ _),
      performAll_cons _ (perform_notice _ _)]
    rfl
  | false =>
    rw [hanswer] at hholds
    have hstored : l.digests kind file.name = some file.digest := by simpa [answer] using hanswer
    refine runFragment_of_skipped hholds ?_
    rw [storing_of_stored hstored]
    exact performAll_cons [] (l.perform_notice _)

/-! ## Fragments one after the other -/

theorem run_cons {l middle last : Ledger} {f : Fragment} {applied : Bool}
    {rest others : List Fragment} (hf : l.runFragment f = some (middle, applied))
    (hrest : middle.run rest = some (last, others)) :
    l.run (f :: rest) = some (last, if applied then f :: others else others) := by
  rw [run, hf, Option.bind_some]
  show (middle.run rest).map _ = _
  rw [hrest]
  rfl

theorem run_append {l middle last : Ledger} {fs gs first second : List Fragment}
    (hfs : l.run fs = some (middle, first)) (hgs : middle.run gs = some (last, second)) :
    l.run (fs ++ gs) = some (last, first ++ second) := by
  induction fs generalizing l first with
  | nil =>
    cases hfs
    exact hgs
  | cons f rest ih =>
    rw [run] at hfs
    obtain ⟨⟨next, applied⟩, hf, hmap⟩ := Option.bind_eq_some_iff.1 hfs
    obtain ⟨⟨after, others⟩, hrest, hpair⟩ := Option.map_eq_some_iff.1 hmap
    cases hpair
    rw [List.cons_append, run_cons hf (ih hrest)]
    cases applied <;> rfl

/-- Only unguarded SQL of its own. -/
theorem run_plain (l : Ledger) {fs : List Fragment}
    (h : ∀ f ∈ fs, f.guard = none ∧ (∃ sql, f.body = .plain sql) ∧ f.onApply = []) :
    l.run fs = some (l, fs) := by
  induction fs with
  | nil => rfl
  | cons f rest ih =>
    obtain ⟨hguard, ⟨sql, hbody⟩, honApply⟩ := h f List.mem_cons_self
    have hf : l.runFragment f = some (l, true) := by
      refine runFragment_of_applied (l.holds_of_unguarded hguard) ?_
      rw [hbody, honApply]
      rfl
    rw [run_cons hf (ih fun g hg => h g (List.mem_cons_of_mem _ hg)), if_pos rfl]

section Files

/-- The fragments of files that do not change each other's guards run where the
guards hold at the start. -/
theorem run_files {fragment : SqlFile → Fragment} {next : Ledger → SqlFile → Ledger}
    {due : Ledger → SqlFile → Bool}
    (hfragment : ∀ l file, l.runFragment (fragment file) = some (next l file, due l file))
    (l : Ledger) {files : List SqlFile}
    (hkeeps : files.Pairwise fun file other => ∀ l, due (next l file) other = due l other) :
    l.run (files.map fragment) =
      some (files.foldl next l, (files.filter (due l)).map fragment) := by
  induction files generalizing l with
  | nil => rfl
  | cons file rest ih =>
    obtain ⟨hfile, hrest⟩ := List.pairwise_cons.1 hkeeps
    have hsame : rest.filter (due (next l file)) = rest.filter (due l) :=
      List.filter_congr fun other hother => hfile other hother l
    have hrun := run_cons (hfragment l file) (ih (next l file) hrest)
    rw [hsame] at hrun
    rw [List.map_cons, hrun, List.filter_cons, List.foldl_cons]
    cases due l file <;> rfl

/-- The ledger with all of the migrations recorded. -/
def recordingAll (l : Ledger) (files : List SqlFile) : Ledger :=
  files.foldl (fun l file => l.recording file.name) l

def storingAll (l : Ledger) (kind : ObjectKind) (files : List SqlFile) : Ledger :=
  files.foldl (fun l file => l.storing kind file.name file.digest) l

variable (l : Ledger) (stage : Stage) (kind : ObjectKind) (label : Text)

/-- Migrations of different names run where they are not recorded. -/
theorem run_migrations {files : List SqlFile} (hnodup : (files.map SqlFile.name).Nodup) :
    l.run (files.map (Script.migrationFragment stage)) =
      some (l.recordingAll files,
        (files.filter fun file => l.answer (.unrecorded file.name)).map
          (Script.migrationFragment stage)) :=
  run_files (fun l file => l.runFragment_migration stage file) l <|
    (List.pairwise_map.1 hnodup).imp fun hne l => answer_unrecorded_recording hne.symm l

/-- Objects in the first pass run where they are outdated and stay so. -/
theorem run_unchecked (files : List SqlFile) :
    l.run (files.map (Script.objectFragment stage kind.table label false)) =
      some (l, (files.filter fun file => l.answer (.outdated kind file.name file.digest)).map
        (Script.objectFragment stage kind.table label false)) := by
  have hrun := run_files (fun l file => l.runFragment_unchecked stage kind label file) l
    (List.pairwise_of_forall (l := files) fun _ _ _ => rfl)
  rwa [List.foldl_fixed] at hrun

/-- Objects of different names run in the last pass where they are outdated. -/
theorem run_checked {files : List SqlFile} (hnodup : (files.map SqlFile.name).Nodup) :
    l.run (files.map (Script.objectFragment stage kind.table label true)) =
      some (l.storingAll kind files,
        (files.filter fun file => l.answer (.outdated kind file.name file.digest)).map
          (Script.objectFragment stage kind.table label true)) :=
  run_files (fun l file => l.runFragment_checked stage kind label file) l <|
    (List.pairwise_map.1 hnodup).imp fun hne l =>
      answer_outdated_storing hne.symm l kind _ _

end Files

end Ledger
end SchemaLedger
