import SchemaLedger.Proofs.Ledger.Run
import SchemaLedger.Proofs.Script.Contents

/-!
# Applying a tree

A run of the script of a tree applies what the ledger does not have yet, in both
passes alike, and records all of it, so that a second run has nothing to do.
-/

namespace SchemaLedger
namespace Ledger

open Script (Contents)

/-! ## Entries of several files -/

theorem recordingAll_cons (l : Ledger) (file : SqlFile) (rest : List SqlFile) :
    l.recordingAll (file :: rest) = (l.recording file.name).recordingAll rest := rfl

theorem storingAll_cons (l : Ledger) (kind : ObjectKind) (file : SqlFile) (rest : List SqlFile) :
    l.storingAll kind (file :: rest) =
      (l.storing kind file.name file.digest).storingAll kind rest := rfl

theorem digests_recordingAll (l : Ledger) (files : List SqlFile) :
    (l.recordingAll files).digests = l.digests := by
  induction files generalizing l with
  | nil => rfl
  | cons file rest ih => exact ih (l.recording file.name)

theorem migrations_storingAll (l : Ledger) (kind : ObjectKind) (files : List SqlFile) :
    (l.storingAll kind files).migrations = l.migrations := by
  induction files generalizing l with
  | nil => rfl
  | cons file rest ih => exact ih (l.storing kind file.name file.digest)

theorem migrations_recordingAll (l : Ledger) (files : List SqlFile) (name : Text) :
    (l.recordingAll files).migrations name =
      (decide (name ∈ files.map SqlFile.name) || l.migrations name) := by
  induction files generalizing l with
  | nil => simp [recordingAll]
  | cons file rest ih =>
    rw [recordingAll_cons, ih]
    show (decide (name ∈ rest.map SqlFile.name) || (name == file.name || l.migrations name)) = _
    rw [← Bool.or_assoc]
    congr 1
    simp only [List.map_cons, List.mem_cons, Bool.decide_or, beq_eq_decide]
    exact Bool.or_comm _ _

theorem digests_storingAll_of_ne {kind other : ObjectKind} (h : other ≠ kind)
    (files : List SqlFile) (l : Ledger) :
    (l.storingAll kind files).digests other = l.digests other := by
  induction files generalizing l with
  | nil => rfl
  | cons file rest ih =>
    rw [storingAll_cons, ih]
    exact funext fun name => if_neg fun hentry => h hentry.1

/-- The entries of a kind depend on no other entries. -/
theorem digests_storingAll_congr {l m : Ledger} {kind : ObjectKind}
    (h : l.digests kind = m.digests kind) (files : List SqlFile) :
    (l.storingAll kind files).digests kind = (m.storingAll kind files).digests kind := by
  induction files generalizing l m with
  | nil => exact h
  | cons file rest ih =>
    refine ih (funext fun name => ?_)
    show (if _ then _ else l.digests kind name) = if _ then _ else m.digests kind name
    rw [h]

theorem digests_storingAll_of_notMem {kind : ObjectKind} {files : List SqlFile} {name : Text}
    (h : name ∉ files.map SqlFile.name) (l : Ledger) :
    (l.storingAll kind files).digests kind name = l.digests kind name := by
  induction files generalizing l with
  | nil => rfl
  | cons file rest ih =>
    obtain ⟨hne, hrest⟩ := not_or.1 (List.mem_cons.not.1 h)
    rw [storingAll_cons, ih hrest]
    exact if_neg fun hentry => hne hentry.2

theorem digests_storingAll_of_mem {kind : ObjectKind} {files : List SqlFile} {file : SqlFile}
    (hnodup : (files.map SqlFile.name).Nodup) (h : file ∈ files) (l : Ledger) :
    (l.storingAll kind files).digests kind file.name = some file.digest := by
  induction files generalizing l with
  | nil => cases h
  | cons first rest ih =>
    obtain ⟨hfresh, hrest⟩ := List.nodup_cons.1 hnodup
    rw [storingAll_cons]
    rcases List.mem_cons.1 h with rfl | hmem
    · rw [digests_storingAll_of_notMem hfresh]
      exact if_pos ⟨rfl, rfl⟩
    · exact ih hrest hmem _

/-! ## Applying contents -/

/-- What of the contents a ledger does not have, or not as it is now. -/
def due (l : Ledger) (c : Contents) : Contents where
  bootstrap := c.bootstrap.filter fun file => l.answer (.unrecorded file.name)
  migrations := c.migrations.filter fun file => l.answer (.unrecorded file.name)
  objects kind := (c.objects kind).filter fun file =>
    l.answer (.outdated kind file.name file.digest)
  migrations_nodup := by
    rw [Option.toList_filter]
    exact c.migrations_nodup.sublist
      ((List.filter_sublist.append List.filter_sublist).map SqlFile.name)
  objects_nodup kind := (c.objects_nodup kind).sublist (List.filter_sublist.map SqlFile.name)

/-- The ledger with all of the contents. -/
def applying (l : Ledger) (c : Contents) : Ledger :=
  ((((l.recordingAll c.bootstrap.toList).recordingAll c.migrations).storingAll .view
    (c.objects .view)).storingAll .function (c.objects .function)).storingAll .trigger
      (c.objects .trigger)

theorem migrations_applying (l : Ledger) (c : Contents) (name : Text) :
    (l.applying c).migrations name =
      (decide (name ∈ (c.bootstrap.toList ++ c.migrations).map SqlFile.name) ||
        l.migrations name) := by
  rw [applying, migrations_storingAll, migrations_storingAll, migrations_storingAll,
    migrations_recordingAll, migrations_recordingAll, ← Bool.or_assoc, List.map_append]
  congr 1
  rw [← Bool.decide_or]
  simp only [List.mem_append, or_comm]

theorem digests_applying (l : Ledger) (c : Contents) (kind : ObjectKind) :
    (l.applying c).digests kind = (l.storingAll kind (c.objects kind)).digests kind := by
  have hviewTrigger : ObjectKind.view ≠ .trigger := nofun
  have hviewFunction : ObjectKind.view ≠ .function := nofun
  have hfunctionTrigger : ObjectKind.function ≠ .trigger := nofun
  unfold applying
  cases kind with
  | view =>
    rw [digests_storingAll_of_ne hviewTrigger, digests_storingAll_of_ne hviewFunction]
    refine digests_storingAll_congr ?_ _
    rw [digests_recordingAll, digests_recordingAll]
  | function =>
    rw [digests_storingAll_of_ne hfunctionTrigger]
    refine digests_storingAll_congr ?_ _
    rw [digests_storingAll_of_ne hviewFunction.symm, digests_recordingAll, digests_recordingAll]
  | trigger =>
    refine digests_storingAll_congr ?_ _
    rw [digests_storingAll_of_ne hfunctionTrigger.symm, digests_storingAll_of_ne hviewTrigger.symm,
      digests_recordingAll, digests_recordingAll]

/-! ## Running the script -/

theorem answer_unrecorded_congr {l m : Ledger} {name : Text}
    (h : l.migrations name = m.migrations name) :
    l.answer (.unrecorded name) = m.answer (.unrecorded name) := by
  rw [answer, answer, h]

theorem answer_outdated_congr {l m : Ledger} {kind : ObjectKind}
    (h : l.digests kind = m.digests kind) (name digest : Text) :
    l.answer (.outdated kind name digest) = m.answer (.outdated kind name digest) := by
  rw [answer, answer, h]

/-- A pass over the objects of a kind asks for nothing but the digests of that
kind. -/
theorem run_pass_unchecked {l m : Ledger} {kind : ObjectKind} (c : Contents) (stage : Stage)
    (h : m.digests kind = l.digests kind) :
    m.run (c.pass kind false stage) = some (m, (l.due c).pass kind false stage) := by
  rw [Contents.pass, run_unchecked, List.filter_congr fun file _ => answer_outdated_congr h _ _]
  rfl

theorem run_pass_checked {l m : Ledger} {kind : ObjectKind} (c : Contents) (stage : Stage)
    (h : m.digests kind = l.digests kind) :
    m.run (c.pass kind true stage) =
      some (m.storingAll kind (c.objects kind), (l.due c).pass kind true stage) := by
  rw [Contents.pass, run_checked _ _ _ _ (c.objects_nodup kind),
    List.filter_congr fun file _ => answer_outdated_congr h _ _]
  rfl

/-- A run applies exactly what is due when it starts. -/
theorem run_fragments (l : Ledger) (c : Contents) :
    l.run c.fragments = some (l.applying c, (l.due c).fragments) := by
  have hnodup := c.migrations_nodup
  rw [List.map_append, List.nodup_append] at hnodup
  obtain ⟨hbootstrapNodup, hmigrationsNodup, hdisjoint⟩ := hnodup
  have hbootstrap := l.run_migrations .bootstrap hbootstrapNodup
  rw [← Option.toList_filter] at hbootstrap
  let afterBootstrap := l.recordingAll c.bootstrap.toList
  have hmigrations := afterBootstrap.run_migrations .migrations hmigrationsNodup
  have hsame : ∀ file ∈ c.migrations, afterBootstrap.answer (.unrecorded file.name) =
      l.answer (.unrecorded file.name) := by
    intro file hfile
    refine answer_unrecorded_congr ?_
    have hnotMem : file.name ∉ c.bootstrap.toList.map SqlFile.name := fun h =>
      hdisjoint _ h _ (List.mem_map_of_mem hfile) rfl
    rw [migrations_recordingAll, decide_eq_false hnotMem, Bool.false_or]
  rw [List.filter_congr hsame] at hmigrations
  have hdigests : afterBootstrap.digests = l.digests := digests_recordingAll l _
  let afterMigrations := afterBootstrap.recordingAll c.migrations
  have hdigestsMigrations : afterMigrations.digests = l.digests :=
    (digests_recordingAll _ _).trans hdigests
  let afterViews := afterMigrations.storingAll .view (c.objects .view)
  let afterFunctions := afterViews.storingAll .function (c.objects .function)
  have hviews : ∀ kind, kind ≠ .view → afterViews.digests kind = l.digests kind := fun kind hne =>
    (digests_storingAll_of_ne hne _ _).trans (congrFun hdigestsMigrations kind)
  have htriggers : afterFunctions.digests .trigger = l.digests .trigger := by
    have hne : ObjectKind.trigger ≠ .function := nofun
    exact (digests_storingAll_of_ne hne _ _).trans (hviews _ nofun)
  have hplain : ∀ (m : Ledger) (f : Fragment), f.guard = none → (∃ sql, f.body = .plain sql) →
      f.onApply = [] → m.run [f] = some (m, [f]) := fun m f hguard hbody honApply =>
    m.run_plain fun g hg => by
      obtain rfl := List.mem_singleton.1 hg
      exact ⟨hguard, hbody, honApply⟩
  exact run_append (hplain _ _ rfl ⟨_, rfl⟩ rfl) <| run_append (hplain _ _ rfl ⟨_, rfl⟩ rfl) <|
    run_append hbootstrap <| run_append (run_pass_unchecked c _ (congrFun hdigests _)) <|
    run_append (run_pass_unchecked c _ (congrFun hdigests _)) <| run_append hmigrations <|
    run_append (run_pass_checked c _ (congrFun hdigestsMigrations _)) <|
    run_append (hplain _ _ rfl ⟨_, rfl⟩ rfl) <|
      run_append (run_pass_checked c _ (hviews _ nofun)) <|
    run_append (run_pass_checked c _ htriggers) rfl

/-! ## What was applied -/

theorem filter_map_migrationFragment (l : Ledger) (stage : Stage) (files : List SqlFile) :
    (files.map (Script.migrationFragment stage)).filter (fun f => l.holds f = some true) =
      (files.filter fun file => l.answer (.unrecorded file.name)).map
        (Script.migrationFragment stage) := by
  rw [List.filter_map]
  refine congrArg _ (List.filter_congr fun file _ => ?_)
  simp only [Function.comp_apply, holds_migrationFragment, Option.some.injEq, Bool.decide_eq_true]

theorem filter_pass (l : Ledger) (c : Contents) (kind : ObjectKind) (records : Bool)
    (stage : Stage) :
    (c.pass kind records stage).filter (fun f => l.holds f = some true) =
      (l.due c).pass kind records stage := by
  rw [Contents.pass, List.filter_map]
  refine congrArg _ (List.filter_congr fun file _ => ?_)
  simp only [Function.comp_apply, holds_objectFragment, Option.some.injEq, Bool.decide_eq_true]

/-- The guards decide as they stand when the run starts, in whatever pass. -/
theorem fragments_due (l : Ledger) (c : Contents) :
    (l.due c).fragments = c.fragments.filter fun f => l.holds f = some true := by
  have hplain : ∀ f : Fragment, f.guard = none →
      [f].filter (fun f => l.holds f = some true) = [f] := fun f hf => by
    rw [List.filter_eq_self]
    intro g hg
    obtain rfl := List.mem_singleton.1 hg
    exact decide_eq_true (l.holds_of_unguarded hf)
  simp only [Contents.fragments, Contents.parts, List.flatMap_cons, List.flatMap_nil,
    List.filter_append, filter_map_migrationFragment, filter_pass, hplain Contents.opening rfl,
    hplain Contents.tables rfl, hplain Contents.check rfl, List.filter_nil]
  rw [← Option.toList_filter]
  rfl

/-- The stages that take in the objects of a kind, and which of them record. -/
def passes : ObjectKind → List (Bool × Stage)
  | .function => [(false, .functionsUnchecked), (true, .functionsChecked)]
  | .trigger => [(false, .triggersUnchecked), (true, .triggersChecked)]
  | .view => [(true, .views)]

/-- The fragments of an object, one for each pass over its kind. -/
def fragmentsOf (kind : ObjectKind) (file : SqlFile) : List Fragment :=
  (passes kind).map fun (records, stage) =>
    Script.objectFragment stage kind.table kind.folder records file

/-- What a run of the fragments of the contents applied, and the ledger it left
behind. -/
structure Applied (c : Contents) (fragments : List Fragment) (before after : Ledger)
    (applied : List Fragment) : Prop where
  guards : applied = fragments.filter fun f => before.holds f = some true
  bootstrap : ∀ file, c.bootstrap = some file →
    (Script.migrationFragment .bootstrap file ∈ applied ↔ before.migrations file.name = false)
  migrations : ∀ file ∈ c.migrations,
    (Script.migrationFragment .migrations file ∈ applied ↔ before.migrations file.name = false)
  objects : ∀ kind, ∀ file ∈ c.objects kind, ∀ f ∈ fragmentsOf kind file,
    (f ∈ applied ↔ before.digests kind file.name ≠ some file.digest)
  recorded : ∀ name, after.migrations name = true ↔
    name ∈ (c.bootstrap.toList ++ c.migrations).map SqlFile.name ∨ before.migrations name = true
  stored : ∀ kind, ∀ file ∈ c.objects kind, after.digests kind file.name = some file.digest
  kept : ∀ kind name, name ∉ (c.objects kind).map SqlFile.name →
    after.digests kind name = before.digests kind name

theorem mem_parts_of_mem_passes (c : Contents) (kind : ObjectKind) :
    ∀ pass ∈ passes kind, (pass.2, c.pass kind pass.1 pass.2) ∈ c.parts := by
  cases kind <;> simp [passes, Contents.parts]

theorem mem_fragments_of_bootstrap {c : Contents} {file : SqlFile} (h : c.bootstrap = some file) :
    Script.migrationFragment .bootstrap file ∈ c.fragments :=
  List.mem_flatMap.2 ⟨(.bootstrap, c.bootstrap.toList.map (Script.migrationFragment .bootstrap)),
    by simp [Contents.parts], by simp [h]⟩

theorem mem_fragments_of_migrations {c : Contents} {file : SqlFile} (h : file ∈ c.migrations) :
    Script.migrationFragment .migrations file ∈ c.fragments :=
  List.mem_flatMap.2 ⟨(.migrations, c.migrations.map (Script.migrationFragment .migrations)),
    by simp [Contents.parts], List.mem_map_of_mem h⟩

theorem mem_fragments_of_fragmentsOf {c : Contents} {kind : ObjectKind} {file : SqlFile}
    (hfile : file ∈ c.objects kind) {f : Fragment} (hf : f ∈ fragmentsOf kind file) :
    f ∈ c.fragments := by
  obtain ⟨⟨records, stage⟩, hpass, rfl⟩ := List.mem_map.1 hf
  exact List.mem_flatMap.2 ⟨_, mem_parts_of_mem_passes c kind _ hpass, List.mem_map_of_mem hfile⟩

theorem holds_of_fragmentsOf {kind : ObjectKind} {file : SqlFile} {f : Fragment}
    (hf : f ∈ fragmentsOf kind file) (l : Ledger) :
    l.holds f = some (l.answer (.outdated kind file.name file.digest)) := by
  obtain ⟨⟨records, stage⟩, _, rfl⟩ := List.mem_map.1 hf
  exact l.holds_objectFragment stage kind kind.folder records file

theorem applied_due (l : Ledger) (c : Contents) :
    Applied c c.fragments l (l.applying c) (l.due c).fragments where
  guards := l.fragments_due c
  bootstrap file hfile := by
    rw [fragments_due, List.mem_filter]
    simp [mem_fragments_of_bootstrap hfile, holds_migrationFragment, answer]
  migrations file hfile := by
    rw [fragments_due, List.mem_filter]
    simp [mem_fragments_of_migrations hfile, holds_migrationFragment, answer]
  objects kind file hfile f hf := by
    rw [fragments_due, List.mem_filter, holds_of_fragmentsOf hf]
    simp [mem_fragments_of_fragmentsOf hfile hf, answer]
  recorded name := by
    rw [migrations_applying, Bool.or_eq_true, decide_eq_true_iff]
  stored kind file hfile := by
    rw [digests_applying]
    exact digests_storingAll_of_mem (c.objects_nodup kind) hfile l
  kept kind name hname := by
    rw [digests_applying]
    exact digests_storingAll_of_notMem hname l

/-- Where all of the contents are recorded nothing is due. -/
theorem guard_eq_none_of_recorded {l : Ledger} {c : Contents}
    (hmigrations : ∀ file ∈ c.bootstrap.toList ++ c.migrations, l.migrations file.name = true)
    (hobjects : ∀ kind, ∀ file ∈ c.objects kind, l.digests kind file.name = some file.digest) :
    ∀ f ∈ (l.due c).fragments, f.guard = none := by
  have hbootstrap : (l.due c).bootstrap = none := by
    refine Option.filter_eq_none_iff.2 fun file hfile => ?_
    simp [answer, hmigrations file (List.mem_append_left _ (Option.mem_toList.2 hfile))]
  have hrest : (l.due c).migrations = [] := by
    refine List.filter_eq_nil_iff.2 fun file hfile => ?_
    simp [answer, hmigrations file (List.mem_append_right _ hfile)]
  have hnone : ∀ kind, (l.due c).objects kind = [] := fun kind => by
    refine List.filter_eq_nil_iff.2 fun file hfile => ?_
    simp [answer, hobjects kind file hfile]
  intro f hf
  simp only [Contents.fragments, Contents.parts, Contents.pass, hbootstrap, hrest, hnone,
    Option.toList_none, List.map_nil, List.flatMap_cons, List.flatMap_nil, List.nil_append,
    List.append_nil, List.cons_append, List.mem_cons, List.not_mem_nil, or_false] at hf
  rcases hf with rfl | rfl | rfl
  · rfl
  · rfl
  · rfl

/-- Contents that are recorded already are recorded as they are. -/
theorem applying_of_recorded {l : Ledger} {c : Contents}
    (hmigrations : ∀ file ∈ c.bootstrap.toList ++ c.migrations, l.migrations file.name = true)
    (hobjects : ∀ kind, ∀ file ∈ c.objects kind, l.digests kind file.name = some file.digest) :
    l.applying c = l := by
  refine Ledger.ext (funext fun name => ?_) (funext fun kind => funext fun name => ?_)
  · rw [migrations_applying]
    by_cases hname : name ∈ (c.bootstrap.toList ++ c.migrations).map SqlFile.name
    · obtain ⟨file, hfile, rfl⟩ := List.mem_map.1 hname
      rw [hmigrations file hfile, Bool.or_true]
    · rw [decide_eq_false hname, Bool.false_or]
  · rw [digests_applying]
    by_cases hname : name ∈ (c.objects kind).map SqlFile.name
    · obtain ⟨file, hfile, rfl⟩ := List.mem_map.1 hname
      rw [hobjects kind file hfile]
      exact digests_storingAll_of_mem (c.objects_nodup kind) hfile l
    · exact digests_storingAll_of_notMem hname l

theorem run_again (l : Ledger) (c : Contents) :
    ∃ again, (l.applying c).run c.fragments = some (l.applying c, again) ∧
      ∀ f ∈ again, f.guard = none := by
  have happlied := l.applied_due c
  have hmigrations : ∀ file ∈ c.bootstrap.toList ++ c.migrations,
      (l.applying c).migrations file.name = true := fun file hfile =>
    (happlied.recorded file.name).2 (.inl (List.mem_map_of_mem hfile))
  have hrun := (l.applying c).run_fragments c
  rw [applying_of_recorded hmigrations happlied.stored] at hrun
  exact ⟨_, hrun, guard_eq_none_of_recorded hmigrations happlied.stored⟩

/-- Whatever the ledger, a run of the script of a tree applies exactly the
migrations that are not recorded and the objects whose recorded digest differs,
and records the whole tree; run again, the script applies nothing that has a
guard and leaves the ledger alone. -/
theorem run_of_assemble {d : Disk} {root : Path} {s : Script}
    (h : Script.assemble d root = .ok s) :
    ∃ c : Contents, c.OfTree d root ∧ ∀ before : Ledger, ∃ after applied,
      before.run s.ordered = some (after, applied) ∧
        Applied c s.ordered before after applied ∧
        ∃ again, after.run s.ordered = some (after, again) ∧ ∀ f ∈ again, f.guard = none := by
  obtain ⟨c, hread, rfl⟩ := Contents.exists_of_assemble h
  refine ⟨c, hread.ofTree, fun before => ?_⟩
  rw [c.ordered_of_fragments rfl]
  exact ⟨before.applying c, (before.due c).fragments, before.run_fragments c,
    before.applied_due c, before.run_again c⟩

def smallEntries : List (Location × Entry) :=
  [(["db".name], .folder),
   (["functions".name, "db".name], .folder),
   (["f.sql".name, "functions".name, "db".name], .file (Utf8.encode "SELECT 1;".text)),
   (["migrations".name, "db".name], .folder),
   (["00000.sql".name, "migrations".name, "db".name],
     .file (Utf8.encode "SELECT 2;".text))]

/-- A tree with one function and the bootstrap migration. -/
def smallTree : Tree where
  entries := smallEntries
  distinct := by decide
  closed := by
    have h : ∀ place ∈ smallEntries.map (·.1),
        place.tail = [] ∨ (place.tail, Entry.folder) ∈ smallEntries := by decide
    exact fun name place hplace => h (name :: place) hplace

theorem run_of_assemble_small :
    ∃ s, Script.assemble ⟨smallTree, []⟩ ⟨.relative, ["db".text]⟩ = .ok s ∧
      ∃ c : Contents, c.OfTree ⟨smallTree, []⟩ ⟨.relative, ["db".text]⟩ ∧
        ∀ before : Ledger, ∃ after applied, before.run s.ordered = some (after, applied) ∧
          Applied c s.ordered before after applied ∧
          ∃ again, after.run s.ordered = some (after, again) ∧ ∀ f ∈ again, f.guard = none := by
  have hok : (Script.assemble ⟨smallTree, []⟩ ⟨.relative, ["db".text]⟩).toBool = true := by
    decide +kernel
  cases h : Script.assemble ⟨smallTree, []⟩ ⟨.relative, ["db".text]⟩ with
  | error e =>
    rw [h] at hok
    cases hok
  | ok s => exact ⟨s, rfl, run_of_assemble h⟩

end Ledger
end SchemaLedger
