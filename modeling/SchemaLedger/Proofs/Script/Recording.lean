import SchemaLedger.Proofs.Script.Contents
import SchemaLedger.Proofs.Text.Order
import SchemaLedger.Proofs.Tree.Agreement

/-!
# The script that records a tree

It is put together from the names of the migrations and from the other files, so
it exists for every tree that can be applied and does not depend on what is in
the migrations.
-/

namespace SchemaLedger

/-! ## Trees that differ in one folder -/

namespace Artifact

variable {d e : Disk} {folder : Path}

theorem list_congr (h : d.SameShape e) {paths : List Path} (hlist : list d folder = .ok paths) :
    list e folder = .ok paths := by
  rcases list_eq_ok.1 hlist with ⟨hfolder, rfl⟩ | ⟨names, chosen, hnames, hchosen, rfl⟩
  · exact list_eq_ok.2 (.inl ⟨h.isFolder folder ▸ hfolder, rfl⟩)
  · obtain ⟨others, hothers, hperm⟩ := h.list hnames
    have htest : isSql e = isSql d := funext fun path => by rw [isSql, isSql, h.isFile path]
    obtain ⟨hall, rfl⟩ := select_eq_ok.1 hchosen
    have hpaths : (names.map folder.child).Perm (others.map folder.child) := hperm.map _
    have hselect : select (isSql e) (others.map folder.child) = .ok
        ((others.map folder.child).filter fun path => (isSql d path).toOption.getD false) := by
      rw [htest, select_eq_ok]
      exact ⟨fun path hpath => hall path (hpaths.mem_iff.2 hpath), rfl⟩
    refine list_eq_ok.2 (.inr ⟨others, _, hothers, hselect, ?_⟩)
    refine Text.mergeSort_eq_of_perm (hpaths.filter _) fun p hp q hq hname => ?_
    obtain ⟨a, _, rfl⟩ := List.mem_map.1 (List.mem_filter.1 hp).1
    obtain ⟨b, _, rfl⟩ := List.mem_map.1 (List.mem_filter.1 hq).1
    rw [Path.name_child, Path.name_child] at hname
    rw [hname]

theorem readAll_congr {root : Path} {kind : ObjectKind} {files : List SqlFile}
    (h : d.SameButIn e (root.child Layout.migrations))
    (hread : readAll d (root.child kind.folder) = .ok files) :
    readAll e (root.child kind.folder) = .ok files := by
  obtain ⟨paths, hpaths, hfiles⟩ := Outcome.bind_eq_ok.1 hread
  refine Outcome.bind_eq_ok.2 ⟨paths, list_congr h.sameShape hpaths, ?_⟩
  rw [← hfiles]
  refine Outcome.mapM_congr fun path hpath => ?_
  obtain ⟨⟨_, _, _, name, _, rfl⟩, _⟩ := (mem_list hpaths).1 hpath
  have hsame := h.read (p := (root.child kind.folder).child name) fun inside above habove =>
    Disk.locate_ne_of_sibling (by cases kind <;> decide) (by cases kind <;> decide) (by decide)
      habove
  unfold read
  rw [hsame]

end Artifact

namespace Script

/-! ## Parts of the script -/

/-- The fragment that records a migration under the name of its file. -/
def recordedFragment (stage : Stage) (file : SqlFile) : Fragment :=
  { stage
    body := .ensureRecorded file.name
    source := some (sourceOf Layout.migrations file.path.name)
    onApply := [.notice ("Fake applied migration ".text ++ file.name)] }

theorem recordedMigration_of_nameOf {file : SqlFile}
    (h : Artifact.nameOf file.path = .ok file.name) (stage : Stage) :
    recordedMigration stage file.path = .ok (recordedFragment stage file) := by
  rw [recordedMigration, Outcome.bind_of_ok h]
  rfl

/-- The fragments of the script that records migrations and objects, stage by
stage. -/
def recordedParts (bootstrap migrations : List Fragment) (objects : ObjectKind → List SqlFile) :
    List (Stage × List Fragment) :=
  [(.trackingTables, [Contents.tables]),
   (.bootstrap, bootstrap),
   (.migrations, migrations),
   (.views, (objects .view).map (recordedObject .views .view)),
   (.functionsChecked, (objects .function).map (recordedObject .functionsChecked .function)),
   (.triggersChecked, (objects .trigger).map (recordedObject .triggersChecked .trigger))]

variable {d e : Disk} {root : Path}

theorem recordedObjects_eq_ok {kind : ObjectKind} {stage : Stage} {fs : List Fragment} :
    recordedObjects d root kind stage = .ok fs ↔
      ∃ files, Artifact.readAll d (root.child kind.folder) = .ok files ∧
        fs = files.map (recordedObject stage kind) := by
  rw [recordedObjects, Outcome.bind_eq_ok]
  exact exists_congr fun files => and_congr_right fun _ => Outcome.pure_eq_ok.trans eq_comm

/-- What the recording script is put together from. -/
theorem assembleRecording_eq_ok {s : Script} :
    assembleRecording d root = .ok s ↔
      Artifact.requireRoot d root = .ok () ∧
        ∃ path? bootstrap paths migrations, ∃ objects : ObjectKind → List SqlFile,
          bootstrapPath? d root = .ok path? ∧
          path?.toList.mapM (recordedMigration .bootstrap) = .ok bootstrap ∧
          migrationPaths d root = .ok paths ∧
          paths.mapM (recordedMigration .migrations) = .ok migrations ∧
          (∀ kind, Artifact.readAll d (root.child kind.folder) = .ok (objects kind)) ∧
          s = ⟨schemaTag, (recordedParts bootstrap migrations objects).flatMap (·.2)⟩ := by
  have hfragments : ∀ (bootstrap migrations : List Fragment) (objects : ObjectKind → List SqlFile),
      Contents.tables :: bootstrap ++ migrations ++
          (objects .view).map (recordedObject .views .view) ++
          (objects .function).map (recordedObject .functionsChecked .function) ++
          (objects .trigger).map (recordedObject .triggersChecked .trigger) =
        (recordedParts bootstrap migrations objects).flatMap (·.2) := fun _ _ _ => by
    simp only [recordedParts, List.flatMap_cons, List.flatMap_nil, List.append_assoc,
      List.append_nil, List.cons_append, List.nil_append]
  constructor
  · intro h
    obtain ⟨_, hroot, h⟩ := Outcome.bind_eq_ok.1 h
    obtain ⟨path?, hpath, h⟩ := Outcome.bind_eq_ok.1 h
    obtain ⟨bootstrap, hbootstrap, h⟩ := Outcome.bind_eq_ok.1 h
    obtain ⟨paths, hpaths, h⟩ := Outcome.bind_eq_ok.1 h
    obtain ⟨migrations, hmigrations, h⟩ := Outcome.bind_eq_ok.1 h
    obtain ⟨_, hviews, h⟩ := Outcome.bind_eq_ok.1 h
    obtain ⟨_, hfunctions, h⟩ := Outcome.bind_eq_ok.1 h
    obtain ⟨_, htriggers, h⟩ := Outcome.bind_eq_ok.1 h
    obtain ⟨views, hreadViews, rfl⟩ := recordedObjects_eq_ok.1 hviews
    obtain ⟨functions, hreadFunctions, rfl⟩ := recordedObjects_eq_ok.1 hfunctions
    obtain ⟨triggers, hreadTriggers, rfl⟩ := recordedObjects_eq_ok.1 htriggers
    obtain ⟨objects, hobjects, rfl, rfl, rfl⟩ :=
      Contents.exists_objects hreadFunctions hreadTriggers hreadViews
    refine ⟨hroot, path?, bootstrap, paths, migrations, objects, hpath, hbootstrap, hpaths,
      hmigrations, hobjects, ?_⟩
    rw [← Outcome.pure_eq_ok.1 h, ← hfragments]
    rfl
  · rintro ⟨hroot, path?, bootstrap, paths, migrations, objects, hpath, hbootstrap, hpaths,
      hmigrations, hobjects, rfl⟩
    rw [← hfragments, assembleRecording, Outcome.bind_of_ok hroot, Outcome.bind_of_ok hpath,
      Outcome.bind_of_ok hbootstrap, Outcome.bind_of_ok hpaths, Outcome.bind_of_ok hmigrations,
      Outcome.bind_of_ok (recordedObjects_eq_ok.2 ⟨_, hobjects .view, rfl⟩),
      Outcome.bind_of_ok (recordedObjects_eq_ok.2 ⟨_, hobjects .function, rfl⟩),
      Outcome.bind_of_ok (recordedObjects_eq_ok.2 ⟨_, hobjects .trigger, rfl⟩)]
    rfl

/-! ## Trees with other bytes in the migrations -/

theorem requireRoot_congr (h : d.SameShape e) :
    Artifact.requireRoot d root = Artifact.requireRoot e root := by
  rw [Artifact.requireRoot, Artifact.requireRoot, h.isFolder root]

theorem assembleRecording_of_sameButIn (h : d.SameButIn e (root.child Layout.migrations))
    {s : Script} (hs : assembleRecording d root = .ok s) : assembleRecording e root = .ok s := by
  obtain ⟨hroot, path?, bootstrap, paths, migrations, objects, hpath, hbootstrap, hpaths,
    hmigrations, hobjects, rfl⟩ := assembleRecording_eq_ok.1 hs
  have hshape := h.sameShape
  refine assembleRecording_eq_ok.2 ⟨requireRoot_congr hshape ▸ hroot, path?, bootstrap, paths,
    migrations, objects, ?_, hbootstrap, ?_, hmigrations,
    fun kind => Artifact.readAll_congr h (hobjects kind), rfl⟩
  · obtain ⟨there, hthere, hpath⟩ := Contents.bootstrapPath?_eq_ok.1 hpath
    exact Contents.bootstrapPath?_eq_ok.2 ⟨there, hshape.isFile _ ▸ hthere, hpath⟩
  · obtain ⟨listed, hlisted, hpaths⟩ := Contents.migrationPaths_eq_ok.1 hpaths
    exact Contents.migrationPaths_eq_ok.2 ⟨listed, Artifact.list_congr hshape hlisted, hpaths⟩

/-! ## Trees that can be applied -/

namespace Contents

/-- The fragments of the script that records the contents. -/
def recorded (c : Contents) : List (Stage × List Fragment) :=
  recordedParts (c.bootstrap.toList.map (recordedFragment .bootstrap))
    (c.migrations.map (recordedFragment .migrations)) c.objects

theorem stage_of_mem_recorded (c : Contents) :
    ∀ part ∈ c.recorded, ∀ f ∈ part.2, f.stage = part.1 ∧ f.guard = none := by
  intro part hpart f hf
  simp only [recorded, recordedParts, List.mem_cons, List.not_mem_nil, or_false] at hpart
  rcases hpart with rfl | rfl | rfl | rfl | rfl | rfl
  all_goals
    simp only [List.mem_map, List.mem_singleton] at hf
    first
      | (subst hf; exact ⟨rfl, rfl⟩)
      | (obtain ⟨file, _, rfl⟩ := hf; exact ⟨rfl, rfl⟩)

theorem map_fst_recorded (c : Contents) : c.recorded.map (·.1) =
    [.trackingTables, .bootstrap, .migrations, .views, .functionsChecked, .triggersChecked] := rfl

theorem ordered_of_recorded (c : Contents) {s : Script}
    (h : s.fragments = c.recorded.flatMap (·.2)) : s.ordered = c.recorded.flatMap (·.2) := by
  refine ordered_of_parts h (fun part hpart f hf => (c.stage_of_mem_recorded part hpart f hf).1) ?_
  rw [map_fst_recorded]
  decide

theorem mapM_recordedMigration {paths : List Path} {files : List SqlFile}
    (h : paths.mapM (Artifact.read d) = .ok files) (stage : Stage) :
    paths.mapM (recordedMigration stage) = .ok (files.map (recordedFragment stage)) := by
  have hall := Outcome.mapM_eq_ok.1 h
  rw [Outcome.mapM_eq_ok, List.forall₂_map_right_iff]
  refine hall.imp fun path file hfile => ?_
  obtain ⟨hname, rfl, _⟩ := Artifact.read_eq_ok.1 hfile
  exact recordedMigration_of_nameOf hname stage

theorem assembleRecording_of_readFrom {c : Contents} (h : c.ReadFrom d root) :
    assembleRecording d root = .ok ⟨schemaTag, c.recorded.flatMap (·.2)⟩ := by
  obtain ⟨paths, hpaths, hmigrations⟩ := h.migrations
  refine assembleRecording_eq_ok.2 ⟨h.isFolder, _, _, paths, _, c.objects, h.bootstrapPath, ?_,
    hpaths, mapM_recordedMigration hmigrations _, h.objects, rfl⟩
  cases hbootstrap : c.bootstrap with
  | none => rfl
  | some file =>
    have hread : [file.path].mapM (Artifact.read d) = .ok [file] :=
      Outcome.mapM_eq_ok.2 (.cons (h.bootstrap file hbootstrap) .nil)
    exact mapM_recordedMigration hread _

end Contents

end Script
end SchemaLedger
