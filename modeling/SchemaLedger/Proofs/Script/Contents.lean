import SchemaLedger.Proofs.Artifact.Listing
import SchemaLedger.Script.Assemble

/-!
# The contents of a tree

A script is put together from the files of a tree, part by part, and the parts
come in the order of their stages already.
-/

namespace SchemaLedger
namespace Script

/-- The artifacts of a tree.  Those that are recorded in one table have
different names. -/
structure Contents where
  bootstrap : Option SqlFile
  migrations : List SqlFile
  objects : ObjectKind → List SqlFile
  migrations_nodup : ((bootstrap.toList ++ migrations).map SqlFile.name).Nodup
  objects_nodup : ∀ kind, ((objects kind).map SqlFile.name).Nodup

namespace Contents

/-- The contents are exactly what stands on the disk in the folders of the
root. -/
structure OfTree (c : Contents) (d : Disk) (root : Path) : Prop where
  bootstrap : ∀ file, c.bootstrap = some file ↔
    file.path = Artifact.bootstrapPath root ∧ Artifact.StandsOn d file
  migrations : ∀ file, file ∈ c.migrations ↔
    (Artifact.IsListed d (root.child Layout.migrations) file.path ∧
      file.path.name ≠ Layout.bootstrap) ∧ Artifact.StandsOn d file
  objects : ∀ kind file, file ∈ c.objects kind ↔
    Artifact.IsListed d (root.child kind.folder) file.path ∧ Artifact.StandsOn d file

/-- The contents are what the program reads. -/
structure ReadFrom (c : Contents) (d : Disk) (root : Path) : Prop where
  isFolder : Artifact.requireRoot d root = .ok ()
  bootstrapPath : bootstrapPath? d root = .ok (c.bootstrap.map SqlFile.path)
  bootstrap : ∀ file, c.bootstrap = some file → Artifact.read d file.path = .ok file
  migrations : ∃ paths, migrationPaths d root = .ok paths ∧
    paths.mapM (Artifact.read d) = .ok c.migrations
  objects : ∀ kind, Artifact.readAll d (root.child kind.folder) = .ok (c.objects kind)

/-! ## Parts of a script -/

def opening : Fragment :=
  { stage := .prelude
    body := .plain ("SET LOCAL check_function_bodies = false;\n" ++
      "SET LOCAL client_min_messages = notice;").text }

def tables : Fragment :=
  { stage := .trackingTables, body := .plain trackingTables }

def check : Fragment :=
  { stage := .checkBodies, body := .plain "SET LOCAL check_function_bodies = true;".text }

/-- The objects of a kind in one of the passes over them. -/
def pass (c : Contents) (kind : ObjectKind) (records : Bool) (stage : Stage) : List Fragment :=
  (c.objects kind).map (objectFragment stage kind.table kind.folder records)

/-- The fragments of the script that applies the contents, stage by stage. -/
def parts (c : Contents) : List (Stage × List Fragment) :=
  [(.prelude, [opening]),
   (.trackingTables, [tables]),
   (.bootstrap, c.bootstrap.toList.map (migrationFragment .bootstrap)),
   (.functionsUnchecked, c.pass .function false .functionsUnchecked),
   (.triggersUnchecked, c.pass .trigger false .triggersUnchecked),
   (.migrations, c.migrations.map (migrationFragment .migrations)),
   (.views, c.pass .view true .views),
   (.checkBodies, [check]),
   (.functionsChecked, c.pass .function true .functionsChecked),
   (.triggersChecked, c.pass .trigger true .triggersChecked)]

def fragments (c : Contents) : List Fragment :=
  c.parts.flatMap (·.2)

end Contents

/-- Parts in the order of their stages are not moved. -/
theorem ordered_of_parts {s : Script} {parts : List (Stage × List Fragment)}
    (hfragments : s.fragments = parts.flatMap (·.2))
    (hstage : ∀ part ∈ parts, ∀ f ∈ part.2, f.stage = part.1)
    (hsorted : (parts.map (·.1)).Pairwise fun a b => a.number ≤ b.number) :
    s.ordered = parts.flatMap (·.2) := by
  rw [← hfragments]
  refine List.mergeSort_of_pairwise ?_
  rw [hfragments]
  clear hfragments
  induction parts with
  | nil => exact List.Pairwise.nil
  | cons part rest ih =>
    obtain ⟨hpart, hrest⟩ := List.forall_mem_cons.1 hstage
    obtain ⟨hfirst, hsorted⟩ := List.pairwise_cons.1 hsorted
    rw [List.flatMap_cons, List.pairwise_append]
    refine ⟨List.pairwise_of_forall_mem_list fun f hf g hg => ?_, ih hrest hsorted, ?_⟩
    · rw [hpart f hf, hpart g hg]
      simp
    · intro f hf g hg
      obtain ⟨other, hother, hg⟩ := List.mem_flatMap.1 hg
      rw [hpart f hf, hrest other hother g hg]
      simpa using hfirst other.1 (List.mem_map_of_mem hother)

theorem filter_stage {parts : List (Stage × List Fragment)} (stage : Stage)
    (hstage : ∀ part ∈ parts, ∀ f ∈ part.2, f.stage = part.1) :
    (parts.flatMap (·.2)).filter (·.stage = stage) =
      (parts.filter (·.1 = stage)).flatMap (·.2) := by
  induction parts with
  | nil => rfl
  | cons part rest ih =>
    obtain ⟨hpart, hrest⟩ := List.forall_mem_cons.1 hstage
    rw [List.flatMap_cons, List.filter_append, ih hrest]
    by_cases heq : part.1 = stage
    · rw [List.filter_cons_of_pos (by simpa using heq), List.flatMap_cons,
        List.filter_eq_self.2 fun f hf => by simpa [hpart f hf] using heq]
    · rw [List.filter_cons_of_neg (by simpa using heq),
        List.filter_eq_nil_iff.2 fun f hf => by simpa [hpart f hf] using heq, List.nil_append]

namespace Contents

theorem stage_of_mem_parts (c : Contents) : ∀ part ∈ c.parts, ∀ f ∈ part.2, f.stage = part.1 := by
  intro part hpart f hf
  simp only [parts, List.mem_cons, List.not_mem_nil, or_false] at hpart
  rcases hpart with rfl | rfl | rfl | rfl | rfl | rfl | rfl | rfl | rfl | rfl
  all_goals
    simp only [pass, List.mem_map, List.mem_singleton] at hf
    first
      | (subst hf; rfl)
      | (obtain ⟨file, _, rfl⟩ := hf; rfl)

theorem map_fst_parts (c : Contents) : c.parts.map (·.1) =
    [.prelude, .trackingTables, .bootstrap, .functionsUnchecked, .triggersUnchecked, .migrations,
      .views, .checkBodies, .functionsChecked, .triggersChecked] := rfl

theorem ordered_of_fragments (c : Contents) {s : Script} (h : s.fragments = c.fragments) :
    s.ordered = c.fragments := by
  refine ordered_of_parts h c.stage_of_mem_parts ?_
  rw [map_fst_parts]
  decide

/-! ## Reading a tree -/

variable {d : Disk} {root : Path}

theorem bootstrapPath?_eq_ok {path? : Option Path} :
    bootstrapPath? d root = .ok path? ↔
      ∃ there, d.isFile (Artifact.bootstrapPath root) = .ok there ∧
        path? = if there then some (Artifact.bootstrapPath root) else none := by
  rw [bootstrapPath?, Outcome.bind_eq_ok]
  exact exists_congr fun there => and_congr unreported_eq_ok (Outcome.pure_eq_ok.trans eq_comm)

theorem eq_bootstrapPath {path : Path} (h : bootstrapPath? d root = .ok (some path)) :
    path = Artifact.bootstrapPath root := by
  obtain ⟨there, _, hpath⟩ := bootstrapPath?_eq_ok.1 h
  split at hpath
  · exact Option.some.inj hpath
  · cases hpath

theorem migrationPaths_eq_ok {paths : List Path} :
    migrationPaths d root = .ok paths ↔
      ∃ listed, Artifact.list d (root.child Layout.migrations) = .ok listed ∧
        paths = listed.filter (·.name != Layout.bootstrap) := by
  rw [migrationPaths, Outcome.bind_eq_ok]
  exact exists_congr fun listed => and_congr_right fun _ => Outcome.pure_eq_ok.trans eq_comm

theorem mem_migrationPaths {paths : List Path} (h : migrationPaths d root = .ok paths)
    {path : Path} :
    path ∈ paths ↔ (Artifact.IsListed d (root.child Layout.migrations) path ∧
      path.name ≠ Layout.bootstrap) ∧ d.isFile path = .ok true := by
  obtain ⟨listed, hlisted, rfl⟩ := migrationPaths_eq_ok.1 h
  rw [List.mem_filter, Artifact.mem_list hlisted, bne_iff_ne]
  tauto

theorem ReadFrom.ofTree {c : Contents} (h : c.ReadFrom d root) : c.OfTree d root where
  bootstrap file := by
    constructor
    · intro hfile
      obtain ⟨_, _, hstands⟩ := Artifact.read_eq_ok.1 (h.bootstrap file hfile)
      have hpath := h.bootstrapPath
      rw [hfile] at hpath
      exact ⟨eq_bootstrapPath hpath, hstands⟩
    · rintro ⟨hfile, hstands⟩
      obtain ⟨there, hthere, hpath⟩ := bootstrapPath?_eq_ok.1 h.bootstrapPath
      rw [← hfile, hstands.isFile] at hthere
      cases hthere
      obtain ⟨other, hother, hotherPath⟩ := Option.map_eq_some_iff.1 hpath
      obtain ⟨_, _, hotherStands⟩ := Artifact.read_eq_ok.1 (h.bootstrap other hother)
      rw [hother, hstands.eq hotherStands (hfile.trans hotherPath.symm)]
  migrations file := by
    obtain ⟨paths, hpaths, hread⟩ := h.migrations
    rw [Artifact.mem_of_mapM_read hread, mem_migrationPaths hpaths]
    constructor
    · exact fun ⟨⟨hlisted, _⟩, hstands⟩ => ⟨hlisted, hstands⟩
    · exact fun ⟨hlisted, hstands⟩ => ⟨⟨hlisted, hstands.isFile⟩, hstands⟩
  objects kind file := Artifact.mem_readAll (h.objects kind)

theorem suffix_bootstrapPath (root : Path) :
    (Artifact.bootstrapPath root).suffix = Layout.suffix := by
  rw [Artifact.bootstrapPath, Path.suffix, Path.name_child]
  decide

/-- The bootstrap migration has a name of its own. -/
theorem bootstrap_name_ne {file bootstrap : SqlFile}
    (hfile : Artifact.IsListed d (root.child Layout.migrations) file.path)
    (hne : file.path.name ≠ Layout.bootstrap) (hname : file.name = file.path.stem)
    (hpath : bootstrap.path = Artifact.bootstrapPath root)
    (hbootstrap : bootstrap.name = bootstrap.path.stem) : file.name ≠ bootstrap.name := by
  intro heq
  have hbootstrapName : bootstrap.path.name = Layout.bootstrap := by
    rw [hpath]
    exact Path.name_child _ _
  refine hne ?_
  rw [← hbootstrapName]
  refine Path.name_eq_of_stem_eq (hfile.1.trans ?_) (by rw [← hname, ← hbootstrap, heq])
  rw [hpath, suffix_bootstrapPath]

theorem ofBootstrap_eq_ok {fs : List Fragment} (h : ofBootstrap d root = .ok fs) :
    ∃ file? : Option SqlFile, bootstrapPath? d root = .ok (file?.map SqlFile.path) ∧
      (∀ file, file? = some file → Artifact.read d file.path = .ok file) ∧
      fs = file?.toList.map (migrationFragment .bootstrap) := by
  obtain ⟨path?, hpath, h⟩ := Outcome.bind_eq_ok.1 h
  cases path? with
  | none => exact ⟨none, hpath, nofun, (Outcome.pure_eq_ok.1 h).symm⟩
  | some path =>
    obtain ⟨file, hfile, hfs⟩ := Outcome.bind_eq_ok.1 h
    obtain ⟨_, rfl, _⟩ := Artifact.read_eq_ok.1 hfile
    refine ⟨some file, hpath, ?_, (Outcome.pure_eq_ok.1 hfs).symm⟩
    rintro other ⟨⟩
    exact hfile

theorem names_nodup {file? : Option SqlFile} {paths : List Path} {files : List SqlFile}
    (hbootstrapPath : bootstrapPath? d root = .ok (file?.map SqlFile.path))
    (hbootstrap : ∀ file, file? = some file → Artifact.read d file.path = .ok file)
    (hpaths : migrationPaths d root = .ok paths)
    (hread : paths.mapM (Artifact.read d) = .ok files) :
    ((file?.toList ++ files).map SqlFile.name).Nodup := by
  have hmem := fun path (hpath : path ∈ paths) => ((mem_migrationPaths hpaths).1 hpath).1
  have hfiles : (files.map SqlFile.name).Nodup := by
    obtain ⟨listed, hlisted, rfl⟩ := migrationPaths_eq_ok.1 hpaths
    exact Artifact.names_nodup_of_mapM ((Artifact.list_nodup hlisted).filter _)
      (fun path hpath => (hmem path hpath).1) hread
  cases file? with
  | none => exact hfiles
  | some bootstrap =>
    refine List.nodup_cons.2 ⟨fun hname => ?_, hfiles⟩
    obtain ⟨file, hfile, heq⟩ := List.mem_map.1 hname
    obtain ⟨hpath, _, _, hstem, _⟩ := (Artifact.mem_of_mapM_read hread).1 hfile
    obtain ⟨_, _, _, _, hbootstrapStem, _⟩ := Artifact.read_eq_ok.1 (hbootstrap bootstrap rfl)
    obtain ⟨hlisted, hne⟩ := hmem _ hpath
    exact bootstrap_name_ne hlisted hne hstem (eq_bootstrapPath hbootstrapPath) hbootstrapStem heq

/-- Three folders that can be read are the folders of all kinds. -/
theorem exists_objects {functions triggers views : List SqlFile}
    (hfunctions : Artifact.readAll d (root.child ObjectKind.function.folder) = .ok functions)
    (htriggers : Artifact.readAll d (root.child ObjectKind.trigger.folder) = .ok triggers)
    (hviews : Artifact.readAll d (root.child ObjectKind.view.folder) = .ok views) :
    ∃ objects : ObjectKind → List SqlFile,
      (∀ kind, Artifact.readAll d (root.child kind.folder) = .ok (objects kind)) ∧
        functions = objects .function ∧ triggers = objects .trigger ∧ views = objects .view := by
  have hkinds : ∀ kind : ObjectKind, ∃ files,
      Artifact.readAll d (root.child kind.folder) = .ok files := fun kind => by
    cases kind with
    | function => exact ⟨functions, hfunctions⟩
    | trigger => exact ⟨triggers, htriggers⟩
    | view => exact ⟨views, hviews⟩
  choose objects hobjects using hkinds
  exact ⟨objects, hobjects, Except.ok.inj (hfunctions.symm.trans (hobjects .function)),
    Except.ok.inj (htriggers.symm.trans (hobjects .trigger)),
    Except.ok.inj (hviews.symm.trans (hobjects .view))⟩

/-- A tree that can be applied is read, and the script is that of its
contents. -/
theorem exists_of_assemble {s : Script} (h : assemble d root = .ok s) :
    ∃ c : Contents, c.ReadFrom d root ∧ s = ⟨schemaTag, c.fragments⟩ := by
  obtain ⟨_, hroot, h⟩ := Outcome.bind_eq_ok.1 h
  obtain ⟨functions, hfunctions, h⟩ := Outcome.bind_eq_ok.1 h
  obtain ⟨triggers, htriggers, h⟩ := Outcome.bind_eq_ok.1 h
  obtain ⟨_, hbootstrap, h⟩ := Outcome.bind_eq_ok.1 h
  obtain ⟨_, hmigrations, h⟩ := Outcome.bind_eq_ok.1 h
  obtain ⟨_, hviews, h⟩ := Outcome.bind_eq_ok.1 h
  obtain ⟨file?, hfile, hread, rfl⟩ := ofBootstrap_eq_ok hbootstrap
  obtain ⟨paths, hpaths, hmigrations⟩ := Outcome.bind_eq_ok.1 hmigrations
  obtain ⟨migrations, hmigrationsRead, hmigrations⟩ := Outcome.bind_eq_ok.1 hmigrations
  obtain ⟨views, hviewsRead, hviews⟩ := Outcome.bind_eq_ok.1 hviews
  obtain ⟨objects, hobjects, rfl, rfl, rfl⟩ := exists_objects hfunctions htriggers hviewsRead
  refine ⟨⟨file?, migrations, objects, names_nodup hfile hread hpaths hmigrationsRead,
    fun kind => Artifact.names_nodup_of_readAll (hobjects kind)⟩,
    ⟨hroot, hfile, hread, ⟨paths, hpaths, hmigrationsRead⟩, hobjects⟩, ?_⟩
  rw [← Outcome.pure_eq_ok.1 h, ← Outcome.pure_eq_ok.1 hmigrations, ← Outcome.pure_eq_ok.1 hviews]
  have hlabel : (root.child ObjectKind.view.folder).name = ObjectKind.view.folder :=
    Path.name_child _ _
  simp only [fragments, parts, pass, hlabel, List.flatMap_cons, List.flatMap_nil, List.append_assoc,
    List.append_nil]
  rfl

end Contents

end Script
end SchemaLedger
