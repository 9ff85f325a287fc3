import SchemaLedger.Proofs.Script.Rereading
import SchemaLedger.Proofs.Script.TreeDrift

/-!
# A file that is edited

When the bytes of one artifact change, the script changes in the fragments of that
artifact only.  A migration has another body and nothing else; an object has another
body and, wherever its digest stands, the digest of the new bytes.
-/

namespace SchemaLedger

namespace Disk

variable {d e : Disk} {p path : Path} {data old : Bytes}

/-- The second disk has other bytes in one file and is the first everywhere else. -/
structure Edited (d : Disk) (path : Path) (data : Bytes) (e : Disk) : Prop where
  working : e.working = d.working
  file : ∃ place old, d.locate path = .ok place ∧ d.tree.at? place = some (.file old) ∧
    e.tree.at? place = some (.file data) ∧
    ∀ other, other ≠ place → e.tree.at? other = d.tree.at? other

/-- A file that is there can be overwritten. -/
theorem exists_edited (h : d.read path = .ok old) (data : Bytes) :
    ∃ e, d.write path data = .ok e ∧ d.Edited path data e := by
  obtain ⟨place, hplace, hfile⟩ := find_eq_ok.1 (read_eq_ok.1 h)
  obtain ⟨e, hwrite⟩ : ∃ e, d.write path data = .ok e := by
    cases place with
    | nil => cases hfile
    | cons name folder => exact ⟨_, write_eq_ok.2 ⟨name, folder, hplace, .inl ⟨old, hfile, rfl⟩⟩⟩
  obtain ⟨hnew, hothers⟩ := at?_of_write hwrite hplace
  exact ⟨e, hwrite, (keeps_of_write hwrite).working, place, old, hplace, hfile, hnew, hothers⟩

namespace Edited

theorem sameShape (h : d.Edited path data e) : d.SameShape e where
  working := h.working.symm
  tree other := by
    obtain ⟨place, old, _, hold, hnew, hothers⟩ := h.file
    by_cases heq : other = place
    · rw [heq, hold, hnew]
      rfl
    · rw [hothers other heq]

theorem read (h : d.Edited path data e) : e.read path = .ok data := by
  obtain ⟨place, _, hplace, _, hnew, _⟩ := h.file
  rw [h.sameShape.locate] at hplace
  exact read_eq_ok.2 (find_eq_ok.2 ⟨place, hplace, hnew⟩)

/-- What stands at another place is read as before. -/
theorem read_other (h : d.Edited path data e) (hne : d.locate p ≠ d.locate path)
    (hread : d.read p = .ok old) : e.read p = .ok old := by
  obtain ⟨place, _, hplace, _, _, hothers⟩ := h.file
  obtain ⟨other, hother, hfile⟩ := find_eq_ok.1 (read_eq_ok.1 hread)
  have hplaces : other ≠ place := by
    rintro rfl
    exact hne (hother.trans hplace.symm)
  have hlocate : e.locate p = .ok other := (h.sameShape.locate p).symm.trans hother
  refine read_eq_ok.2 (find_eq_ok.2 ⟨other, hlocate, ?_⟩)
  rw [hothers other hplaces]
  exact hfile

end Edited

end Disk

/-- The file with another body and digest, if it is the one at the path. -/
def SqlFile.edited (path : Path) (body digest : Text) (file : SqlFile) : SqlFile :=
  if file.path = path then { file with body, digest } else file

namespace SqlFile

variable {path : Path} {body digest : Text} {file : SqlFile}

theorem edited_of_path (h : file.path = path) :
    file.edited path body digest = { file with body, digest } :=
  if_pos h

theorem edited_of_ne (h : file.path ≠ path) : file.edited path body digest = file :=
  if_neg h

theorem name_edited (path : Path) (body digest : Text) (file : SqlFile) :
    (file.edited path body digest).name = file.name := by
  unfold edited
  split <;> rfl

theorem path_edited (path : Path) (body digest : Text) (file : SqlFile) :
    (file.edited path body digest).path = file.path := by
  unfold edited
  split <;> rfl

end SqlFile

namespace Artifact

/-! ## Folders of artifacts -/

inductive Folder
  | migrations
  | seeds
  | objects (kind : ObjectKind)

namespace Folder

def name : Folder → Text
  | .migrations => Layout.migrations
  | .seeds => Layout.seeds
  | .objects kind => kind.folder

/-- What the fragments of a file in the folder are called: a migration by its file
name, any other artifact without the suffix. -/
def source (folder : Folder) (path : Path) : Text :=
  match folder with
  | .migrations => Script.sourceOf Layout.migrations path.name
  | .seeds => Script.sourceOf Layout.seeds path.stem
  | .objects kind => Script.sourceOf kind.folder path.stem

/-- How often a file of the folder comes in the script that applies the tree. -/
def passes : Folder → Nat
  | .migrations => 1
  | .seeds => 0
  | .objects .function => 2
  | .objects .trigger => 2
  | .objects .view => 1

variable {root path : Path}

theorem ofText_name_injective {folder other : Folder}
    (h : Name.ofText folder.name = .ofText other.name) : folder = other := by
  rcases folder with _ | _ | (_ | _ | _) <;> rcases other with _ | _ | (_ | _ | _) <;>
    first | rfl | exact absurd h (by decide)

theorem name_injective : Function.Injective name := fun _ _ h =>
  ofText_name_injective (congrArg Name.ofText h)

theorem name_onward (folder : Folder) : folder.name ≠ [.char '.', .char '.'] := by
  rcases folder with _ | _ | (_ | _ | _) <;> decide

theorem slash_notMem_name (folder : Folder) : .char '/' ∉ folder.name := by
  rcases folder with _ | _ | (_ | _ | _) <;> decide

theorem exists_name_eq {name : Text} (h : name ∈ initialFolders) :
    ∃ folder : Folder, folder.name = name := by
  rcases List.mem_cons.1 h with rfl | h
  · exact ⟨.migrations, rfl⟩
  · obtain ⟨kind, _, rfl⟩ := List.mem_map.1 h
    exact ⟨.objects kind, rfl⟩

/-- A path is in one folder of a root only. -/
theorem eq_of_isSqlIn (folder other : Folder) (h : IsSqlIn (root.child folder.name) path)
    (hother : IsSqlIn (root.child other.name) path) : folder = other := by
  obtain ⟨_, name, rfl⟩ := h
  obtain ⟨_, name', hpath⟩ := hother
  refine name_injective (root.child_injective ?_)
  have hnames := congrArg (·.names.dropLast) hpath
  simp only [Path.child, List.dropLast_concat] at hnames
  rw [Path.child, Path.child, hnames]

theorem exists_label (folder : Folder) (path : Path) :
    ∃ label, folder.source path = Script.sourceOf folder.name label := by
  cases folder with
  | migrations => exact ⟨path.name, rfl⟩
  | seeds => exact ⟨path.stem, rfl⟩
  | objects kind => exact ⟨path.stem, rfl⟩

/-- Different files have different sources. -/
theorem source_injective (folder other : Folder) {path' : Path}
    (h : IsSqlIn (root.child folder.name) path) (hother : IsSqlIn (root.child other.name) path')
    (hsource : folder.source path = other.source path') : path = path' := by
  have hfolder : folder = other := by
    obtain ⟨_, hlabel⟩ := folder.exists_label path
    obtain ⟨_, hlabel'⟩ := other.exists_label path'
    rw [hlabel, hlabel'] at hsource
    exact name_injective
      ((Script.sourceOf_inj folder.slash_notMem_name other.slash_notMem_name).1 hsource).1
  subst hfolder
  obtain ⟨hsuffix, name, rfl⟩ := h
  obtain ⟨hsuffix', name', rfl⟩ := hother
  have hname : ∀ {folderName label label' : Text}, .char '/' ∉ folderName →
      Script.sourceOf folderName label = Script.sourceOf folderName label' → label = label' :=
    fun hslash heq => ((Script.sourceOf_inj hslash hslash).1 heq).2
  have hnames : ((root.child folder.name).child name.text).name =
      ((root.child folder.name).child name'.text).name := by
    cases folder with
    | migrations => exact hname Script.slash_notMem_migrations hsource
    | seeds =>
      exact Path.name_eq_of_stem_eq (hsuffix.trans hsuffix'.symm) (hname (by decide) hsource)
    | objects kind =>
      exact Path.name_eq_of_stem_eq (hsuffix.trans hsuffix'.symm)
        (hname (Script.slash_notMem_folder kind) hsource)
  rw [Path.name_child, Path.name_child] at hnames
  rw [hnames]

end Folder

variable {d e : Disk} {root path other : Path} {folder folder' : Folder} {data : Bytes}
variable {body : Text} {file : SqlFile}

/-- Paths of different artifacts lead to different places. -/
theorem locate_ne_of_isSqlIn {place : Location} (h : IsSqlIn (root.child folder.name) path)
    (hother : IsSqlIn (root.child folder'.name) other) (hne : other ≠ path)
    (hplace : d.locate path = .ok place) : d.locate other ≠ d.locate path := by
  obtain ⟨hsuffix, name, rfl⟩ := h
  obtain ⟨hsuffix', name', rfl⟩ := hother
  intro heq
  obtain ⟨top, htop, hleft⟩ := Disk.exists_top_of_locate folder.name_onward
    (onward_of_suffix hsuffix) hplace
  obtain ⟨top', htop', hright⟩ := Disk.exists_top_of_locate folder'.name_onward
    (onward_of_suffix hsuffix') (heq.trans hplace)
  obtain ⟨hname, hrest⟩ := List.cons.inj (hright.symm.trans hleft)
  obtain ⟨hfolder, _⟩ := List.cons.inj hrest
  rw [Name.ofText_text, Name.ofText_text] at hname
  rw [hname, Folder.ofText_name_injective hfolder] at hne
  exact hne rfl

theorem read_edited (h : d.Edited path data e) (hbody : Utf8.decode data = .ok body)
    (hpath : IsSqlIn (root.child folder.name) path)
    (hother : IsSqlIn (root.child folder'.name) other) (hread : read d other = .ok file) :
    read e other = .ok (file.edited path body (Md5.hexDigest data)) := by
  obtain ⟨hname, rfl, old, hold, hstem, hdecode, hdigest⟩ := read_eq_ok.1 hread
  by_cases heq : file.path = path
  · rw [SqlFile.edited_of_path heq]
    exact read_eq_ok.2 ⟨hname, rfl, data, heq ▸ h.read, hstem, hbody, rfl⟩
  · rw [SqlFile.edited_of_ne heq]
    obtain ⟨place, _, hplace, _⟩ := h.file
    have hsame := h.read_other (locate_ne_of_isSqlIn hpath hother heq hplace) hold
    exact read_eq_ok.2 ⟨hname, rfl, old, hsame, hstem, hdecode, hdigest⟩

end Artifact

namespace Script

open Artifact

variable {d e : Disk} {root path : Path} {folder : Artifact.Folder} {data : Bytes}
variable {body digest : Text} {s : Script} {f : Fragment}

/-! ## Fragments -/

/-- What becomes of a fragment when the file at a path of a folder gets another body
with another digest. -/
structure Recompiled (folder : Artifact.Folder) (path : Path) (body digest : Text)
    (f g : Fragment) : Prop where
  stage : g.stage = f.stage
  source : g.source = f.source
  other : f.origin ≠ some (folder.source path) → g = f
  body : f.origin = some (folder.source path) → g.body = .plain body
  migration : folder = .migrations → { g with body := f.body } = f
  object : ∀ kind, folder = .objects kind → f.origin = some (folder.source path) →
    ∃ old, f.guard = some (.outdated kind.table path.stem old) ∧
      g.guard = some (.outdated kind.table path.stem digest) ∧ g.onSkip = f.onSkip ∧
      (f.onApply = [] ∧ g.onApply = [] ∨
        ∃ message, f.onApply = [.upsert kind.table path.stem old, .notice message] ∧
          g.onApply = [.upsert kind.table path.stem digest, .notice message])

namespace Recompiled

theorem refl_of_ne (h : f.origin ≠ some (folder.source path)) :
    Recompiled folder path body digest f f where
  stage := rfl
  source := rfl
  other _ := rfl
  body hsource := absurd hsource h
  migration _ := rfl
  object _ _ hsource := absurd hsource h

theorem migrationFragment (stage : Stage) {file : SqlFile}
    (hpath : IsSqlIn (root.child folder.name) path)
    (hfile : IsSqlIn (root.child Layout.migrations) file.path) :
    Recompiled folder path body digest (migrationFragment stage file)
      (Script.migrationFragment stage (file.edited path body digest)) := by
  have horigin := origin_migrationFragment stage file
  by_cases heq : file.path = path
  · obtain rfl : folder = .migrations :=
      Folder.eq_of_isSqlIn folder .migrations hpath (heq ▸ hfile)
    rw [SqlFile.edited_of_path heq]
    exact {
      stage := rfl
      source := rfl
      other := fun hne => absurd (horigin.trans (by rw [heq]; rfl)) hne
      body := fun _ => rfl
      migration := fun _ => rfl
      object := nofun }
  · rw [SqlFile.edited_of_ne heq]
    refine refl_of_ne fun hsource => heq ?_
    exact Folder.source_injective .migrations folder hfile hpath
      (Option.some.inj (horigin.symm.trans hsource))

theorem objectFragment (stage : Stage) (kind : ObjectKind) (records : Bool) {file : SqlFile}
    (hpath : IsSqlIn (root.child folder.name) path)
    (hfile : IsSqlIn (root.child kind.folder) file.path) (hname : file.name = file.path.stem) :
    Recompiled folder path body digest
      (objectFragment stage kind.table kind.folder records file)
      (Script.objectFragment stage kind.table kind.folder records
        (file.edited path body digest)) := by
  have horigin := origin_objectFragment stage kind records file
  rw [hname] at horigin
  by_cases heq : file.path = path
  · obtain rfl : folder = .objects kind :=
      Folder.eq_of_isSqlIn folder (.objects kind) hpath (heq ▸ hfile)
    rw [SqlFile.edited_of_path heq]
    have hstem : file.name = path.stem := by rw [hname, heq]
    exact {
      stage := rfl
      source := rfl
      other := fun hne => absurd (horigin.trans (by rw [heq]; rfl)) hne
      body := fun _ => rfl
      migration := nofun
      object := by
        rintro _ ⟨⟩ _
        refine ⟨file.digest, by rw [← hstem]; rfl, by rw [← hstem]; rfl, rfl, ?_⟩
        cases records with
        | false => exact .inl ⟨rfl, rfl⟩
        | true => exact .inr ⟨_, by rw [← hstem]; rfl, by rw [← hstem]; rfl⟩ }
  · rw [SqlFile.edited_of_ne heq]
    refine refl_of_ne fun hsource => heq ?_
    exact Folder.source_injective (.objects kind) folder hfile hpath
      (Option.some.inj (horigin.symm.trans hsource))

end Recompiled

namespace Contents

variable {c : Contents}

/-- The contents with another body and digest in the file at a path. -/
def edited (c : Contents) (path : Path) (body digest : Text) : Contents :=
  c.map (·.edited path body digest) (SqlFile.name_edited path body digest)

theorem ReadFrom.edited (hread : c.ReadFrom d root) (h : d.Edited path data e)
    (hpath : IsSqlIn (root.child folder.name) path) (hbody : Utf8.decode data = .ok body) :
    (c.edited path body (Md5.hexDigest data)).ReadFrom e root := by
  refine hread.map h.sameShape (SqlFile.path_edited _ _ _) fun name hname other hother file => ?_
  obtain ⟨folder', rfl⟩ := Folder.exists_name_eq hname
  exact read_edited h hbody hpath hother

theorem forall₂_map {R : Fragment → Fragment → Prop} {F : SqlFile → Fragment}
    {change : SqlFile → SqlFile} {files : List SqlFile}
    (h : ∀ file ∈ files, R (F file) (F (change file))) :
    List.Forall₂ R (files.map F) ((files.map change).map F) := by
  rw [List.forall₂_map_left_iff, List.forall₂_map_right_iff, List.forall₂_map_right_iff]
  exact List.forall₂_same.2 h

/-- Fragment by fragment, the script is that of the edited file. -/
theorem recompiled_fragments (body digest : Text) (hread : c.ReadFrom d root)
    (hpath : IsSqlIn (root.child folder.name) path) :
    List.Forall₂ (Recompiled folder path body digest) c.fragments
      (c.edited path body digest).fragments := by
  have hfixed : ∀ {f : Fragment}, f.origin = none →
      List.Forall₂ (Recompiled folder path body digest) [f] [f] := fun hnone =>
    .cons (.refl_of_ne (by rw [hnone]; nofun)) .nil
  have hpass : ∀ kind records stage, List.Forall₂ (Recompiled folder path body digest)
      (c.pass kind records stage) ((c.edited path body digest).pass kind records stage) :=
    fun kind records stage => forall₂_map fun file hfile => by
      obtain ⟨hlisted, _, _, hname, _⟩ := (hread.ofTree.objects kind file).1 hfile
      exact .objectFragment stage kind records hpath hlisted.isSqlIn hname
  have hbootstrap : List.Forall₂ (Recompiled folder path body digest)
      (c.bootstrap.toList.map (migrationFragment .bootstrap))
      ((c.edited path body digest).bootstrap.toList.map (migrationFragment .bootstrap)) := by
    show List.Forall₂ _ _ (((c.bootstrap.map _).toList).map _)
    rw [Option.toList_map]
    refine forall₂_map fun file hfile => .migrationFragment _ hpath ?_
    rw [((hread.ofTree.bootstrap file).1 (Option.mem_toList.1 hfile)).1]
    exact isSqlIn_bootstrapPath root
  have hmigrations : List.Forall₂ (Recompiled folder path body digest)
      (c.migrations.map (migrationFragment .migrations))
      ((c.edited path body digest).migrations.map (migrationFragment .migrations)) :=
    forall₂_map fun file hfile => .migrationFragment _ hpath
      ((hread.ofTree.migrations file).1 hfile).1.1.isSqlIn
  have hparts : List.Forall₂ (fun part part' : Stage × List Fragment =>
      List.Forall₂ (Recompiled folder path body digest) part.2 part'.2) c.parts
      (c.edited path body digest).parts :=
    .cons (hfixed rfl) <| .cons (hfixed rfl) <| .cons hbootstrap <| .cons (hpass _ _ _) <|
      .cons (hpass _ _ _) <| .cons hmigrations <| .cons (hpass _ _ _) <| .cons (hfixed rfl) <|
      .cons (hpass _ _ _) <| .cons (hpass _ _ _) .nil
  exact List.rel_flatMap hparts fun _ _ h => h

/-! ## How often a file comes -/

theorem ReadFrom.exists_object {kind : ObjectKind} (hread : c.ReadFrom d root)
    (hin : IsSqlIn (root.child kind.folder) path) (hfile : d.isFile path = .ok true) :
    ∃ file ∈ c.objects kind, file.path = path := by
  obtain ⟨hsuffix, name, rfl⟩ := hin
  obtain ⟨paths, hpaths, hfiles⟩ := Outcome.bind_eq_ok.1 (hread.objects kind)
  have hmem := mem_list_of_isFile hpaths (onward_of_suffix hsuffix) hsuffix hfile
  rw [← paths_of_mapM hfiles] at hmem
  exact List.mem_map.1 hmem

theorem ReadFrom.exists_migration (hread : c.ReadFrom d root)
    (hin : IsSqlIn (root.child Layout.migrations) path) (hfile : d.isFile path = .ok true) :
    ∃ file ∈ c.allMigrations, file.path = path := by
  obtain ⟨hsuffix, name, rfl⟩ := hin
  by_cases hbootstrap : name.text = Layout.bootstrap
  · rw [hbootstrap] at hfile ⊢
    obtain ⟨there, hthere, hpath⟩ := bootstrapPath?_eq_ok.1 hread.bootstrapPath
    obtain rfl : there = true := Except.ok.inj (hthere.symm.trans hfile)
    obtain ⟨file, hsome, hfilePath⟩ := Option.map_eq_some_iff.1 hpath
    exact ⟨file, List.mem_append_left _ (Option.mem_toList.2 hsome), hfilePath⟩
  · obtain ⟨paths, hpaths, hfiles⟩ := hread.migrations
    obtain ⟨listed, hlisted, rfl⟩ := migrationPaths_eq_ok.1 hpaths
    have hmem := mem_list_of_isFile hlisted (onward_of_suffix hsuffix) hsuffix hfile
    have hother : ((root.child Layout.migrations).child name.text).name ≠ Layout.bootstrap := by
      rwa [Path.name_child]
    have hchosen : (root.child Layout.migrations).child name.text ∈
        listed.filter (·.name != Layout.bootstrap) :=
      List.mem_filter.2 ⟨hmem, bne_iff_ne.2 hother⟩
    rw [← paths_of_mapM hfiles] at hchosen
    obtain ⟨file, hfileMem, hfilePath⟩ := List.mem_map.1 hchosen
    exact ⟨file, List.mem_append_right _ hfileMem, hfilePath⟩

/-- A fragment that takes in a file has the source of the file in its folder, which is
not that of the seeds. -/
theorem FragmentOf.exists_folder {file : SqlFile} (hc : c.OfTree d root) (h : c.FragmentOf file f) :
    ∃ folder : Artifact.Folder, f.origin = some (folder.source file.path) ∧
      IsSqlIn (root.child folder.name) file.path ∧ folder ≠ .seeds := by
  cases h with
  | bootstrap hfile =>
    refine ⟨.migrations, origin_migrationFragment _ _, ?_, nofun⟩
    rw [((hc.bootstrap file).1 hfile).1]
    exact isSqlIn_bootstrapPath root
  | migration hfile =>
    have hlisted := ((hc.migrations file).1 hfile).1.1
    exact ⟨.migrations, origin_migrationFragment _ _, hlisted.isSqlIn, nofun⟩
  | @object kind _ _ hfile hf =>
    obtain ⟨⟨records, stage⟩, _, rfl⟩ := List.mem_map.1 hf
    obtain ⟨hlisted, _, _, hname, _⟩ := (hc.objects kind file).1 hfile
    refine ⟨.objects kind, ?_, hlisted.isSqlIn, nofun⟩
    rw [origin_objectFragment, hname]
    rfl

theorem origin_of_fixed (h : f ∈ [opening, tables, check]) : f.origin = none := by
  simp only [List.mem_cons, List.not_mem_nil, or_false] at h
  rcases h with rfl | rfl | rfl <;> rfl

theorem length_ofSource (hread : c.ReadFrom d root) (hpath : IsSqlIn (root.child folder.name) path)
    (hfile : d.isFile path = .ok true) :
    (ofSource (folder.source path) c.fragments).length = folder.passes := by
  cases folder with
  | migrations =>
    obtain ⟨file, hmem, rfl⟩ := hread.exists_migration hpath hfile
    have hone := filter_key_of_nodup (allMigrations_nodup hread.ofTree) hmem
    rw [allMigrations, List.filter_append] at hone
    show (ofSource (sourceOf Layout.migrations file.path.name) c.fragments).length = 1
    rw [ofSource_migration, List.length_append, List.length_map, List.length_map,
      ← List.length_append, hone]
    rfl
  | seeds =>
    refine List.length_eq_zero_iff.2 (List.filter_eq_nil_iff.2 fun f hf horigin => ?_)
    rw [decide_eq_true_eq] at horigin
    rcases fragment_cases hf with hfixed | ⟨file, hfragment⟩
    · rw [origin_of_fixed hfixed] at horigin
      cases horigin
    · obtain ⟨folder, hsource, hin, hne⟩ := hfragment.exists_folder hread.ofTree
      have hsame : file.path = path := Folder.source_injective folder .seeds hin hpath
        (Option.some.inj (hsource.symm.trans horigin))
      exact hne (Folder.eq_of_isSqlIn folder .seeds hin (hsame ▸ hpath))
  | objects kind =>
    obtain ⟨file, hmem, rfl⟩ := hread.exists_object hpath hfile
    obtain ⟨_, _, _, hname, _⟩ := (hread.ofTree.objects kind file).1 hmem
    show (ofSource (sourceOf kind.folder file.path.stem) c.fragments).length = _
    rw [← hname, ofSource_of_mem_objects hmem, Ledger.fragmentsOf, List.length_map]
    cases kind <;> rfl

end Contents

/-! ## Scripts -/

/-- When one artifact has other bytes that are text, the script is the same fragment by
fragment but for those of its source, of which there are as many as passes over its
folder.  They have the new body, and those of an object the digest of the new bytes in
place of the old one. -/
theorem recompiled_of_edited (hs : assemble d root = .ok s)
    (hpath : IsSqlIn (root.child folder.name) path) (hedited : d.Edited path data e)
    (hbody : Utf8.decode data = .ok body) :
    ∃ s', assemble e root = .ok s' ∧ s'.tag = s.tag ∧
      List.Forall₂ (Recompiled folder path body (Md5.hexDigest data)) s.fragments s'.fragments ∧
      List.Forall₂ (Recompiled folder path body (Md5.hexDigest data)) s.ordered s'.ordered ∧
      (ofSource (folder.source path) s.ordered).length = folder.passes := by
  obtain ⟨c, hread, rfl⟩ := Contents.exists_of_assemble hs
  have hreread := hread.edited hedited hpath hbody
  have hfragments := Contents.recompiled_fragments body (Md5.hexDigest data) hread hpath
  obtain ⟨place, old, hplace, hold, _⟩ := hedited.file
  have hfile : d.isFile path = .ok true :=
    Disk.isFile_eq_true.2 ⟨_, Disk.find_eq_ok.2 ⟨place, hplace, hold⟩, rfl⟩
  have hordered : ∀ c : Contents, Script.ordered ⟨schemaTag, c.fragments⟩ = c.fragments :=
    fun c => c.ordered_of_fragments rfl
  refine ⟨_, Contents.assemble_of_readFrom hreread, rfl, hfragments, ?_, ?_⟩
  · rw [hordered, hordered]
    exact hfragments
  · rw [hordered]
    exact Contents.length_ofSource hread hpath hfile

/-- The function of the tree of one function and one migration. -/
def separatedFunction : Path :=
  (databaseRoot.child ObjectKind.function.folder).child "f.sql".text

theorem recompiled_of_separated :
    ∃ s e s', assemble ⟨separatedTree, []⟩ databaseRoot = .ok s ∧
      IsSqlIn (databaseRoot.child (Artifact.Folder.objects .function).name) separatedFunction ∧
      Disk.Edited ⟨separatedTree, []⟩ separatedFunction (Utf8.encode separatedBody) e ∧
      Utf8.decode (Utf8.encode separatedBody) = .ok separatedBody ∧
      assemble e databaseRoot = .ok s' ∧
      List.Forall₂ (Recompiled (.objects .function) separatedFunction separatedBody
        (Md5.hexDigest (Utf8.encode separatedBody))) s.fragments s'.fragments ∧
      (ofSource "functions/f".text s.ordered).length = 2 := by
  obtain ⟨t, ht⟩ := exists_build_separated
  obtain ⟨s, hs, _⟩ := build_eq_ok.1 ht
  have hread : Disk.read ⟨separatedTree, []⟩ separatedFunction =
      .ok (Utf8.encode "CREATE FUNCTION f()\n\n  RETURNS int;\n".text) := by rfl
  obtain ⟨e, _, hedited⟩ := Disk.exists_edited hread (Utf8.encode separatedBody)
  have hin : IsSqlIn (databaseRoot.child (Artifact.Folder.objects .function).name)
      separatedFunction := ⟨by decide, "f.sql".name, by decide +kernel⟩
  have hbody : Utf8.decode (Utf8.encode separatedBody) = .ok separatedBody :=
    Utf8.decode_encode_text _
  obtain ⟨s', hs', _, hfragments, _, hlength⟩ := recompiled_of_edited hs hin hedited hbody
  exact ⟨s, e, s', hs, hin, hedited, hbody, hs', hfragments, hlength⟩

end Script
end SchemaLedger
