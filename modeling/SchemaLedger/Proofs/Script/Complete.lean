import SchemaLedger.Proofs.Artifact.Tidy
import SchemaLedger.Proofs.Script.Recording
import SchemaLedger.Proofs.Text.Utf8

/-!
# Trees that can be compiled

On a tidy disk nothing about an artifact file keeps a tree from being compiled.
What is left is what keeps a path from being looked at: it is too long, or it leads
through something sealed.  Nothing is sealed where nothing was, and then the scripts
exist exactly when each of the paths is short enough.
-/

namespace SchemaLedger

namespace Disk

variable {d : Disk} {p : Path} {place : Location}

/-- Only a length, or something sealed, keeps a look at a path from being answered. -/
theorem exists_find? (hpath : ShortPath p) (hnames : ∀ name ∈ p.names, ShortName name)
    (hopen : ¬Shut d p) : ∃ found, d.find? p = .ok found := by
  cases husable : p.text.unusable? with
  | some reason =>
    refine ⟨none, find?_eq_ok_none.2 (.inl ⟨reason, ?_⟩)⟩
    rw [find, locate_of_unusable husable]
    rfl
  | none =>
    have htaken : TakenPath p := takenPath_iff.2 ⟨husable, hpath⟩
    cases hwalk : walk d.tree (d.start p) p.names with
    | error r =>
      have hlocate : d.locate p = .error (refused p r) := by
        rw [locate_of_taken htaken, hwalk]
        rfl
      have hr : r = .noEntry ∨ r = .notFolder := by
        rcases walk_refusal hwalk with hr | hr | ⟨_, name, hname, hlong⟩ | ⟨_, hshut⟩
        · exact .inl hr
        · exact .inr hr
        · exact absurd (hnames name hname) hlong
        · exact absurd hshut hopen
      refine ⟨none, find?_eq_ok_none.2 (.inr ⟨⟨r, p.text⟩, ?_, hr⟩)⟩
      rw [find, hlocate]
      rfl
    | ok place =>
      have hlocate := locate_eq_ok.2 ⟨htaken, hwalk⟩
      cases hplace : d.tree.at? place with
      | none =>
        refine ⟨none, find?_eq_ok_none.2 (.inr ⟨⟨.noEntry, p.text⟩, ?_, .inl rfl⟩)⟩
        rw [find, Outcome.bind_of_ok hlocate, hplace]
        rfl
      | some entry => exact ⟨some entry, find?_eq_ok_some.2 (find_eq_ok.2 ⟨place, hlocate, hplace⟩)⟩

theorem exists_isFile (hpath : ShortPath p) (hnames : ∀ name ∈ p.names, ShortName name)
    (hopen : ¬Shut d p) : ∃ isFile, d.isFile p = .ok isFile := by
  obtain ⟨found, hfound⟩ := exists_find? hpath hnames hopen
  exact ⟨_, Outcome.map_eq_ok.2 ⟨found, hfound, rfl⟩⟩

theorem shortNames_of_walk {t : Tree} {start : Location} {names : List Text}
    (h : walk t start names = .ok place) : ∀ name ∈ names, ShortName name := by
  induction names using List.reverseRecOn generalizing place with
  | nil => exact nofun
  | append_singleton names name ih =>
    obtain ⟨above, habove, _, hshort, _⟩ := walk_concat.1 h
    intro n hn
    rcases List.mem_append.1 hn with hn | hn
    · exact ih habove n hn
    · rw [List.mem_singleton.1 hn]
      exact hshort

end Disk

namespace Artifact

open Disk

variable {d : Disk} {folder path : Path} {old : Tree}

/-- A new file on a tidy disk can be read. -/
theorem exists_read {root : Path} {top : Location} {folder name : Text} (h : Tidy old d)
    (hroot : d.locate root = .ok top) (hfolder : folder ≠ [.char '.', .char '.'])
    (hsuffix : ((root.child folder).child name).suffix = Layout.suffix)
    (hfile : d.isFile ((root.child folder).child name) = .ok true)
    (hnew : ∀ entry, old.at? (.ofText name :: .ofText folder :: top) = some entry →
      entry.isFile = false) : ∃ file, read d ((root.child folder).child name) = .ok file := by
  obtain ⟨entry, hfind, hentry⟩ := isFile_eq_true.1 hfile
  obtain ⟨target, htarget, hthere⟩ := find_eq_ok.1 hfind
  obtain ⟨other, hother, rfl⟩ :=
    exists_top_of_locate hfolder (onward_of_suffix hsuffix) htarget
  obtain rfl : top = other := Except.ok.inj ((locate_eq_ok.1 hroot).2.symm.trans hother)
  have hother : entry ≠ .folder := by
    rintro rfl
    cases hentry
  rcases (h.proper _ _ hthere).own hother with
    hold | ⟨stem, above, content, hplace, hstem, husable, rfl, hplain⟩
  · rw [hnew entry hold] at hentry
    cases hentry
  · have hpath := Text.unusable?_eq_none.1 (locate_eq_ok.1 htarget).1.1
    have hname : Name.ofText ((root.child folder).child name).name =
        .ofText (Layout.fileName stem) := by
      rw [Path.name_child]
      exact (List.cons.inj hplace).1
    have hnamed := nameOf_of_ofText hsuffix
      (Path.name_child _ _ ▸ (Path.usable_child.1 hpath).2) hname hstem husable
    exact ⟨⟨(root.child folder).child name, _, content, Md5.hexDigest (Utf8.encode content)⟩,
      read_eq_ok.2 ⟨hnamed, rfl, _, Disk.read_eq_ok.2 hfind, rfl, Utf8.decode_encode hplain, rfl⟩⟩

/-- Every path that a script of the tree looks at is short enough. -/
structure Fits (d : Disk) (root : Path) : Prop where
  bootstrap : ShortPath (bootstrapPath root)
  folders : ∀ folder ∈ initialFolders, ShortPath (root.child folder)
  files : ∀ folder ∈ initialFolders, ∀ names, d.list (root.child folder) = .ok names →
    ∀ name ∈ names, ShortPath ((root.child folder).child name)

variable {root : Path}

theorem fits_iff : Fits d root ↔ ShortPath (bootstrapPath root) ∧
    ∀ folder ∈ initialFolders, ShortPath (root.child folder) ∧
      ∀ name ∈ (d.list (root.child folder)).toOption.getD [],
        ShortPath ((root.child folder).child name) := by
  constructor
  · rintro ⟨hbootstrap, hfolders, hfiles⟩
    refine ⟨hbootstrap, fun folder hfolder => ⟨hfolders folder hfolder, fun name hname => ?_⟩⟩
    cases hlist : d.list (root.child folder) with
    | error fault =>
      rw [hlist] at hname
      cases hname
    | ok names =>
      rw [hlist] at hname
      exact hfiles folder hfolder names hlist name hname
  · rintro ⟨hbootstrap, hfolders⟩
    refine ⟨hbootstrap, fun folder hfolder => (hfolders folder hfolder).1, ?_⟩
    intro folder hfolder names hlist name hname
    have hfiles := (hfolders folder hfolder).2 name
    rw [hlist] at hfiles
    exact hfiles hname

instance (d : Disk) (root : Path) : Decidable (Fits d root) :=
  decidable_of_iff' _ fits_iff

theorem fits_of_listed (hbootstrap : ∃ isFile, d.isFile (bootstrapPath root) = .ok isFile)
    (hlist : ∀ folder ∈ initialFolders, ∃ paths, list d (root.child folder) = .ok paths) :
    Fits d root := by
  obtain ⟨_, hbootstrap⟩ := hbootstrap
  refine ⟨shortPath_of_isFile hbootstrap, fun folder hfolder => ?_,
    fun folder hfolder names hnames name hname => ?_⟩
  · obtain ⟨_, hisFolder⟩ := isFolder_of_exists_list (hlist folder hfolder)
    exact shortPath_of_isFolder hisFolder
  · obtain ⟨_, hisFile⟩ := isFile_of_exists_list (hlist folder hfolder) hnames name hname
    exact shortPath_of_isFile hisFile

theorem shortName_of_mem_initialFolders : ∀ folder ∈ initialFolders, ShortName folder := by
  decide

/-- Neither the root nor a folder in it is sealed. -/
structure Unsealed (d : Disk) (root : Path) : Prop where
  atRoot : d.find root ≠ .ok .sealed
  atFolder : ∀ folder ∈ initialFolders, d.find (root.child folder) ≠ .ok .sealed

/-- Where the old root and what was in it were not sealed, the new ones are not. -/
theorem unsealed_of_tidy {top : Location} (h : Tidy old d) (hroot : d.locate root = .ok top)
    (htop : old.at? top ≠ some .sealed) (hin : ∀ folder, old.at? (folder :: top) ≠ some .sealed) :
    Unsealed d root := by
  refine ⟨fun hsealed => ?_, fun folder hfolder hsealed => ?_⟩
  · obtain ⟨place, hplace, hsealed⟩ := find_eq_ok.1 hsealed
    obtain rfl := Except.ok.inj (hroot.symm.trans hplace)
    exact htop (h.at?_sealed hsealed)
  · obtain ⟨place, hplace, hsealed⟩ := find_eq_ok.1 hsealed
    obtain ⟨above, habove, _, _, rfl⟩ := walk_concat.1 (walk_of_locate hplace)
    obtain rfl := Except.ok.inj ((walk_of_locate hroot).symm.trans habove)
    rw [stepTo, if_neg (initialFolders_onward folder hfolder)] at hsealed
    exact hin _ (h.at?_sealed hsealed)

/-- Nothing at a place keeps what is made there from being compiled: no file lies two names
below it, and neither the place nor anything in it is sealed. -/
structure Vacant (t : Tree) (top : Location) : Prop where
  noFile : ∀ name folder entry, t.at? (name :: folder :: top) = some entry → entry.isFile = false
  unsealed : t.at? top ≠ some .sealed
  unsealedIn : ∀ name, t.at? (name :: top) ≠ some .sealed

theorem vacant_of_absent {t : Tree} {top : Location} (h : t.at? top = none) : Vacant t top := by
  have hbelow : ∀ place, top <:+ place → ∀ entry, t.at? place ≠ some entry :=
    fun place hplace entry hentry => by
      rw [Tree.at?_eq_none_of_suffix hplace h] at hentry
      cases hentry
  exact ⟨fun name folder entry hentry => absurd hentry (hbelow _ ⟨[name, folder], rfl⟩ entry),
    hbelow _ List.suffix_rfl _, fun name => hbelow _ ⟨[name], rfl⟩ _⟩

namespace Fits

variable {top : Location}

theorem shortNames (hroot : d.locate root = .ok top) {folder name : Text}
    (hfolder : folder ∈ initialFolders) (hname : ShortName name) :
    ∀ n ∈ ((root.child folder).child name).names, ShortName n := by
  have hnames := shortNames_of_walk (locate_eq_ok.1 hroot).2
  intro n hn
  simp only [Path.child, List.append_assoc, List.mem_append, List.mem_cons,
    List.not_mem_nil, or_false, List.cons_append, List.nil_append] at hn
  rcases hn with hn | rfl | rfl
  · exact hnames n hn
  · exact shortName_of_mem_initialFolders n hfolder
  · exact hname

/-- Nothing on the way to a folder of the tree is sealed. -/
theorem not_shut_folder (hopen : Unsealed d root) (hroot : d.locate root = .ok top)
    (folder : Text) : ¬Shut d (root.child folder) := by
  intro hshut
  rcases shut_child hshut with hshut | ⟨place, hplace, hsealed⟩
  · exact not_shut_of_locate hroot hshut
  · have hlocate := locate_eq_ok.2 ⟨(locate_eq_ok.1 hroot).1, hplace⟩
    exact hopen.atRoot (find_eq_ok.2 ⟨place, hlocate, hsealed⟩)

/-- Nothing on the way to a file of the tree is sealed. -/
theorem not_shut_file (h : Fits d root) (hopen : Unsealed d root)
    (hroot : d.locate root = .ok top) {folder : Text} (hfolder : folder ∈ initialFolders)
    (name : Text) : ¬Shut d ((root.child folder).child name) := by
  intro hshut
  rcases shut_child hshut with hshut | ⟨place, hplace, hsealed⟩
  · exact not_shut_folder hopen hroot folder hshut
  · have htaken := takenPath_child hroot (initialFolders_usable folder hfolder)
      (h.folders folder hfolder)
    have hlocate := locate_eq_ok.2 ⟨htaken, hplace⟩
    exact hopen.atFolder folder hfolder (find_eq_ok.2 ⟨place, hlocate, hsealed⟩)

theorem exists_bootstrap (h : Fits d root) (hopen : Unsealed d root)
    (hroot : d.locate root = .ok top) : ∃ isFile, d.isFile (bootstrapPath root) = .ok isFile :=
  exists_isFile h.bootstrap
    (shortNames hroot migrations_mem_initialFolders (show ShortName Layout.bootstrap by decide))
    (h.not_shut_file hopen hroot migrations_mem_initialFolders _)

theorem exists_list (h : Fits d root) (hopen : Unsealed d root) (htidy : Tidy old d)
    (hroot : d.locate root = .ok top) {folder : Text} (hfolder : folder ∈ initialFolders) :
    ∃ paths, list d (root.child folder) = .ok paths := by
  have hfolderNames : ∀ n ∈ (root.child folder).names, ShortName n := fun n hn =>
    shortNames hroot hfolder (shortName_of_mem_initialFolders folder hfolder) n
      (List.mem_append_left _ hn)
  obtain ⟨found, hfound⟩ := exists_find? (h.folders folder hfolder) hfolderNames
    (not_shut_folder hopen hroot folder)
  rw [exists_list_iff]
  cases hisFolder : found.any Entry.isFolder with
  | false => exact .inl (Outcome.map_eq_ok.2 ⟨found, hfound, hisFolder⟩)
  | true =>
    obtain ⟨entry, rfl, hentry⟩ := (Option.any_eq_true _ _).1 hisFolder
    have hfind := find?_eq_ok_some.1 hfound
    cases entry with
    | file data => cases hentry
    | locked => cases hentry
    | sealed => exact absurd hfind (hopen.atFolder folder hfolder)
    | folder =>
      obtain ⟨place, hplace, hthere⟩ := find_eq_ok.1 hfind
      have hnames := Disk.list_eq_ok.2 ⟨place, hplace, hthere, rfl⟩
      refine .inr ⟨_, hnames, fun name hname => ?_⟩
      refine exists_isFile (h.files folder hfolder _ hnames name hname) ?_
        (h.not_shut_file hopen hroot hfolder name)
      obtain ⟨other, hother, rfl⟩ := List.mem_map.1 hname
      obtain ⟨inner, hinner⟩ := Option.ne_none_iff_exists'.1 (Tree.mem_names.1 hother)
      have hshort := (htidy.proper _ _ hinner).short other List.mem_cons_self
      exact shortNames hroot hfolder (shortName_text hshort)

end Fits

/-- The files of a folder, as far as they are new, are all read. -/
theorem exists_mapM_read {top : Location} (h : Tidy old d) (hroot : d.locate root = .ok top)
    (folder : Text) (hfolder : folder ≠ [.char '.', .char '.']) {paths : List Path}
    (hpaths : ∀ path ∈ paths, IsListed d (root.child folder) path ∧ d.isFile path = .ok true)
    (hnew : ∀ name entry, old.at? (name :: .ofText folder :: top) = some entry →
      entry.isFile = false) : ∃ files, paths.mapM (read d) = .ok files := by
  refine Outcome.exists_mapM fun path hpath => ?_
  obtain ⟨⟨hsuffix, _, _, name, _, rfl⟩, hfile⟩ := hpaths path hpath
  exact exists_read h hroot hfolder hsuffix hfile (hnew _)

end Artifact

namespace Script

open Disk Artifact

variable {d : Disk} {root : Path} {old : Tree} {top : Location}

namespace Contents

theorem ReadFrom.ofBootstrap {c : Contents} (h : c.ReadFrom d root) :
    Script.ofBootstrap d root = .ok (c.bootstrap.toList.map (migrationFragment .bootstrap)) := by
  rw [Script.ofBootstrap, Outcome.bind_of_ok h.bootstrapPath]
  cases hbootstrap : c.bootstrap with
  | none => rfl
  | some file => exact Outcome.bind_of_ok (h.bootstrap file hbootstrap) _

/-- What can be read can be applied. -/
theorem assemble_of_readFrom {c : Contents} (h : c.ReadFrom d root) :
    assemble d root = .ok ⟨schemaTag, c.fragments⟩ := by
  obtain ⟨paths, hpaths, hmigrations⟩ := h.migrations
  have hmigrations : ofMigrations d root =
      .ok (c.migrations.map (migrationFragment .migrations)) := by
    rw [ofMigrations, Outcome.bind_of_ok hpaths, Outcome.bind_of_ok hmigrations]
    rfl
  have hviews : ofFolder d (root.child ObjectKind.view.folder) ObjectKind.view.table true .views =
      .ok (c.pass .view true .views) := by
    rw [ofFolder, Outcome.bind_of_ok (h.objects .view), Path.name_child]
    rfl
  rw [assemble, Outcome.bind_of_ok h.isFolder, Outcome.bind_of_ok (h.objects .function),
    Outcome.bind_of_ok (h.objects .trigger), Outcome.bind_of_ok h.ofBootstrap,
    Outcome.bind_of_ok hmigrations, Outcome.bind_of_ok hviews]
  simp only [fragments, parts, pass, List.flatMap_cons, List.flatMap_nil, List.append_assoc,
    List.append_nil]
  rfl

theorem exists_assemble_iff :
    (∃ s, assemble d root = .ok s) ↔ ∃ c : Contents, c.ReadFrom d root := by
  constructor
  · rintro ⟨s, hs⟩
    obtain ⟨c, hc, _⟩ := exists_of_assemble hs
    exact ⟨c, hc⟩
  · rintro ⟨c, hc⟩
    exact ⟨_, assemble_of_readFrom hc⟩

/-- What was looked at could be looked at. -/
theorem fits_of_looked {path? : Option Path} {paths : List Path}
    {objects : ObjectKind → List SqlFile} (hbootstrap : bootstrapPath? d root = .ok path?)
    (hpaths : migrationPaths d root = .ok paths)
    (hobjects : ∀ kind, readAll d (root.child kind.folder) = .ok (objects kind)) : Fits d root := by
  obtain ⟨isFile, hisFile, _⟩ := bootstrapPath?_eq_ok.1 hbootstrap
  refine fits_of_listed ⟨isFile, hisFile⟩ fun folder hfolder => ?_
  rcases List.mem_cons.1 hfolder with rfl | hfolder
  · obtain ⟨listed, hlisted, _⟩ := migrationPaths_eq_ok.1 hpaths
    exact ⟨listed, hlisted⟩
  · obtain ⟨kind, _, rfl⟩ := List.mem_map.1 hfolder
    obtain ⟨listed, hlisted, _⟩ := Outcome.bind_eq_ok.1 (hobjects kind)
    exact ⟨listed, hlisted⟩

theorem ReadFrom.fits {c : Contents} (h : c.ReadFrom d root) : Fits d root := by
  obtain ⟨paths, hpaths, _⟩ := h.migrations
  exact fits_of_looked h.bootstrapPath hpaths h.objects

/-- A tidy tree whose files are new and whose paths can be looked at is read. -/
theorem exists_readFrom (h : Tidy old d) (hroot : d.isFolder root = .ok true)
    (hfits : Fits d root) (hvacant : ∀ top, d.locate root = .ok top → Vacant old top) :
    ∃ c : Contents, c.ReadFrom d root := by
  obtain ⟨top, htop⟩ := exists_locate_of_isFolder hroot
  have hnew := (hvacant top htop).noFile
  have hopen := unsealed_of_tidy h htop (hvacant top htop).unsealed (hvacant top htop).unsealedIn
  have hobjects : ∀ kind : ObjectKind, ∃ files, readAll d (root.child kind.folder) = .ok files := by
    intro kind
    obtain ⟨paths, hpaths⟩ := hfits.exists_list hopen h htop (folder_mem_initialFolders kind)
    obtain ⟨files, hfiles⟩ := exists_mapM_read h htop _ (folder_onward kind)
      (fun path hpath => (mem_list hpaths).1 hpath) fun name => hnew name _
    exact ⟨files, Outcome.bind_eq_ok.2 ⟨paths, hpaths, hfiles⟩⟩
  choose objects hobjects using hobjects
  obtain ⟨listed, hlisted⟩ := hfits.exists_list hopen h htop migrations_mem_initialFolders
  have hpaths : migrationPaths d root = .ok (listed.filter (·.name != Layout.bootstrap)) :=
    migrationPaths_eq_ok.2 ⟨listed, hlisted, rfl⟩
  obtain ⟨migrations, hmigrations⟩ := exists_mapM_read h htop Layout.migrations (by decide)
    (fun path hpath => (mem_list hlisted).1 (List.mem_of_mem_filter hpath))
    fun name => hnew name _
  obtain ⟨there, hthere⟩ := hfits.exists_bootstrap hopen htop
  obtain ⟨bootstrap, hbootstrapPath, hbootstrap⟩ : ∃ bootstrap : Option SqlFile,
      bootstrapPath? d root = .ok (bootstrap.map SqlFile.path) ∧
        ∀ file, bootstrap = some file → Artifact.read d file.path = .ok file := by
    cases there with
    | false => exact ⟨none, bootstrapPath?_eq_ok.2 ⟨false, hthere, rfl⟩, nofun⟩
    | true =>
      obtain ⟨file, hfile⟩ := exists_read h htop (by decide)
        (suffix_fileName recordable_bootstrap.ne_nil _) hthere (hnew _ _)
      obtain ⟨_, hpath, _⟩ := read_eq_ok.1 hfile
      refine ⟨some file, bootstrapPath?_eq_ok.2 ⟨true, hthere, congrArg some hpath⟩, ?_⟩
      rintro _ ⟨⟩
      rwa [hpath]
  exact ⟨⟨bootstrap, migrations, objects, names_nodup hbootstrapPath hbootstrap hpaths hmigrations,
    fun kind => names_nodup_of_readAll (hobjects kind)⟩,
    ⟨by rw [requireRoot, Outcome.bind_of_ok (unreported_eq_ok.2 hroot)]; rfl, hbootstrapPath,
      hbootstrap, ⟨_, hpaths, hmigrations⟩, hobjects⟩⟩

/-- Both scripts of a tidy tree whose files are new exist exactly when all its paths are
short enough. -/
theorem exists_scripts_iff_fits (h : Tidy old d) (hroot : d.isFolder root = .ok true)
    (hvacant : ∀ top, d.locate root = .ok top → Vacant old top) :
    ((∃ s, assemble d root = .ok s) ↔ Fits d root) ∧
      ((∃ s, assembleRecording d root = .ok s) ↔ Fits d root) := by
  refine ⟨⟨fun hs => ?_, fun hfits => ?_⟩, ⟨?_, fun hfits => ?_⟩⟩
  · obtain ⟨c, hc⟩ := exists_assemble_iff.1 hs
    exact hc.fits
  · exact exists_assemble_iff.2 (exists_readFrom h hroot hfits hvacant)
  · rintro ⟨s, hs⟩
    obtain ⟨_, _, _, _, _, _, hbootstrap, _, hpaths, _, hobjects, _⟩ := assembleRecording_eq_ok.1 hs
    exact fits_of_looked hbootstrap hpaths hobjects
  · obtain ⟨c, hc⟩ := exists_readFrom h hroot hfits hvacant
    exact ⟨_, assembleRecording_of_readFrom hc⟩

end Contents
end Script
end SchemaLedger
