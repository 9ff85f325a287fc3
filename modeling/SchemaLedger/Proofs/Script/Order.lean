import SchemaLedger.Proofs.Artifact.Added
import SchemaLedger.Proofs.Script.Rereading
import SchemaLedger.Proofs.Script.Variant

/-!
# The order of a script

What a script runs first and what it runs last is settled by the folders of the
tree and the names of the files in them.  The order in which a folder happens to
be listed is lost when the list is sorted, because no two files of a folder have
the same name.
-/

namespace SchemaLedger

/-! ## Listing in another order -/

namespace Tree

theorem at?_eq_of_perm {t u : Tree} (h : t.entries.Perm u.entries) (place : Location) :
    t.at? place = u.at? place := by
  by_cases hne : place = []
  · rw [hne]
    rfl
  · refine Option.ext fun entry => ?_
    constructor
    · exact fun ht => at?_of_mem hne (h.mem_iff.1 (mem_of_at? hne ht))
    · exact fun hu => at?_of_mem hne (h.mem_iff.2 (mem_of_at? hne hu))

end Tree

namespace Disk

/-- The same disk, listed in another order. -/
structure Relisted (d e : Disk) : Prop where
  working : d.working = e.working
  entries : d.tree.entries.Perm e.tree.entries

namespace Relisted

variable {d e : Disk}

theorem symm (h : d.Relisted e) : e.Relisted d :=
  ⟨h.working.symm, h.entries.symm⟩

theorem sameShape (h : d.Relisted e) : d.SameShape e :=
  ⟨h.working, fun place => by rw [Tree.at?_eq_of_perm h.entries]⟩

theorem read (h : d.Relisted e) (p : Path) : d.read p = e.read p := by
  have hfind : d.find p = e.find p := by
    unfold Disk.find
    rw [h.sameShape.locate p]
    exact congrArg _ (funext fun place => by rw [Tree.at?_eq_of_perm h.entries])
  unfold Disk.read
  rw [hfind]

end Relisted

end Disk

namespace Artifact

open Disk

variable {d e : Disk} {folder path : Path} {paths : List Path} {files : List SqlFile}

theorem read_of_relisted (h : d.Relisted e) (path : Path) : read d path = read e path := by
  unfold read
  rw [h.read path]

theorem readAll_of_relisted (h : d.Relisted e) (hread : readAll d folder = .ok files) :
    readAll e folder = .ok files := by
  obtain ⟨paths, hpaths, hfiles⟩ := Outcome.bind_eq_ok.1 hread
  refine Outcome.bind_eq_ok.2 ⟨paths, list_congr h.sameShape hpaths, ?_⟩
  rw [← hfiles]
  exact Outcome.mapM_congr fun path _ => (read_of_relisted h path).symm

/-! ## Stems of a folder -/

/-- The stems of the files of SQL in a folder, each once, in the code-point order of
the names of the files. -/
structure StemsOf (d : Disk) (folder : Path) (stems : List Text) : Prop where
  increasing : (stems.map Layout.fileName).Pairwise (· < ·)
  mem : ∀ stem, stem ∈ stems ↔ stem ≠ [] ∧ ∃ name : Name, name.text = Layout.fileName stem ∧
    ∃ place entry, d.locate folder = .ok place ∧ d.tree.at? (name :: place) = some entry ∧
      entry.isFile = true

/-- A listed folder is in the code-point order of names, without repetition. -/
theorem stemsOf_list (h : list d folder = .ok paths) :
    StemsOf d folder (paths.map Path.stem) := by
  have hnames : (paths.map Path.stem).map Layout.fileName = paths.map Path.name := by
    rw [List.map_map]
    exact List.map_congr_left fun path hpath =>
      (name_of_isListed ((mem_list h).1 hpath).1).symm
  have hinjective : ∀ p ∈ paths, ∀ q ∈ paths, p.name = q.name → p = q := by
    intro p hp q hq hname
    obtain ⟨⟨_, _, _, a, _, rfl⟩, _⟩ := (mem_list h).1 hp
    obtain ⟨⟨_, _, _, b, _, rfl⟩, _⟩ := (mem_list h).1 hq
    rw [Path.name_child, Path.name_child] at hname
    rw [hname]
  refine ⟨?_, fun stem => ⟨fun hstem => ?_, ?_⟩⟩
  · rw [hnames, List.pairwise_map]
    refine ((list_sorted h).and (list_nodup h)).imp_of_mem fun {p q} hp hq hpq => ?_
    exact lt_of_le_of_ne (Text.atMost_eq_true_iff.1 hpq.1) fun hname =>
      hpq.2 (hinjective p hp q hq hname)
  · obtain ⟨path, hpath, rfl⟩ := List.mem_map.1 hstem
    obtain ⟨hlisted, _⟩ := (mem_list h).1 hpath
    obtain ⟨name, rfl, hsuffix, hthere⟩ := (mem_list_iff h).1 hpath
    obtain ⟨entry, hfind, hfile⟩ := Disk.isFile_eq_true.1 hthere
    refine ⟨fun hnil => ?_, ?_⟩
    · -- a name that is a suffix only has no suffix
      have hname := name_of_isListed hlisted
      rw [hnil] at hname
      rw [Path.suffix, hname] at hsuffix
      exact absurd hsuffix (by decide)
    · obtain ⟨place, hplace, hentry⟩ := find_eq_ok.1 hfind
      obtain ⟨htaken, hwalk⟩ := locate_eq_ok.1 hplace
      obtain ⟨inner, hinner, _, _, rfl⟩ := walk_concat.1 hwalk
      have husable := (Path.usable_child.1 (Text.unusable?_eq_none.1 htaken.1)).1
      rw [stepTo, if_neg (onward_of_suffix hsuffix), Name.ofText_text] at hentry
      refine ⟨name, ?_, inner, entry, locate_eq_ok.2 ⟨takenPath_iff.2
        ⟨Text.unusable?_eq_none.2 husable, shortPath_of_list h⟩, hinner⟩, hentry, hfile⟩
      rw [← name_of_isListed hlisted, Path.name_child]
  · rintro ⟨hne, name, hname, place, entry, hplace, hthere, hfile⟩
    have hfolder := Tree.folder_of_inside hthere
    have hlist : d.list folder = .ok ((d.tree.names place).map Name.text) :=
      Disk.list_eq_ok.2 ⟨place, hplace, hfolder, rfl⟩
    have hnamed : name ∈ d.tree.names place := by
      rw [Tree.mem_names, hthere]
      exact Option.some_ne_none _
    obtain ⟨isFile, hisFile⟩ :=
      isFile_of_exists_list ⟨paths, h⟩ hlist _ (List.mem_map_of_mem hnamed)
    obtain ⟨found, hfind⟩ := exists_find_of_mem_names hplace hnamed hisFile
    obtain ⟨other, hother, hentry⟩ := find_eq_ok.1 hfind
    obtain ⟨_, rfl⟩ := eq_stepTo_of_locate_child hplace hother
    have honward : name.text ≠ [.char '.', .char '.'] := hname ▸ fileName_onward stem
    rw [stepTo, if_neg honward, Name.ofText_text, hthere] at hentry
    obtain rfl := Option.some.inj hentry
    refine List.mem_map.2 ⟨folder.child name.text, ?_, hname ▸ stem_fileName hne folder⟩
    exact mem_list_of_isFile h honward (hname ▸ suffix_fileName hne folder)
      (Disk.isFile_eq_true.2 ⟨entry, hfind, hfile⟩)

end Artifact

namespace Script

open Artifact

variable {d e : Disk} {root : Path} {s : Script}

/-! ## Sources -/

/-- The sources of the files in the folder of a kind. -/
def objectSources (stems : Text → List Text) (kind : ObjectKind) : List Text :=
  (stems kind.folder).map (sourceOf kind.folder)

def bootstrapStem : Text := "00000".text

/-- The sources of a script up to the views, by the stems of the files in each folder. -/
def uncheckedSources (stems : Text → List Text) : List Text :=
  (if (stems Layout.migrations).contains bootstrapStem then
    ["migrations/00000.sql".text] else []) ++
    objectSources stems .function ++ objectSources stems .trigger ++
    ((stems Layout.migrations).filter (· ≠ bootstrapStem)).map
      (fun stem => sourceOf Layout.migrations (Layout.fileName stem)) ++
    objectSources stems .view

/-- The sources behind the views, whose bodies are checked. -/
def checkedSources (stems : Text → List Text) : List Text :=
  objectSources stems .function ++ objectSources stems .trigger

/-- The stems of the files of SQL in a folder of a tree, as far as it can be listed. -/
def listedStems (d : Disk) (root : Path) (folder : Text) : List Text :=
  ((list d (root.child folder)).toOption.getD []).map Path.stem

theorem listedStems_of_list {folder : Text} {paths : List Path}
    (h : list d (root.child folder) = .ok paths) :
    listedStems d root folder = paths.map Path.stem := by
  rw [listedStems, h]
  rfl

namespace Contents

variable {c : Contents}

theorem ReadFrom.exists_list (h : c.ReadFrom d root) :
    ∀ folder ∈ initialFolders, ∃ paths, list d (root.child folder) = .ok paths := by
  intro folder hfolder
  rcases List.mem_cons.1 hfolder with rfl | hfolder
  · obtain ⟨_, hpaths, _⟩ := h.migrations
    obtain ⟨listed, hlisted, _⟩ := migrationPaths_eq_ok.1 hpaths
    exact ⟨listed, hlisted⟩
  · obtain ⟨kind, _, rfl⟩ := List.mem_map.1 hfolder
    obtain ⟨paths, hpaths, _⟩ := Outcome.bind_eq_ok.1 (h.objects kind)
    exact ⟨paths, hpaths⟩

theorem ReadFrom.stemsOf (h : c.ReadFrom d root) :
    ∀ folder ∈ initialFolders, StemsOf d (root.child folder) (listedStems d root folder) := by
  intro folder hfolder
  obtain ⟨paths, hpaths⟩ := h.exists_list folder hfolder
  rw [listedStems_of_list hpaths]
  exact stemsOf_list hpaths

theorem ReadFrom.origins_pass (h : c.ReadFrom d root) (kind : ObjectKind) (records : Bool)
    (stage : Stage) : (c.pass kind records stage).map Fragment.origin =
      (objectSources (listedStems d root) kind).map some := by
  obtain ⟨paths, hpaths, hfiles⟩ := Outcome.bind_eq_ok.1 (h.objects kind)
  have hstems : (c.objects kind).map SqlFile.name = paths.map Path.stem :=
    Outcome.map_eq_map_of_mapM hfiles fun _ _ hread => by
      obtain ⟨_, rfl, _, _, hname, _⟩ := read_eq_ok.1 hread
      exact hname
  rw [objectSources, listedStems_of_list hpaths, ← hstems, pass, List.map_map, List.map_map,
    List.map_map]
  exact List.map_congr_left fun file _ => origin_objectFragment stage kind records file

theorem name_eq_bootstrap_iff {folder path : Path} (h : IsListed d folder path) :
    path.name = Layout.bootstrap ↔ path.stem = bootstrapStem := by
  rw [name_of_isListed h]
  exact fileName_injective.eq_iff (b := bootstrapStem)

theorem ReadFrom.origins_migrations (h : c.ReadFrom d root) :
    (c.migrations.map (migrationFragment .migrations)).map Fragment.origin =
      (((listedStems d root Layout.migrations).filter (· ≠ bootstrapStem)).map
        fun stem => sourceOf Layout.migrations (Layout.fileName stem)).map some := by
  obtain ⟨paths, hpaths, hfiles⟩ := h.migrations
  obtain ⟨listed, hlisted, rfl⟩ := migrationPaths_eq_ok.1 hpaths
  have hfilter : listed.filter (·.name != Layout.bootstrap) =
      listed.filter fun path => decide (path.stem ≠ bootstrapStem) := by
    refine List.filter_congr fun path hpath => ?_
    rw [Bool.eq_iff_iff, bne_iff_ne, decide_eq_true_iff, ne_eq, ne_eq,
      name_eq_bootstrap_iff ((mem_list hlisted).1 hpath).1]
  have hsources : (c.migrations.map (migrationFragment .migrations)).map Fragment.origin =
      (c.migrations.map SqlFile.path).map
        fun path => some (sourceOf Layout.migrations path.name) := by
    rw [List.map_map, List.map_map]
    exact List.map_congr_left fun file _ => origin_migrationFragment .migrations file
  rw [hsources, paths_of_mapM hfiles, hfilter, listedStems_of_list hlisted, List.filter_map,
    List.map_map, List.map_map]
  refine List.map_congr_left fun path hpath => ?_
  have hname := name_of_isListed ((mem_list hlisted).1 (List.mem_of_mem_filter hpath)).1
  simp only [Function.comp_apply, ← hname]

/-- The bootstrap migration is there when it is listed. -/
theorem contains_stems_iff {listed : List Path} {there : Bool}
    (hlisted : list d (root.child Layout.migrations) = .ok listed)
    (hthere : d.isFile (bootstrapPath root) = .ok there) :
    (listed.map Path.stem).contains bootstrapStem = true ↔ there = true := by
  rw [List.contains_iff_mem]
  constructor
  · intro hmem
    obtain ⟨path, hpath, hstem⟩ := List.mem_map.1 hmem
    obtain ⟨hpathListed, hfile⟩ := (mem_list hlisted).1 hpath
    have hname := (name_eq_bootstrap_iff hpathListed).2 hstem
    obtain ⟨_, _, _, name, _, rfl⟩ := hpathListed
    rw [Path.name_child] at hname
    subst hname
    exact (Except.ok.inj (hfile.symm.trans hthere)).symm
  · rintro rfl
    refine List.mem_map.2 ⟨bootstrapPath root, (mem_list_iff hlisted).2 ?_, ?_⟩
    · obtain ⟨hsuffix, name, hname⟩ := isSqlIn_bootstrapPath root
      exact ⟨name, hname, hsuffix, hthere⟩
    · exact stem_fileName (show bootstrapStem ≠ [] by decide) _

theorem ReadFrom.origins_bootstrap (h : c.ReadFrom d root) :
    (c.bootstrap.toList.map (migrationFragment .bootstrap)).map Fragment.origin =
      (if (listedStems d root Layout.migrations).contains bootstrapStem then
        ["migrations/00000.sql".text] else []).map some := by
  obtain ⟨_, hpaths, _⟩ := h.migrations
  obtain ⟨listed, hlisted, _⟩ := migrationPaths_eq_ok.1 hpaths
  obtain ⟨there, hthere, hpath⟩ := bootstrapPath?_eq_ok.1 h.bootstrapPath
  rw [listedStems_of_list hlisted]
  simp only [contains_stems_iff hlisted hthere]
  cases hbootstrap : c.bootstrap with
  | none =>
    rw [hbootstrap] at hpath
    cases there with
    | false => rfl
    | true => cases hpath
  | some file =>
    rw [hbootstrap] at hpath
    cases there with
    | false => cases hpath
    | true =>
      have hfile : file.path = Artifact.bootstrapPath root := Option.some.inj hpath
      have hname : file.path.name = Layout.bootstrap := by
        rw [hfile]
        exact Path.name_child _ _
      show [(migrationFragment .bootstrap file).origin] = [some "migrations/00000.sql".text]
      rw [origin_migrationFragment, hname]
      rfl

/-- The fragments of a tree that is read, with what they are called. -/
theorem ReadFrom.fragments_eq (h : c.ReadFrom d root) :
    ∃ first second, c.fragments = opening :: tables :: first ++ check :: second ∧
      first.map Fragment.origin = (uncheckedSources (listedStems d root)).map some ∧
      second.map Fragment.origin = (checkedSources (listedStems d root)).map some := by
  refine ⟨c.bootstrap.toList.map (migrationFragment .bootstrap) ++
      c.pass .function false .functionsUnchecked ++ c.pass .trigger false .triggersUnchecked ++
      c.migrations.map (migrationFragment .migrations) ++ c.pass .view true .views,
    c.pass .function true .functionsChecked ++ c.pass .trigger true .triggersChecked, ?_, ?_, ?_⟩
  · simp only [fragments, parts, List.flatMap_cons, List.flatMap_nil, List.append_assoc,
      List.cons_append, List.nil_append, List.append_nil]
  · simp only [List.map_append, uncheckedSources, h.origins_bootstrap, h.origins_pass,
      h.origins_migrations]
  · simp only [List.map_append, checkedSources, h.origins_pass]

end Contents

/-! ## Scripts of a tree that is listed in another order -/

theorem Contents.ReadFrom.relisted {c : Contents} (hread : c.ReadFrom d root)
    (h : d.Relisted e) : c.ReadFrom e root := by
  have hsame : (c.map id fun _ => rfl).ReadFrom e root :=
    hread.map h.sameShape (fun _ => rfl) fun _ _ path _ _ hfile => read_of_relisted h path ▸ hfile
  rwa [c.map_id] at hsame

theorem assembleRecording_of_relisted (h : d.Relisted e) (hs : assembleRecording d root = .ok s) :
    assembleRecording e root = .ok s := by
  obtain ⟨hroot, path?, bootstrap, paths, migrations, objects, hpath, hbootstrap, hpaths,
    hmigrations, hobjects, rfl⟩ := assembleRecording_eq_ok.1 hs
  exact assembleRecording_eq_ok.2 ⟨requireRoot_congr h.sameShape ▸ hroot, path?, bootstrap, paths,
    migrations, objects, bootstrapPath?_congr h.sameShape ▸ hpath, hbootstrap,
    migrationPaths_congr h.sameShape hpaths, hmigrations,
    fun kind => readAll_of_relisted h (hobjects kind), rfl⟩

theorem assembleSeeds_of_relisted (h : d.Relisted e) (hs : assembleSeeds d root = .ok s) :
    assembleSeeds e root = .ok s := by
  obtain ⟨_, hroot, hs⟩ := Outcome.bind_eq_ok.1 hs
  obtain ⟨there, hthere, hs⟩ := Outcome.bind_eq_ok.1 hs
  rw [requireRoot_congr h.sameShape] at hroot
  rw [h.sameShape.isFolder] at hthere
  refine Outcome.bind_eq_ok.2 ⟨_, hroot, Outcome.bind_eq_ok.2 ⟨there, hthere, ?_⟩⟩
  cases there with
  | false => exact hs
  | true =>
    obtain ⟨files, hfiles, hs⟩ := Outcome.bind_eq_ok.1 hs
    exact Outcome.bind_eq_ok.2 ⟨files, readAll_of_relisted h hfiles, hs⟩

theorem ofTree_of_relisted (h : d.Relisted e) {variant : Variant}
    (hs : ofTree d root variant = .ok s) : ofTree e root variant = .ok s := by
  cases variant with
  | applying =>
    obtain ⟨c, hread, rfl⟩ := Contents.exists_of_assemble hs
    exact Contents.assemble_of_readFrom (hread.relisted h)
  | recording => exact assembleRecording_of_relisted h hs
  | seeding => exact assembleSeeds_of_relisted h hs

theorem build_of_relisted (h : d.Relisted e) {variant : Variant} {minify : Bool} {t : Text}
    (ht : build d root variant minify = .ok t) : build e root variant minify = .ok t := by
  obtain ⟨s, hs, hrender⟩ := build_eq_ok.1 ht
  exact build_eq_ok.2 ⟨s, ofTree_of_relisted h hs, hrender⟩

/-! ## The order -/

theorem filterMap_origin {fs : List Fragment} {sources : List Text}
    (h : fs.map Fragment.origin = sources.map some) : fs.filterMap Fragment.origin = sources := by
  have hmap : fs.filterMap Fragment.origin = (fs.map Fragment.origin).filterMap id := by
    rw [List.filterMap_map]
    rfl
  rw [hmap, h, List.filterMap_map]
  exact List.filterMap_some

/-- The script that applies a tree runs the files of SQL in its folders in the order
of the folders and, inside a folder, of the names: all up to the views with bodies
unchecked, functions and triggers then again.  No script depends on the order in
which folders are listed. -/
theorem order_of_layout (d : Disk) (root : Path) :
    (∀ s, assemble d root = .ok s → ∃ stems : Text → List Text,
      (∀ folder ∈ initialFolders, StemsOf d (root.child folder) (stems folder)) ∧
      (∃ first second, s.ordered =
          Contents.opening :: Contents.tables :: first ++ Contents.check :: second ∧
        first.map Fragment.origin = (uncheckedSources stems).map some ∧
        second.map Fragment.origin = (checkedSources stems).map some) ∧
      s.sources = uncheckedSources stems ++ checkedSources stems) ∧
    ∀ e, d.Relisted e → ∀ variant minify t,
      build d root variant minify = .ok t ↔ build e root variant minify = .ok t := by
  refine ⟨fun s hs => ?_, fun e h variant minify t =>
    ⟨build_of_relisted h, build_of_relisted h.symm⟩⟩
  obtain ⟨c, hread, rfl⟩ := Contents.exists_of_assemble hs
  obtain ⟨first, second, hfragments, hfirst, hsecond⟩ := hread.fragments_eq
  have hordered := (c.ordered_of_fragments (s := ⟨schemaTag, c.fragments⟩) rfl).trans hfragments
  refine ⟨listedStems d root, hread.stemsOf, ⟨first, second, hordered, hfirst, hsecond⟩, ?_⟩
  rw [sources_eq, hordered, List.filterMap_append, List.filterMap_cons_none (by rfl),
    List.filterMap_cons_none (by rfl), List.filterMap_cons_none (by rfl),
    filterMap_origin hfirst, filterMap_origin hsecond]

/-- The tree of one function and one migration, last places first. -/
def separatedReverse : Tree where
  entries := separatedEntries.reverse
  distinct := by decide
  closed := by
    have h : ∀ place ∈ separatedEntries.reverse.map (·.1),
        place.tail = [] ∨ (place.tail, Entry.folder) ∈ separatedEntries.reverse := by decide
    exact fun name place hplace => h (name :: place) hplace

theorem order_of_separated :
    (∃ s, assemble ⟨separatedTree, []⟩ databaseRoot = .ok s ∧ ∃ stems : Text → List Text,
      (∀ folder ∈ initialFolders,
        StemsOf ⟨separatedTree, []⟩ (databaseRoot.child folder) (stems folder)) ∧
      s.sources = uncheckedSources stems ++ checkedSources stems) ∧
    ⟨separatedTree, []⟩ ≠ (⟨separatedReverse, []⟩ : Disk) ∧
    Disk.Relisted ⟨separatedTree, []⟩ ⟨separatedReverse, []⟩ ∧
    ∃ t, build ⟨separatedTree, []⟩ databaseRoot .applying false = .ok t ∧
      build ⟨separatedReverse, []⟩ databaseRoot .applying false = .ok t := by
  obtain ⟨t, ht⟩ := exists_build_separated
  obtain ⟨s, hs, _⟩ := build_eq_ok.1 ht
  have horder := order_of_layout ⟨separatedTree, []⟩ databaseRoot
  have hrelisted : Disk.Relisted ⟨separatedTree, []⟩ ⟨separatedReverse, []⟩ :=
    ⟨rfl, (List.reverse_perm separatedEntries).symm⟩
  refine ⟨⟨s, hs, ?_⟩, ?_, hrelisted, t, ht, (horder.2 _ hrelisted _ _ t).1 ht⟩
  · obtain ⟨stems, hstems, _, hsources⟩ := horder.1 s hs
    exact ⟨stems, hstems, hsources⟩
  · intro heq
    have hentries : separatedEntries = separatedEntries.reverse :=
      congrArg (fun d : Disk => d.tree.entries) heq
    exact absurd hentries (by decide)

end Script
end SchemaLedger
