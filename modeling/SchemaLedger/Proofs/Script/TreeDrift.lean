import SchemaLedger.Proofs.Script.Drift

/-!
# Drift between two trees

Where all blocks of two scripts can be read, equal blocks are equal scripts: the
sources say which files there are, their order is that of names, and a block of
two passes can only be cut into them in one way.  So a difference between the
scripts is always found in a block.

A body that has the end of its own block among its lines hides what follows: two
trees then compile to different scripts and no artifact is named.
-/

namespace SchemaLedger
namespace Script

/-! ## Files with the same blocks -/

namespace Contents

/-- The migrations of a tree and the one that it starts from. -/
def allMigrations (c : Contents) : List SqlFile :=
  c.bootstrap.toList ++ c.migrations

section Names

variable {c : Contents} {d : Disk} {root : Path} {kind : ObjectKind} {file : SqlFile}

theorem fileName_of_mem_objects (hc : c.OfTree d root) (h : file ∈ c.objects kind) :
    file.path.name = Layout.fileName file.name := by
  obtain ⟨hlisted, _, _, hname, _⟩ := (hc.objects kind file).1 h
  rw [Artifact.name_of_isListed hlisted, hname]

theorem name_of_mem_bootstrap (hc : c.OfTree d root) (h : file ∈ c.bootstrap.toList) :
    file.path.name = Layout.bootstrap := by
  obtain ⟨hpath, _⟩ := (hc.bootstrap file).1 (Option.mem_toList.1 h)
  rw [hpath]
  exact Path.name_child _ _

theorem name_of_mem_migrations (hc : c.OfTree d root) (h : file ∈ c.migrations) :
    file.path.name ≠ Layout.bootstrap :=
  ((hc.migrations file).1 h).1.2

theorem allMigrations_nodup (hc : c.OfTree d root) : (c.allMigrations.map (·.path.name)).Nodup := by
  have hstem : ∀ file ∈ c.allMigrations, file.name = file.path.stem := by
    intro file hfile
    rcases List.mem_append.1 hfile with hfile | hfile
    · obtain ⟨_, _, _, hname, _⟩ := (hc.bootstrap file).1 (Option.mem_toList.1 hfile)
      exact hname
    · obtain ⟨_, _, _, hname, _⟩ := (hc.migrations file).1 hfile
      exact hname
  have hnames : c.allMigrations.map SqlFile.name =
      (c.allMigrations.map (·.path.name)).map fun name => (Text.splitSuffix name).1 := by
    rw [List.map_map]
    exact List.map_congr_left hstem
  have hnodup := c.migrations_nodup
  rw [← allMigrations, hnames] at hnodup
  exact hnodup.of_map _

theorem migrations_sorted (hread : c.ReadFrom d root) :
    (c.migrations.map (·.path.name)).Pairwise fun x y => Text.atMost x y = true := by
  obtain ⟨paths, hpaths, hfiles⟩ := hread.migrations
  obtain ⟨listed, hlisted, rfl⟩ := migrationPaths_eq_ok.1 hpaths
  have hsorted := (Artifact.list_sorted hlisted).filter (·.name != Layout.bootstrap)
  rw [← Artifact.paths_of_mapM hfiles] at hsorted
  rw [List.pairwise_map] at hsorted ⊢
  exact hsorted

theorem objects_sorted (hread : c.ReadFrom d root) (kind : ObjectKind) :
    ((c.objects kind).map (·.path.name)).Pairwise fun x y => Text.atMost x y = true := by
  obtain ⟨paths, hpaths, hfiles⟩ := Outcome.bind_eq_ok.1 (hread.objects kind)
  have hsorted := Artifact.list_sorted hpaths
  rw [← Artifact.paths_of_mapM hfiles] at hsorted
  rw [List.pairwise_map] at hsorted ⊢
  exact hsorted

end Names

section Same

variable {c c' : Contents} {d d' : Disk} {root root' : Path} {kind : ObjectKind}
variable {records : Bool} {stage : Stage} {x y : SqlFile} {name : Text}

theorem ofSource_of_mem_objects (hx : x ∈ c.objects kind) :
    ofSource (sourceOf kind.folder x.name) c.fragments = Ledger.fragmentsOf kind x := by
  rw [ofSource_object, filter_key_of_nodup (c.objects_nodup kind) hx]
  exact List.map_eq_flatMap.symm

theorem ofSource_object_eq_nil_iff : ofSource (sourceOf kind.folder name) c.fragments = [] ↔
    name ∉ (c.objects kind).map SqlFile.name := by
  rw [ofSource_object]
  cases kind <;> simp [Ledger.passes]

/-- A migration has the same lines in whatever stage it comes. -/
theorem content_of_mem_allMigrations (hc : c.OfTree d root) (hx : x ∈ c.allMigrations) :
    (ofSource (sourceOf Layout.migrations x.path.name) c.fragments).flatMap Fragment.content =
      (migrationFragment .migrations x).content := by
  have hone := filter_key_of_nodup (allMigrations_nodup hc) hx
  rw [allMigrations, List.filter_append] at hone
  have hstage : ∀ file, (migrationFragment .bootstrap file).content =
      (migrationFragment .migrations file).content := fun _ => rfl
  rw [ofSource_migration, List.flatMap_append, List.flatMap_map, List.flatMap_map,
    List.flatMap_congr fun file _ => hstage file, ← List.flatMap_append, hone,
    List.flatMap_singleton]

theorem ofSource_migration_eq_nil_iff :
    ofSource (sourceOf Layout.migrations name) c.fragments = [] ↔
      name ∉ c.allMigrations.map (·.path.name) := by
  rw [ofSource_migration, allMigrations, List.append_eq_nil_iff, List.map_eq_nil_iff,
    List.map_eq_nil_iff, ← List.append_eq_nil_iff, ← List.filter_append]
  simp only [List.filter_eq_nil_iff, decide_eq_true_eq, List.mem_map, not_exists, not_and]

theorem length_content_objectFragment (hc : c.OfTree d root) (hu : UnmarkedTree d root)
    (hx : x ∈ c.objects kind) (hpass : (records, stage) ∈ Ledger.passes kind) :
    (objectFragment stage kind.table kind.folder records x).content.length =
      (shown x.body).length + if records then 6 else 2 := by
  obtain ⟨_, _, hframed, _⟩ :=
    framed_of_fragmentOf hc hu (.object hx (List.mem_map_of_mem hpass))
  refine hframed.length_content.trans (congrArg _ ?_)
  cases records <;> rfl

/-- The bodies in a block of two passes are found by their lengths. -/
theorem content_objectFragment_eq (hc : c.OfTree d root) (hc' : c'.OfTree d' root')
    (hu : UnmarkedTree d root) (hu' : UnmarkedTree d' root')
    (hsame : SameBlocks c.fragments c'.fragments) (hx : x ∈ c.objects kind)
    (hy : y ∈ c'.objects kind) (hname : x.name = y.name) :
    ∀ pass ∈ Ledger.passes kind,
      (objectFragment pass.2 kind.table kind.folder pass.1 x).content =
        (objectFragment pass.2 kind.table kind.folder pass.1 y).content := by
  have hlines : (Ledger.fragmentsOf kind x).flatMap Fragment.content =
      (Ledger.fragmentsOf kind y).flatMap Fragment.content := by
    rw [← ofSource_of_mem_objects hx, ← ofSource_of_mem_objects hy, ← hname]
    exact hsame.lines _
  rw [Ledger.fragmentsOf, Ledger.fragmentsOf, List.flatMap_map, List.flatMap_map] at hlines
  refine eq_of_flatMap_eq_add (m := (shown x.body).length) (n := (shown y.body).length)
    (fun pass hpass => ?_) hlines
  rw [length_content_objectFragment hc hu hx hpass, length_content_objectFragment hc' hu' hy hpass]
  omega

theorem scriptLines_congr {f g : Fragment} (horigin : f.origin = g.origin)
    (hcontent : f.content = g.content) : f.scriptLines = g.scriptLines := by
  rw [Fragment.scriptLines, Fragment.scriptLines, horigin, hcontent]

theorem names_objects_eq (hread : c.ReadFrom d root) (hread' : c'.ReadFrom d' root')
    (hsame : SameBlocks c.fragments c'.fragments) (kind : ObjectKind) :
    (c.objects kind).map (·.path.name) = (c'.objects kind).map (·.path.name) := by
  have hmem : ∀ name, name ∈ (c.objects kind).map SqlFile.name ↔
      name ∈ (c'.objects kind).map SqlFile.name := fun name => by
    rw [← not_iff_not, ← ofSource_object_eq_nil_iff, ← ofSource_object_eq_nil_iff]
    exact hsame.source _
  have hfile : ∀ {c : Contents} {d root}, c.ReadFrom d root →
      (c.objects kind).map (·.path.name) =
        ((c.objects kind).map SqlFile.name).map Layout.fileName := fun hread => by
    rw [List.map_map]
    exact List.map_congr_left fun file hfile => fileName_of_mem_objects hread.ofTree hfile
  refine Text.eq_of_sorted (objects_sorted hread kind) (objects_sorted hread' kind) ?_ ?_ ?_
  · rw [hfile hread]
    exact (c.objects_nodup kind).map Artifact.fileName_injective
  · rw [hfile hread']
    exact (c'.objects_nodup kind).map Artifact.fileName_injective
  · intro t
    rw [hfile hread, hfile hread', List.mem_map, List.mem_map]
    exact exists_congr fun name => and_congr_left' (hmem name)

theorem pass_lines_eq (hread : c.ReadFrom d root) (hread' : c'.ReadFrom d' root')
    (hu : UnmarkedTree d root) (hu' : UnmarkedTree d' root')
    (hsame : SameBlocks c.fragments c'.fragments) (hpass : (records, stage) ∈ Ledger.passes kind) :
    (c.pass kind records stage).map Fragment.scriptLines =
      (c'.pass kind records stage).map Fragment.scriptLines := by
  rw [pass, pass, List.map_map, List.map_map]
  refine map_eq_map_of_keys (names_objects_eq hread hread' hsame kind) fun x hx y hy hkey => ?_
  have hname : x.name = y.name := by
    rw [fileName_of_mem_objects hread.ofTree hx, fileName_of_mem_objects hread'.ofTree hy] at hkey
    exact Artifact.fileName_injective hkey
  refine scriptLines_congr ?_ ?_
  · rw [origin_objectFragment, origin_objectFragment, hname]
  · exact content_objectFragment_eq hread.ofTree hread'.ofTree hu hu' hsame hx hy hname
      (records, stage) hpass

theorem mem_names_allMigrations_iff (hsame : SameBlocks c.fragments c'.fragments) (name : Text) :
    name ∈ c.allMigrations.map (·.path.name) ↔ name ∈ c'.allMigrations.map (·.path.name) := by
  rw [← not_iff_not, ← ofSource_migration_eq_nil_iff, ← ofSource_migration_eq_nil_iff]
  exact hsame.source _

theorem mem_names_bootstrap_iff (hc : c.OfTree d root) {name : Text} :
    name ∈ c.bootstrap.toList.map (·.path.name) ↔
      name ∈ c.allMigrations.map (·.path.name) ∧ name = Layout.bootstrap := by
  rw [allMigrations, List.map_append, List.mem_append]
  constructor
  · intro hname
    obtain ⟨file, hfile, rfl⟩ := List.mem_map.1 hname
    exact ⟨.inl hname, name_of_mem_bootstrap hc hfile⟩
  · rintro ⟨hname | hname, hbootstrap⟩
    · exact hname
    · obtain ⟨file, hfile, rfl⟩ := List.mem_map.1 hname
      exact absurd hbootstrap (name_of_mem_migrations hc hfile)

theorem mem_names_migrations_iff (hc : c.OfTree d root) {name : Text} :
    name ∈ c.migrations.map (·.path.name) ↔
      name ∈ c.allMigrations.map (·.path.name) ∧ name ≠ Layout.bootstrap := by
  rw [allMigrations, List.map_append, List.mem_append]
  constructor
  · intro hname
    obtain ⟨file, hfile, rfl⟩ := List.mem_map.1 hname
    exact ⟨.inr hname, name_of_mem_migrations hc hfile⟩
  · rintro ⟨hname | hname, hother⟩
    · obtain ⟨file, hfile, rfl⟩ := List.mem_map.1 hname
      exact absurd (name_of_mem_bootstrap hc hfile) hother
    · exact hname

theorem names_bootstrap_eq (hc : c.OfTree d root) (hc' : c'.OfTree d' root')
    (hsame : SameBlocks c.fragments c'.fragments) :
    c.bootstrap.toList.map (·.path.name) = c'.bootstrap.toList.map (·.path.name) := by
  have hsingle : ∀ file? : Option SqlFile,
      (file?.toList.map (·.path.name)).Pairwise (fun x y => Text.atMost x y = true) ∧
        (file?.toList.map (·.path.name)).Nodup := fun file? => by
    cases file? <;> simp
  refine Text.eq_of_sorted (hsingle _).1 (hsingle _).1 (hsingle _).2 (hsingle _).2 fun name => ?_
  rw [mem_names_bootstrap_iff hc, mem_names_bootstrap_iff hc', mem_names_allMigrations_iff hsame]

theorem names_migrations_eq (hread : c.ReadFrom d root) (hread' : c'.ReadFrom d' root')
    (hsame : SameBlocks c.fragments c'.fragments) :
    c.migrations.map (·.path.name) = c'.migrations.map (·.path.name) := by
  have hnodup : ∀ {c : Contents} {d root}, c.OfTree d root →
      (c.migrations.map (·.path.name)).Nodup := fun hc => by
    have hmigration := allMigrations_nodup hc
    rw [allMigrations, List.map_append] at hmigration
    exact hmigration.of_append_right
  refine Text.eq_of_sorted (migrations_sorted hread) (migrations_sorted hread')
    (hnodup hread.ofTree) (hnodup hread'.ofTree) fun name => ?_
  rw [mem_names_migrations_iff hread.ofTree, mem_names_migrations_iff hread'.ofTree,
    mem_names_allMigrations_iff hsame]

theorem migration_lines_eq (hc : c.OfTree d root) (hc' : c'.OfTree d' root')
    (hsame : SameBlocks c.fragments c'.fragments) (stage : Stage) (hx : x ∈ c.allMigrations)
    (hy : y ∈ c'.allMigrations) (hname : x.path.name = y.path.name) :
    (migrationFragment stage x).scriptLines = (migrationFragment stage y).scriptLines := by
  refine scriptLines_congr ?_ ?_
  · rw [origin_migrationFragment, origin_migrationFragment, hname]
  · show (migrationFragment .migrations x).content = (migrationFragment .migrations y).content
    rw [← content_of_mem_allMigrations hc hx, ← content_of_mem_allMigrations hc' hy, hname]
    exact hsame.lines _

/-- What two trees say of each source determines all that they say. -/
theorem fragments_lines_eq (hread : c.ReadFrom d root) (hread' : c'.ReadFrom d' root')
    (hu : UnmarkedTree d root) (hu' : UnmarkedTree d' root')
    (hsame : SameBlocks c.fragments c'.fragments) :
    c.fragments.flatMap Fragment.scriptLines = c'.fragments.flatMap Fragment.scriptLines := by
  have hpass : ∀ kind records stage, (records, stage) ∈ Ledger.passes kind →
      (c.pass kind records stage).flatMap Fragment.scriptLines =
        (c'.pass kind records stage).flatMap Fragment.scriptLines := fun _ _ _ hpass => by
    rw [List.flatMap_def, List.flatMap_def, pass_lines_eq hread hread' hu hu' hsame hpass]
  have hmigration : ∀ {xs ys : List SqlFile} (stage : Stage), xs ⊆ c.allMigrations →
      ys ⊆ c'.allMigrations → xs.map (·.path.name) = ys.map (·.path.name) →
      (xs.map (migrationFragment stage)).flatMap Fragment.scriptLines =
        (ys.map (migrationFragment stage)).flatMap Fragment.scriptLines := by
    intro xs ys stage hxs hys hnames
    rw [List.flatMap_def, List.flatMap_def, List.map_map, List.map_map]
    refine congrArg List.flatten (map_eq_map_of_keys hnames fun x hx y hy hname => ?_)
    exact migration_lines_eq hread.ofTree hread'.ofTree hsame stage (hxs hx) (hys hy) hname
  have hbootstrap := hmigration .bootstrap (List.subset_append_left _ _)
    (List.subset_append_left _ _) (names_bootstrap_eq hread.ofTree hread'.ofTree hsame)
  have hmigrations := hmigration .migrations (List.subset_append_right _ _)
    (List.subset_append_right _ _) (names_migrations_eq hread hread' hsame)
  simp only [fragments, parts, List.flatMap_cons, List.flatMap_nil, List.flatMap_append,
    hbootstrap, hmigrations, hpass .function false .functionsUnchecked (by decide),
    hpass .trigger false .triggersUnchecked (by decide), hpass .view true .views (by decide),
    hpass .function true .functionsChecked (by decide),
    hpass .trigger true .triggersChecked (by decide)]

end Same

end Contents

/-- The scripts of two trees whose blocks can be read differ exactly when an artifact
is named whose block differs. -/
theorem drift_eq_nil_iff_of_unmarked {d d' : Disk} {root root' : Path} {t t' : Text}
    (hbuild : build d root .applying false = .ok t)
    (hbuild' : build d' root' .applying false = .ok t')
    (hu : UnmarkedTree d root) (hu' : UnmarkedTree d' root') : drift t t' = [] ↔ t = t' := by
  obtain ⟨s, hs, rfl⟩ := build_eq_ok.1 hbuild
  obtain ⟨s', hs', rfl⟩ := build_eq_ok.1 hbuild'
  obtain ⟨c, hread, rfl⟩ := Contents.exists_of_assemble hs
  obtain ⟨c', hread', rfl⟩ := Contents.exists_of_assemble hs'
  have hreadable : ∀ {c : Contents} {d root}, c.ReadFrom d root → UnmarkedTree d root →
      Script.Readable ⟨schemaTag, c.fragments⟩ := fun hread hu =>
    ⟨(by decide : Text.Unbroken schemaTag), Contents.readable_fragments hread.ofTree hu⟩
  constructor
  · intro hdrift
    have hlookup := drift_eq_nil_iff.1 hdrift
    rw [(hreadable hread hu).blocks_render, (hreadable hread' hu').blocks_render,
      c.ordered_of_fragments rfl, c'.ordered_of_fragments rfl] at hlookup
    have hlines := Contents.fragments_lines_eq hread hread' hu hu' (sameBlocks_of_lookup hlookup)
    have hshown : shown (draft ⟨schemaTag, c.fragments⟩) =
        shown (draft ⟨schemaTag, c'.fragments⟩) := by
      rw [shown_draft (hreadable hread hu).tag (hreadable hread hu).unbroken_sources,
        shown_draft (hreadable hread' hu').tag (hreadable hread' hu').unbroken_sources,
        c.ordered_of_fragments rfl, c'.ordered_of_fragments rfl, hlines]
      rfl
    have hrender : ∀ s : Script, s.render false = Text.unlines (shown s.draft) ++ [.char '\n'] :=
      fun _ => rfl
    rw [hrender, hrender, hshown]
  · rintro heq
    rw [heq, drift_eq_nil_iff]
    exact fun _ => rfl

/-! ### Trees of one migration -/

def migrationEntries (body : Text) : List (Location × Entry) :=
  [(["db".name], .folder),
   (["migrations".name, "db".name], .folder),
   (["00001.sql".name, "migrations".name, "db".name], .file (Utf8.encode body))]

/-- A tree with one migration. -/
def migrationTree (body : Text) : Tree where
  entries := migrationEntries body
  distinct := by
    have h : [["db".name], ["migrations".name, "db".name],
        ["00001.sql".name, "migrations".name, "db".name]].Nodup := by decide +kernel
    exact h
  closed := by
    have h : ∀ place ∈ (migrationEntries body).map (·.1),
        place.tail = [] ∨ (place.tail, Entry.folder) ∈ migrationEntries body := by
      simp [migrationEntries]
    exact fun name place hplace => h (name :: place) hplace

def migrationPath : Path :=
  (databaseRoot.child Layout.migrations).child "00001.sql".text

def migrationFile (body : Text) : SqlFile where
  path := migrationPath
  name := "00001".text
  body := body
  digest := Md5.hexDigest (Utf8.encode body)

theorem standsOn_migrationTree {body : Text} (h : body.Plain) :
    Artifact.StandsOn ⟨migrationTree body, []⟩ (migrationFile body) :=
  ⟨Utf8.encode body, rfl, rfl, Utf8.decode_encode h, rfl⟩

theorem list_migrationTree (body : Text) :
    Disk.list ⟨migrationTree body, []⟩ (databaseRoot.child Layout.migrations) =
      .ok ["00001.sql".text] := by
  refine Disk.list_eq_ok.2 ⟨["migrations".name, "db".name], rfl, rfl, ?_⟩
  have hnames : (migrationTree body).names ["migrations".name, "db".name] = ["00001.sql".name] :=
      rfl
  rw [hnames]
  decide +kernel

theorem list_migrationTree_objects (body : Text) (kind : ObjectKind) :
    Disk.list ⟨migrationTree body, []⟩ (databaseRoot.child kind.folder) =
      .error (Disk.refused (databaseRoot.child kind.folder) .noEntry) := by
  cases kind <;> rfl

theorem assemble_migrationTree {body : Text} (h : body.Plain) :
    assemble ⟨migrationTree body, []⟩ databaseRoot =
      .ok ⟨schemaTag, [Contents.opening, Contents.tables,
        migrationFragment .migrations (migrationFile body), Contents.check]⟩ := by
  have hroot : Artifact.requireRoot ⟨migrationTree body, []⟩ databaseRoot = .ok () := rfl
  have hobjects : ∀ kind : ObjectKind,
      Artifact.readAll ⟨migrationTree body, []⟩ (databaseRoot.child kind.folder) = .ok [] :=
    fun kind => by cases kind <;> rfl
  have hbootstrap : ofBootstrap ⟨migrationTree body, []⟩ databaseRoot = .ok [] := rfl
  have hpaths : migrationPaths ⟨migrationTree body, []⟩ databaseRoot = .ok [migrationPath] := by
    refine Contents.migrationPaths_eq_ok.2 ⟨[migrationPath], Artifact.list_eq_ok.2 (.inr ?_), rfl⟩
    exact ⟨_, [migrationPath], list_migrationTree body, rfl, (List.mergeSort_singleton _).symm⟩
  have hread : Artifact.read ⟨migrationTree body, []⟩ migrationPath = .ok (migrationFile body) :=
    Artifact.read_eq_ok.2 ⟨rfl, rfl, standsOn_migrationTree h⟩
  have hreadAll : [migrationPath].mapM (Artifact.read ⟨migrationTree body, []⟩) =
      .ok [migrationFile body] := by
    rw [List.mapM_cons, hread]
    rfl
  have hmigrations : ofMigrations ⟨migrationTree body, []⟩ databaseRoot =
      .ok [migrationFragment .migrations (migrationFile body)] :=
    Outcome.bind_eq_ok.2 ⟨_, hpaths, Outcome.bind_eq_ok.2 ⟨_, hreadAll, rfl⟩⟩
  have hviews : ofFolder ⟨migrationTree body, []⟩ (databaseRoot.child ObjectKind.view.folder)
      ObjectKind.view.table true .views = .ok [] := rfl
  exact Outcome.bind_eq_ok.2 ⟨_, hroot, Outcome.bind_eq_ok.2 ⟨_, hobjects .function,
    Outcome.bind_eq_ok.2 ⟨_, hobjects .trigger, Outcome.bind_eq_ok.2 ⟨_, hbootstrap,
    Outcome.bind_eq_ok.2 ⟨_, hmigrations, Outcome.bind_eq_ok.2 ⟨_, hviews, rfl⟩⟩⟩⟩⟩⟩

/-- The script of a tree with one migration. -/
def migrationScript (body : Text) : Script where
  tag := schemaTag
  fragments := [Contents.opening, Contents.tables,
    migrationFragment .migrations (migrationFile body), Contents.check]

theorem build_migrationTree {body : Text} (h : body.Plain) :
    build ⟨migrationTree body, []⟩ databaseRoot .applying false =
      .ok ((migrationScript body).render false) :=
  build_eq_ok.2 ⟨_, assemble_migrationTree h, rfl⟩

theorem unmarkedTree_migrationTree {body : Text} (hbody : body.Plain)
    (h : Unmarked (sourceOf Layout.migrations "00001.sql".text) (migrationFile body)) :
    UnmarkedTree ⟨migrationTree body, []⟩ databaseRoot where
  migrations file hstands hfile := by
    rcases hfile with hpath | ⟨_, names, hnames, name, hname, hpath⟩
    · obtain ⟨_, hread, _⟩ := hstands
      have hnone : Disk.read ⟨migrationTree body, []⟩ (Artifact.bootstrapPath databaseRoot) =
          .error (Disk.refused (Artifact.bootstrapPath databaseRoot) .noEntry) := rfl
      rw [hpath, hnone] at hread
      cases hread
    · rw [list_migrationTree] at hnames
      cases hnames
      obtain rfl := List.mem_singleton.1 hname
      obtain rfl : file = migrationFile body := hstands.eq (standsOn_migrationTree hbody) hpath
      exact h
  objects kind file _ hlisted := by
    obtain ⟨_, names, hnames, _⟩ := hlisted
    rw [list_migrationTree_objects] at hnames
    cases hnames

theorem drift_eq_nil_iff_of_unmarked_migrations :
    ∃ t t', build ⟨migrationTree "SELECT 1;\n".text, []⟩ databaseRoot .applying false = .ok t ∧
      build ⟨migrationTree "SELECT 2;\n".text, []⟩ databaseRoot .applying false = .ok t' ∧
      UnmarkedTree ⟨migrationTree "SELECT 1;\n".text, []⟩ databaseRoot ∧
      UnmarkedTree ⟨migrationTree "SELECT 2;\n".text, []⟩ databaseRoot ∧
      (drift t t' = [] ↔ t = t') := by
  have hu : UnmarkedTree ⟨migrationTree "SELECT 1;\n".text, []⟩ databaseRoot :=
    unmarkedTree_migrationTree (Text.plain_text _) (by decide +kernel)
  have hu' : UnmarkedTree ⟨migrationTree "SELECT 2;\n".text, []⟩ databaseRoot :=
    unmarkedTree_migrationTree (Text.plain_text _) (by decide +kernel)
  have hbuild := build_migrationTree (Text.plain_text "SELECT 1;\n")
  have hbuild' := build_migrationTree (Text.plain_text "SELECT 2;\n")
  exact ⟨_, _, hbuild, hbuild', hu, hu', drift_eq_nil_iff_of_unmarked hbuild hbuild' hu hu'⟩

/-! ### Bodies that end their own block -/

variable {before : Blocks} {f : Fragment} {source condition : Text} {lines : List Text}

/-- Of a fragment whose body begins with the end of its block only the guard is
read. -/
theorem readOn_scriptLines_of_done (hframed : f.Framed condition) (horigin : f.origin = some source)
    (hbody : shown f.body.sql = Fragment.doneMarker source :: lines)
    (hlines : ∀ line ∈ lines, startsBlock? line = none) :
    readOn (before, none) f.scriptLines = ((before.ensure source).extend source
      ["IF ".text ++ condition ++ " THEN".text], none) := by
  let back := lines ++ (f.onApply.map Sql.Command.sql ++ f.skipped ++ ["END IF;".text])
  have hcontent : f.content = ["IF ".text ++ condition ++ " THEN".text] ++
      Fragment.doneMarker source :: back := by
    rw [hframed.content_eq, hbody]
    rfl
  have hscript : f.scriptLines = Fragment.runMarker source ::
      ["IF ".text ++ condition ++ " THEN".text] ++
        Fragment.doneMarker source :: (back ++ [Fragment.doneMarker source]) := by
    simp only [Fragment.scriptLines, horigin, hcontent, List.append_assoc, List.cons_append]
  have hback : ∀ line ∈ back, startsBlock? line = none := by
    intro line hline
    have hmem : line ∈ f.content := hcontent ▸ List.mem_cons_of_mem _ (List.mem_cons_of_mem _ hline)
    rcases hframed.mem_content hmem with hshown | hline
    · rw [hbody] at hshown
      rcases List.mem_cons.1 hshown with rfl | hline
      · exact startsBlock?_doneMarker source
      · exact hlines line hline
    · exact hline.startsBlock?_eq_none
  rw [hscript]
  refine readOn_block (Fragment.ne_nil_of_origin horigin) ?_ ?_ ?_
  · exact List.forall_mem_singleton.2 hframed.guard.startsBlock?_eq_none
  · exact List.mem_singleton.not.2 (hframed.guard.ne_marker source).2.symm
  · exact List.forall_mem_append.2
      ⟨hback, List.forall_mem_singleton.2 (startsBlock?_doneMarker source)⟩

theorem ordered_migrationScript (body : Text) :
    (migrationScript body).ordered = (migrationScript body).fragments := by
  refine List.mergeSort_of_pairwise ?_
  simp [migrationScript, Contents.opening, Contents.tables, Contents.check, migrationFragment,
    Stage.number]

theorem unbroken_sources_migrationScript (body : Text) :
    ∀ f ∈ (migrationScript body).ordered, ∀ source, f.origin = some source →
      Text.Unbroken source := by
  rw [ordered_migrationScript]
  intro f hf source horigin
  have hsource : f.source = none ∨ f.source = some "migrations/00001.sql".text := by
    simp only [migrationScript, List.mem_cons, List.not_mem_nil, or_false] at hf
    rcases hf with rfl | rfl | rfl | rfl
    · exact .inl rfl
    · exact .inl rfl
    · exact .inr rfl
    · exact .inl rfl
  rw [Fragment.origin] at horigin
  rcases hsource with hsource | hsource
  · rw [hsource] at horigin
    cases horigin
  · rw [hsource] at horigin
    obtain rfl := Option.some.inj horigin
    decide

/-- A body whose first line ends its block. -/
def markedBody (value : CodePoint) : Text :=
  "-- DONE migrations/00001.sql --\nSELECT ".text ++ value :: ";\n".text

def markedFragment (value : CodePoint) : Fragment :=
  migrationFragment .migrations (migrationFile (markedBody value))

def markedGuard : Text :=
  "IF ".text ++ (Sql.Guard.unrecorded "00001".text).sql ++ " THEN".text

theorem readOn_markedFragment {value : CodePoint} (hvalue : value = '1' ∨ value = '2') :
    readOn (before, none) (markedFragment value).scriptLines =
      ((before.ensure "migrations/00001.sql".text).extend "migrations/00001.sql".text
        [markedGuard], none) := by
  have hbody : shown (markedBody value) = Fragment.doneMarker "migrations/00001.sql".text ::
      ["SELECT ".text ++ [value, ';']] := by
    rcases hvalue with rfl | rfl
    · decide +kernel
    · decide +kernel
  have hline : startsBlock? ("SELECT ".text ++ [value, ';']) = none :=
    startsBlock?_of_opening (List.prefix_append _ _) (by decide)
  have hspells : Spells "00001".text ("00001".text ++ ".sql".text) :=
    .before .self (by decide)
  have hframed : (markedFragment value).Framed (Sql.Guard.unrecorded "00001".text).sql :=
    .of_tells (tells_migrationFragment .migrations rfl hspells)
      (by decide : Text.Unbroken "00001".text) rfl
      (by simp [markedFragment, migrationFragment, Sql.Command.own?])
  exact readOn_scriptLines_of_done hframed rfl hbody (List.forall_mem_singleton.2 hline)

theorem blocks_markedBody {value : CodePoint} (hvalue : value = '1' ∨ value = '2') :
    blocks ((migrationScript (markedBody value)).render false) =
      [("migrations/00001.sql".text, [markedGuard])] := by
  refine blocks_of_closed (by decide : Text.Unbroken schemaTag)
    (unbroken_sources_migrationScript _) ?_
  have hplain : ∀ f ∈ [Contents.opening, Contents.tables, Contents.check], ∀ before : Blocks,
      readOn (before, none) f.scriptLines = (before, none) := by
    intro f hf before
    have horigin : f.origin = none :=
      (by decide : ∀ f ∈ [Contents.opening, Contents.tables, Contents.check], f.origin = none) f hf
    rw [readOn_scriptLines (Contents.readable_plain f hf), Blocks.withFragment, horigin]
  rw [ordered_migrationScript]
  show readOn ([], none) ([Contents.opening, Contents.tables, markedFragment value,
    Contents.check].flatMap Fragment.scriptLines) = _
  simp only [List.flatMap_cons, List.flatMap_nil, List.append_nil, readOn_append]
  rw [hplain Contents.opening (by simp), hplain Contents.tables (by simp),
    readOn_markedFragment hvalue, hplain Contents.check (by simp)]
  rfl

theorem render_markedBody_ne :
    (migrationScript (markedBody '1')).render false ≠
      (migrationScript (markedBody '2')).render false := by
  have hshown : ∀ value, kept (migrationScript (markedBody value)).draft false =
      [(migrationScript (markedBody value)).header] ++
        [Contents.opening, Contents.tables, markedFragment value, Contents.check].flatMap
          Fragment.scriptLines ++ [(migrationScript (markedBody value)).footer] := fun value => by
    have hdraft := shown_draft (by decide : Text.Unbroken schemaTag)
      (unbroken_sources_migrationScript (markedBody value))
    rw [ordered_migrationScript] at hdraft
    exact hdraft
  have hne : ∀ value, kept (migrationScript (markedBody value)).draft false ≠ [] := fun value => by
    rw [hshown]
    simp
  intro hrender
  have hkept := kept_eq_of_finish_eq (hne '1') (hne '2') hrender
  rw [hshown, hshown] at hkept
  have hlines := List.append_cancel_left (List.append_cancel_right hkept)
  simp only [List.flatMap_cons, List.flatMap_nil, List.append_nil] at hlines
  have hfragment := List.append_cancel_right
    (List.append_cancel_left (List.append_cancel_left hlines))
  exact absurd hfragment (by decide +kernel)

/-- Different scripts with the same blocks. -/
theorem drift_not_named :
    ∃ t t', build ⟨migrationTree (markedBody '1'), []⟩ databaseRoot .applying false = .ok t ∧
      build ⟨migrationTree (markedBody '2'), []⟩ databaseRoot .applying false = .ok t' ∧
      t ≠ t' ∧ drift t t' = [] := by
  refine ⟨_, _, build_migrationTree (by decide), build_migrationTree (by decide),
    render_markedBody_ne, ?_⟩
  rw [drift_eq_nil_iff, blocks_markedBody (.inl rfl), blocks_markedBody (.inr rfl)]
  exact fun _ => rfl

end Script
end SchemaLedger
