import SchemaLedger.Proofs.Script.Newest

/-!
# Trees of the same shape

Two trees with the same folders and the same files are listed alike.  When each
artifact of the one is read from the other with some change, the contents of the
other are those of the first with that change in every file.
-/

namespace SchemaLedger

namespace Outcome

theorem mapM_map {ε α β : Type} {f g : α → Except ε β} {change : β → β} {xs : List α}
    {ys : List β} (h : xs.mapM f = .ok ys)
    (hchange : ∀ x ∈ xs, ∀ y, f x = .ok y → g x = .ok (change y)) :
    xs.mapM g = .ok (ys.map change) := by
  have hall := mapM_eq_ok.1 h
  clear h
  induction hall with
  | nil => rfl
  | @cons x y xs ys hxy _ ih =>
    obtain ⟨hfirst, hrest⟩ := List.forall_mem_cons.1 hchange
    have hmore := mapM_eq_ok.1 (ih hrest)
    exact mapM_eq_ok.2 (.cons (hfirst y hxy) hmore)

end Outcome

namespace Artifact

/-- The path is that of a name directly in the folder and has the suffix of SQL. -/
def IsSqlIn (folder path : Path) : Prop :=
  path.suffix = Layout.suffix ∧ ∃ name : Name, path = folder.child name.text

variable {d e : Disk} {folder path : Path}

theorem IsListed.isSqlIn (h : IsListed d folder path) : IsSqlIn folder path := by
  obtain ⟨_, name, _, hpath⟩ := h.exists_name
  exact ⟨h.1, name, hpath⟩

theorem isSqlIn_bootstrapPath (root : Path) :
    IsSqlIn (root.child Layout.migrations) (bootstrapPath root) := by
  have hname : (Name.ofText Layout.bootstrap).text = Layout.bootstrap :=
    Name.text_ofText (by decide) (by decide)
  exact ⟨Script.Contents.suffix_bootstrapPath root, .ofText Layout.bootstrap, by rw [hname]; rfl⟩

end Artifact

namespace Script

open Artifact

variable {d e : Disk} {root : Path} {change : SqlFile → SqlFile}

theorem bootstrapPath?_congr (h : d.SameShape e) :
    bootstrapPath? d root = bootstrapPath? e root := by
  rw [bootstrapPath?, bootstrapPath?, h.isFile]

theorem migrationPaths_congr (h : d.SameShape e) {paths : List Path}
    (hpaths : migrationPaths d root = .ok paths) : migrationPaths e root = .ok paths := by
  obtain ⟨listed, hlisted, hpaths⟩ := Contents.migrationPaths_eq_ok.1 hpaths
  exact Contents.migrationPaths_eq_ok.2 ⟨listed, list_congr h hlisted, hpaths⟩

namespace Contents

/-- The contents with every file changed, but none of their names. -/
def map (c : Contents) (change : SqlFile → SqlFile)
    (hname : ∀ file, (change file).name = file.name) :
    Contents where
  bootstrap := c.bootstrap.map change
  migrations := c.migrations.map change
  objects kind := (c.objects kind).map change
  migrations_nodup := by
    have hnames : ((c.bootstrap.map change).toList ++ c.migrations.map change).map SqlFile.name =
        (c.bootstrap.toList ++ c.migrations).map SqlFile.name := by
      rw [Option.toList_map, ← List.map_append, List.map_map]
      exact List.map_congr_left fun file _ => hname file
    rw [hnames]
    exact c.migrations_nodup
  objects_nodup kind := by
    have hnames : ((c.objects kind).map change).map SqlFile.name =
        (c.objects kind).map SqlFile.name := by
      rw [List.map_map]
      exact List.map_congr_left fun file _ => hname file
    rw [hnames]
    exact c.objects_nodup kind

theorem map_id (c : Contents) : c.map id (fun _ => rfl) = c := by
  obtain ⟨bootstrap, migrations, objects, _, _⟩ := c
  simp only [map, Option.map_id, List.map_id, id_eq]

variable {c : Contents} {hname : ∀ file, (change file).name = file.name}

theorem ReadFrom.map (h : c.ReadFrom d root) (hshape : d.SameShape e)
    (hpath : ∀ file, (change file).path = file.path)
    (hread : ∀ folder ∈ initialFolders, ∀ path, IsSqlIn (root.child folder) path → ∀ file,
      read d path = .ok file → read e path = .ok (change file)) :
    (c.map change hname).ReadFrom e root where
  isFolder := requireRoot_congr hshape ▸ h.isFolder
  bootstrapPath := by
    have hpaths : (c.bootstrap.map change).map SqlFile.path = c.bootstrap.map SqlFile.path := by
      rw [Option.map_map]
      exact congrArg (Option.map · c.bootstrap) (funext hpath)
    exact (bootstrapPath?_congr hshape).symm.trans (h.bootstrapPath.trans (congrArg _ hpaths.symm))
  bootstrap := by
    intro file hfile
    obtain ⟨old, hold, rfl⟩ := Option.map_eq_some_iff.1 hfile
    have hin : IsSqlIn (root.child Layout.migrations) old.path := by
      rw [((h.ofTree.bootstrap old).1 hold).1]
      exact isSqlIn_bootstrapPath root
    rw [hpath]
    exact hread _ migrations_mem_initialFolders _ hin old (h.bootstrap old hold)
  migrations := by
    obtain ⟨paths, hpaths, hfiles⟩ := h.migrations
    refine ⟨paths, migrationPaths_congr hshape hpaths, Outcome.mapM_map hfiles ?_⟩
    intro path hmem
    have hlisted := ((mem_migrationPaths hpaths).1 hmem).1.1
    exact hread _ migrations_mem_initialFolders path hlisted.isSqlIn
  objects kind := by
    obtain ⟨paths, hpaths, hfiles⟩ := Outcome.bind_eq_ok.1 (h.objects kind)
    refine Outcome.bind_eq_ok.2 ⟨paths, list_congr hshape hpaths, Outcome.mapM_map hfiles ?_⟩
    intro path hmem
    have hlisted := ((mem_list hpaths).1 hmem).1
    exact hread _ (folder_mem_initialFolders kind) path hlisted.isSqlIn

end Contents

end Script
end SchemaLedger
