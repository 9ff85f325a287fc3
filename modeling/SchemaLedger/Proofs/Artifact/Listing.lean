import SchemaLedger.Artifact.Write
import SchemaLedger.Proofs.Text.Order
import SchemaLedger.Proofs.Tree.Basic

/-!
# Artifact files of a folder

Which files a folder is read into, and that no two of them are recorded under
the same name.
-/

namespace SchemaLedger

/-! ## Names -/

namespace Text

theorem splitSuffix_append (name : Text) : (splitSuffix name).1 ++ (splitSuffix name).2 = name := by
  have hcut := List.takeWhile_append_dropWhile (p := (· != .char '.')) (l := name.reverse)
  unfold splitSuffix
  simp only
  split
  · exact List.append_nil name
  · next hparts =>
    cases hrest : name.reverse.dropWhile (· != .char '.') with
    | nil => simp [hrest] at hparts
    | cons c rest =>
      have hdot : c = '.' := by
        have := List.head_dropWhile_not (l := name.reverse) (· != .char '.') (by simp [hrest])
        simpa [hrest] using this
      rw [hrest, hdot] at hcut
      rw [List.drop_one, List.tail_cons]
      simpa using congrArg List.reverse hcut

end Text

namespace Path

theorem name_child (p : Path) (name : Text) : (p.child name).name = name := by
  simp [Path.name, child]

theorem child_injective (p : Path) : Function.Injective p.child := by
  intro a b h
  rw [← name_child p a, h, name_child]

/-- Files with the same suffix differ in their stems. -/
theorem name_eq_of_stem_eq {p q : Path} (hsuffix : p.suffix = q.suffix) (hstem : p.stem = q.stem) :
    p.name = q.name := by
  rw [← Text.splitSuffix_append p.name, ← Text.splitSuffix_append q.name]
  exact congrArg₂ (· ++ ·) hstem hsuffix

end Path

theorem unreported_eq_ok {α : Type} {result : Except SystemFault α} {a : α} :
    unreported result = .ok a ↔ result = .ok a := by
  cases result <;> simp [unreported, Except.mapError]

namespace Artifact

/-! ## Reading -/

/-- The file is what stands on the disk at its path. -/
def StandsOn (d : Disk) (file : SqlFile) : Prop :=
  ∃ data, d.read file.path = .ok data ∧ file.name = file.path.stem ∧
    Utf8.decode data = .ok file.body ∧ file.digest = Md5.hexDigest data

theorem eq_stem_of_nameOf {path : Path} {name : Text} (h : nameOf path = .ok name) :
    name = path.stem := by
  unfold nameOf at h
  split at h
  · cases h
  · exact (Except.ok.inj h).symm

theorem read_eq_ok {d : Disk} {path : Path} {file : SqlFile} :
    read d path = .ok file ↔
      nameOf path = .ok file.name ∧ file.path = path ∧ StandsOn d file := by
  constructor
  · intro h
    obtain ⟨name, hname, h⟩ := Outcome.bind_eq_ok.1 h
    split at h
    · cases h
    · next data hdata =>
      split at h
      · cases h
      · next body hbody =>
        cases h
        exact ⟨hname, rfl, data, hdata, eq_stem_of_nameOf hname, hbody, rfl⟩
  · rintro ⟨hname, rfl, data, hdata, hfile, hbody, hdigest⟩
    refine Outcome.bind_eq_ok.2 ⟨file.name, hname, ?_⟩
    simp only [hdata, hbody]
    rw [← hdigest]

theorem StandsOn.eq {d : Disk} {file other : SqlFile} (h : StandsOn d file)
    (hother : StandsOn d other) (hpath : file.path = other.path) : file = other := by
  obtain ⟨data, hdata, hname, hbody, hdigest⟩ := h
  obtain ⟨data', hdata', hname', hbody', hdigest'⟩ := hother
  obtain ⟨path, name, body, digest⟩ := file
  obtain ⟨path', name', body', digest'⟩ := other
  simp only at *
  subst hpath
  rw [hdata] at hdata'
  cases hdata'
  rw [hbody] at hbody'
  cases hbody'
  rw [hname, hname', hdigest, hdigest']

theorem StandsOn.isFile {d : Disk} {file : SqlFile} (h : StandsOn d file) :
    d.isFile file.path = .ok true := by
  obtain ⟨data, hdata, _⟩ := h
  exact Disk.isFile_eq_true.2 ⟨_, Disk.read_eq_ok.1 hdata, rfl⟩

/-! ## Listing -/

/-- The path of an entry of the folder with the suffix of SQL. -/
def IsListed (d : Disk) (folder path : Path) : Prop :=
  path.suffix = Layout.suffix ∧
    ∃ names, d.list folder = .ok names ∧ ∃ name ∈ names, path = folder.child name

theorem select_eq_ok {test : Path → Except Error Bool} {paths chosen : List Path} :
    select test paths = .ok chosen ↔
      (∀ path ∈ paths, ∃ b, test path = .ok b) ∧
        chosen = paths.filter fun path => (test path).toOption.getD false := by
  induction paths generalizing chosen with
  | nil => simp [select, eq_comm]
  | cons path rest ih =>
    rw [select, Outcome.bind_eq_ok]
    constructor
    · rintro ⟨b, hb, h⟩
      obtain ⟨more, hmore, h⟩ := Outcome.bind_eq_ok.1 h
      obtain ⟨hall, rfl⟩ := ih.1 hmore
      refine ⟨List.forall_mem_cons.2 ⟨⟨b, hb⟩, hall⟩, ?_⟩
      rw [← Outcome.pure_eq_ok.1 h, List.filter_cons, hb]
      rfl
    · rintro ⟨hall, rfl⟩
      obtain ⟨⟨b, hb⟩, hrest⟩ := List.forall_mem_cons.1 hall
      refine ⟨b, hb, Outcome.bind_eq_ok.2 ⟨_, ih.2 ⟨hrest, rfl⟩, ?_⟩⟩
      rw [Outcome.pure_eq_ok, List.filter_cons, hb]
      rfl

theorem isSql_eq_ok {d : Disk} {path : Path} :
    isSql d path = .ok true ↔ d.isFile path = .ok true ∧ path.suffix = Layout.suffix := by
  rw [isSql, Outcome.bind_eq_ok]
  simp only [unreported_eq_ok, Outcome.pure_eq_ok, Bool.and_eq_true, decide_eq_true_eq]
  constructor
  · rintro ⟨isFile, hfile, rfl, hsuffix⟩
    exact ⟨hfile, hsuffix⟩
  · rintro ⟨hfile, hsuffix⟩
    exact ⟨true, hfile, rfl, hsuffix⟩

/-- A folder that is there is listed, any other has nothing in it. -/
theorem list_eq_ok {d : Disk} {folder : Path} {paths : List Path} :
    list d folder = .ok paths ↔
      d.isFolder folder = .ok false ∧ paths = [] ∨
      ∃ names chosen, d.list folder = .ok names ∧
        select (isSql d) (names.map folder.child) = .ok chosen ∧
        paths = chosen.mergeSort fun p q => Text.atMost p.name q.name := by
  rw [list, Outcome.bind_eq_ok]
  constructor
  · rintro ⟨isFolder, hfolder, h⟩
    rw [unreported_eq_ok] at hfolder
    cases isFolder with
    | false => exact .inl ⟨hfolder, (Outcome.pure_eq_ok.1 h).symm⟩
    | true =>
      simp only [if_true] at h
      split at h
      · cases h
      · next names hnames =>
        obtain ⟨chosen, hchosen, h⟩ := Outcome.bind_eq_ok.1 h
        exact .inr ⟨names, chosen, hnames, hchosen, (Outcome.pure_eq_ok.1 h).symm⟩
  · rintro (⟨hfolder, rfl⟩ | ⟨names, chosen, hnames, hchosen, rfl⟩)
    · exact ⟨false, unreported_eq_ok.2 hfolder, rfl⟩
    · refine ⟨true, unreported_eq_ok.2 (Disk.isFolder_of_list hnames), ?_⟩
      simp only [if_true, hnames]
      exact Outcome.bind_eq_ok.2 ⟨chosen, hchosen, rfl⟩

variable {d : Disk} {folder : Path}

/-- What is no folder is listed, and a folder exactly when its names can be had and
all that they name can be looked at. -/
theorem exists_list_iff :
    (∃ paths, list d folder = .ok paths) ↔
      d.isFolder folder = .ok false ∨ ∃ names, d.list folder = .ok names ∧
        ∀ name ∈ names, ∃ isFile, d.isFile (folder.child name) = .ok isFile := by
  have htest : ∀ path, (∃ b, isSql d path = .ok b) ↔ ∃ isFile, d.isFile path = .ok isFile := by
    intro path
    unfold isSql
    cases d.isFile path with
    | error fault => exact ⟨nofun, nofun⟩
    | ok isFile => exact ⟨fun _ => ⟨isFile, rfl⟩, fun _ => ⟨_, rfl⟩⟩
  constructor
  · rintro ⟨paths, hpaths⟩
    rcases list_eq_ok.1 hpaths with ⟨hfolder, _⟩ | ⟨names, chosen, hnames, hchosen, _⟩
    · exact .inl hfolder
    · refine .inr ⟨names, hnames, fun name hname => ?_⟩
      exact (htest _).1 ((select_eq_ok.1 hchosen).1 _ (List.mem_map_of_mem hname))
  · rintro (hfolder | ⟨names, hnames, hfiles⟩)
    · exact ⟨[], list_eq_ok.2 (.inl ⟨hfolder, rfl⟩)⟩
    · refine ⟨_, list_eq_ok.2 (.inr ⟨_, _, hnames, select_eq_ok.2 ⟨?_, rfl⟩, rfl⟩)⟩
      intro path hpath
      obtain ⟨name, hname, rfl⟩ := List.mem_map.1 hpath
      exact (htest _).2 (hfiles name hname)

theorem isFolder_of_exists_list (h : ∃ paths, list d folder = .ok paths) :
    ∃ isFolder, d.isFolder folder = .ok isFolder := by
  rcases exists_list_iff.1 h with hno | ⟨_, hnames, _⟩
  · exact ⟨false, hno⟩
  · exact ⟨true, Disk.isFolder_of_list hnames⟩

theorem isFile_of_exists_list (h : ∃ paths, list d folder = .ok paths) {names : List Text}
    (hnames : d.list folder = .ok names) :
    ∀ name ∈ names, ∃ isFile, d.isFile (folder.child name) = .ok isFile := by
  rcases exists_list_iff.1 h with hno | ⟨_, hthere, hfiles⟩
  · rw [Disk.isFolder_of_list hnames] at hno
    cases hno
  · rw [hnames] at hthere
    cases hthere
    exact hfiles

theorem mem_list {paths : List Path} (h : list d folder = .ok paths) {path : Path} :
    path ∈ paths ↔ IsListed d folder path ∧ d.isFile path = .ok true := by
  rcases list_eq_ok.1 h with ⟨hfolder, rfl⟩ | ⟨names, chosen, hnames, hchosen, rfl⟩
  · -- what is no folder cannot be listed
    refine ⟨nofun, ?_⟩
    rintro ⟨⟨_, names, hnames, _⟩, _⟩
    rw [Disk.isFolder_of_list hnames] at hfolder
    cases hfolder
  · obtain ⟨hall, rfl⟩ := select_eq_ok.1 hchosen
    have htest : ∀ path ∈ names.map folder.child,
        ((isSql d path).toOption.getD false = true ↔ isSql d path = .ok true) := by
      intro path hpath
      obtain ⟨b, hb⟩ := hall path hpath
      simp [hb, Except.toOption]
    rw [List.mem_mergeSort, List.mem_filter]
    constructor
    · rintro ⟨hpath, hsql⟩
      obtain ⟨hfile, hsuffix⟩ := isSql_eq_ok.1 ((htest path hpath).1 hsql)
      obtain ⟨name, hname, rfl⟩ := List.mem_map.1 hpath
      exact ⟨⟨hsuffix, names, hnames, name, hname, rfl⟩, hfile⟩
    · rintro ⟨⟨hsuffix, names', hnames', name, hname, rfl⟩, hfile⟩
      rw [hnames] at hnames'
      cases hnames'
      have hpath : folder.child name ∈ names.map folder.child := List.mem_map_of_mem hname
      exact ⟨hpath, (htest _ hpath).2 (isSql_eq_ok.2 ⟨hfile, hsuffix⟩)⟩

theorem list_nodup {paths : List Path} (h : list d folder = .ok paths) : paths.Nodup := by
  rcases list_eq_ok.1 h with ⟨_, rfl⟩ | ⟨names, chosen, hnames, hchosen, rfl⟩
  · exact List.nodup_nil
  · obtain ⟨_, rfl⟩ := select_eq_ok.1 hchosen
    rw [(List.mergeSort_perm _ _).nodup_iff]
    exact ((Disk.nodup_of_list hnames).map folder.child_injective).filter _

theorem list_sorted {paths : List Path} (h : list d folder = .ok paths) :
    paths.Pairwise fun p q => Text.atMost p.name q.name = true := by
  rcases list_eq_ok.1 h with ⟨_, rfl⟩ | ⟨_, chosen, _, _, rfl⟩
  · exact List.Pairwise.nil
  · exact Text.pairwise_mergeSort Path.name chosen

/-- What is listed has a name that a folder holds. -/
theorem IsListed.exists_name {path : Path} (h : IsListed d folder path) :
    ∃ place, ∃ name ∈ d.tree.names place, path = folder.child name.text := by
  obtain ⟨_, _, hnames, _, hlisted, rfl⟩ := h
  obtain ⟨place, _, _, rfl⟩ := Disk.list_eq_ok.1 hnames
  obtain ⟨name, hname, rfl⟩ := List.mem_map.1 hlisted
  exact ⟨place, name, hname, rfl⟩

theorem name_of_isListed {path : Path} (h : IsListed d folder path) :
    path.name = Layout.fileName path.stem := by
  rw [← Text.splitSuffix_append path.name, Layout.fileName, ← h.1]
  rfl

theorem onward_of_suffix {name : Text} (h : (folder.child name).suffix = Layout.suffix) :
    name ≠ [.char '.', .char '.'] := by
  rintro rfl
  rw [Path.suffix, Path.name_child] at h
  exact absurd h (by decide)

/-- The stem of a path tells it from the other paths of a list. -/
theorem stem_injective_of_isListed {path other : Path} (h : IsListed d folder path)
    (hother : IsListed d folder other) (hstem : path.stem = other.stem) : path = other := by
  obtain ⟨hsuffix, _, _, name, _, rfl⟩ := h
  obtain ⟨hsuffix', _, _, name', _, rfl⟩ := hother
  have := Path.name_eq_of_stem_eq (hsuffix.trans hsuffix'.symm) hstem
  rw [Path.name_child, Path.name_child] at this
  rw [this]

theorem paths_of_mapM {paths : List Path} {files : List SqlFile}
    (h : paths.mapM (read d) = .ok files) : files.map SqlFile.path = paths := by
  have hpaths : files.map SqlFile.path = paths.map id :=
    Outcome.map_eq_map_of_mapM h fun path file hfile => (read_eq_ok.1 hfile).2.1
  rw [hpaths, List.map_id]

/-- Files read from listed paths have different names. -/
theorem names_nodup_of_mapM {paths : List Path} {files : List SqlFile} (hnodup : paths.Nodup)
    (hlisted : ∀ path ∈ paths, IsListed d folder path) (h : paths.mapM (read d) = .ok files) :
    (files.map SqlFile.name).Nodup := by
  have hstems : files.map SqlFile.name = paths.map Path.stem :=
    Outcome.map_eq_map_of_mapM h fun path file hfile => by
      obtain ⟨_, rfl, _, _, hname, _⟩ := read_eq_ok.1 hfile
      exact hname
  rw [hstems]
  exact hnodup.map_on fun path hpath other hother hstem =>
    stem_injective_of_isListed (hlisted path hpath) (hlisted other hother) hstem

/-- The files that listed paths are read into are those that stand on the disk
there. -/
theorem mem_of_mapM_read {paths : List Path} {files : List SqlFile}
    (h : paths.mapM (read d) = .ok files) {file : SqlFile} :
    file ∈ files ↔ file.path ∈ paths ∧ StandsOn d file := by
  rw [Outcome.mem_of_mapM h]
  constructor
  · rintro ⟨path, hpath, hread⟩
    obtain ⟨_, rfl, hstands⟩ := read_eq_ok.1 hread
    exact ⟨hpath, hstands⟩
  · rintro ⟨hpath, hstands⟩
    obtain ⟨other, hread⟩ := Outcome.exists_of_mapM h hpath
    obtain ⟨_, hother, hothers⟩ := read_eq_ok.1 hread
    rw [hstands.eq hothers hother.symm]
    exact ⟨_, hpath, hread⟩

/-- A folder is read into the files of SQL in it. -/
theorem mem_readAll {files : List SqlFile} (h : readAll d folder = .ok files) {file : SqlFile} :
    file ∈ files ↔ IsListed d folder file.path ∧ StandsOn d file := by
  obtain ⟨paths, hpaths, hread⟩ := Outcome.bind_eq_ok.1 h
  rw [mem_of_mapM_read hread, mem_list hpaths]
  constructor
  · exact fun ⟨⟨hlisted, _⟩, hstands⟩ => ⟨hlisted, hstands⟩
  · exact fun ⟨hlisted, hstands⟩ => ⟨⟨hlisted, hstands.isFile⟩, hstands⟩

theorem names_nodup_of_readAll {files : List SqlFile} (h : readAll d folder = .ok files) :
    (files.map SqlFile.name).Nodup := by
  obtain ⟨paths, hpaths, hread⟩ := Outcome.bind_eq_ok.1 h
  exact names_nodup_of_mapM (list_nodup hpaths) (fun _ hpath => ((mem_list hpaths).1 hpath).1) hread

end Artifact
end SchemaLedger
