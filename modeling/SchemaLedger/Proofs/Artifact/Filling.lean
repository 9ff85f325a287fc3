import SchemaLedger.Artifact.Write
import SchemaLedger.Proofs.Tree.Change
import SchemaLedger.Proofs.World

/-!
# Filling a new tree

The files of a dump are written into folders that are there already.  While
none of them was there before, each write adds one file or writes a new one
again, and a refused write leaves what was written so far.
-/

namespace SchemaLedger

namespace Path

theorem parent_child (p : Path) (name : Text) : (p.child name).parent = p := by
  unfold parent child
  rw [List.dropLast_concat]

end Path

namespace Artifact

open Disk

variable {base d e : Disk} {made : Location × Entry → Prop} {root : Path} {place : Location}
variable {written : List Path} {w w' : World}

theorem runIn_writeBytes (path : Path) (data : Bytes) (w : World) :
    (writeBytes path data).runIn w =
      match w.disk.write path data with
      | .ok disk => (.ok (), { w with disk })
      | .error fault =>
        (.error (fault.reported fun cause => .file (.unwritable path cause)), w) := by
  unfold writeBytes
  cases hwrite : w.disk.write path data with
  | error fault => rw [Act.runIn_change (r := .error fault) (d := w.disk) (by rw [hwrite])]; rfl
  | ok disk => rw [Act.runIn_change (r := .ok ()) (d := disk) (by rw [hwrite])]; rfl

/-- A write into a folder that is there makes no folder. -/
theorem runIn_writeText {path : Path} {content : Text}
    (h : w.disk.isFolder path.parent = .ok true) :
    (writeText path content).runIn w = (writeContent path content).runIn w := by
  have hfolders : w.disk.ensureFolders path.parent = (.ok (), w.disk) :=
    ensureFolders_of_isFolder h
  rw [writeText, Act.runIn_bind, Act.runIn_change (f := (·.ensureFolders path.parent)) hfolders]
  rfl

/-- A text is written, or the write fails, or the file is left empty because the
text cannot be encoded. -/
inductive ContentRun (path : Path) (content : Text) (w : World) : Except Error Unit → World → Prop
  | written {disk : Disk} : content.Plain → w.disk.write path (Utf8.encode content) = .ok disk →
      ContentRun path content w (.ok ()) { w with disk }
  | failed {data : Bytes} {fault : PathFault} : w.disk.write path data = .error fault →
      ContentRun path content w
        (.error (fault.reported fun cause => .file (.unwritable path cause))) w
  | emptied {disk : Disk} {fault : Utf8.Unencodable} : ¬content.Plain →
      w.disk.write path [] = .ok disk →
      ContentRun path content w (.error (.unencodable fault)) { w with disk }

theorem contentRun_writeContent (path : Path) (content : Text) (w : World) :
    ContentRun path content w ((writeContent path content).runIn w).1
      ((writeContent path content).runIn w).2 := by
  unfold writeContent
  cases hencode : Utf8.encodeStrict content with
  | ok data =>
    obtain ⟨hplain, rfl⟩ := Utf8.encodeStrict_eq_ok.1 hencode
    simp only [runIn_writeBytes]
    cases hwrite : w.disk.write path (Utf8.encode content) with
    | ok disk => exact .written hplain hwrite
    | error fault => exact .failed hwrite
  | error fault =>
    have hsurrogate : ¬content.Plain := fun hplain => by
      rw [Utf8.encodeStrict_of_plain hplain] at hencode
      cases hencode
    simp only [Act.runIn_bind, runIn_writeBytes]
    cases hwrite : w.disk.write path [] with
    | ok disk => exact .emptied hsurrogate hwrite
    | error fault => exact .failed hwrite

theorem folder_mem_initialFolders (kind : ObjectKind) : kind.folder ∈ initialFolders := by
  cases kind <;> decide

theorem migrations_mem_initialFolders : Layout.migrations ∈ initialFolders := by decide

theorem initialFolders_onward :
    ∀ folder ∈ initialFolders, folder ≠ [.char '.', .char '.'] := by decide

theorem initialFolders_usable : ∀ folder ∈ initialFolders, folder.Usable := by decide

theorem fileName_onward (name : Text) : Layout.fileName name ≠ [.char '.', .char '.'] := by
  intro h
  have hlen := congrArg List.length h
  have hsuffix : Layout.suffix.length = 4 := rfl
  rw [Layout.fileName, List.length_append, hsuffix] at hlen
  simp at hlen

/-- A tree while it is filled: its folders are there, and besides what was made
at first only the files of `written` are new. -/
structure Filling (base : Disk) (made : Location × Entry → Prop) (root : Path)
    (place : Location) (written : List Path) (d : Disk) : Prop where
  located : d.locate root = .ok place
  folders : ∀ folder ∈ initialFolders, d.isFolder (root.child folder) = .ok true
  grows : base.Grows d fun x =>
    made x ∨ x.2.isFolder = false ∧ ∃ path ∈ written, d.locate path = .ok x.1
  files : ∀ path ∈ written, ∃ target data, d.locate path = .ok target ∧
    d.tree.at? target = some (.file data) ∧ place <:+ target

namespace Filling

/-- Each of the folders is one step behind the root. -/
theorem locate_folder (h : Filling base made root place written d) {folder : Text}
    (hfolder : folder ∈ initialFolders) :
    d.tree.at? place = some .folder ∧
      d.locate (root.child folder) = .ok (.ofText folder :: place) := by
  obtain ⟨inner, hinner⟩ := exists_locate_of_isFolder (h.folders folder hfolder)
  obtain ⟨hplace, rfl⟩ := eq_stepTo_of_locate_child h.located hinner
  rw [stepTo, if_neg (initialFolders_onward folder hfolder)] at hinner
  exact ⟨hplace, hinner⟩

theorem isFolder (h : Filling base made root place written d) :
    d.tree.at? place = some .folder :=
  (h.locate_folder migrations_mem_initialFolders).1

theorem congr (h : Filling base made root place written d) {paths : List Path}
    (hpaths : ∀ path, path ∈ paths ↔ path ∈ written) :
    Filling base made root place paths d := by
  refine ⟨h.located, h.folders, h.grows.mono fun x _ hx => ?_, fun path hpath => ?_⟩
  · refine hx.imp id fun ⟨hfile, path, hpath, hlocate⟩ => ?_
    exact ⟨hfile, path, (hpaths path).2 hpath, hlocate⟩
  · exact h.files path ((hpaths path).1 hpath)

/-- Where nothing was, the folders are those that were made. -/
theorem find_folder (h : Filling base (fun x => x.2 = .folder) root place written d)
    (hnone : base.tree.at? place = none) {folder : Text} (hfolder : folder ∈ initialFolders) :
    d.find (root.child folder) = .ok .folder := by
  obtain ⟨entry, hfind, hentry⟩ := isFolder_eq_true.1 (h.folders folder hfolder)
  obtain ⟨inner, hinner, hthere⟩ := find_eq_ok.1 hfind
  obtain rfl := Except.ok.inj (hinner.symm.trans (h.locate_folder hfolder).2)
  rcases h.grows.tree.eq_or_new hthere with hold | ⟨_, hmade | ⟨hfile, _⟩⟩
  · rw [Tree.at?_eq_none_of_suffix (List.suffix_cons _ place) hnone] at hold
    cases hold
  · rw [hfind]
    exact congrArg _ hmade
  · rw [hentry] at hfile
    cases hfile

/-- One write keeps a filling. -/
theorem write (h : Filling base made root place written d) (hnone : base.tree.at? place = none)
    {folder name : Text} {data : Bytes} (hfolder : folder ∈ initialFolders)
    (hname : name ≠ [.char '.', .char '.'])
    (hwrite : d.write ((root.child folder).child name) data = .ok e) :
    Filling base made root place ((root.child folder).child name :: written) e := by
  have hkeeps := keeps_of_write hwrite
  obtain ⟨_, hinner⟩ := h.locate_folder hfolder
  obtain ⟨_, _, htarget, _, _⟩ := locate_of_write hwrite
  have htargetPlace := (eq_stepTo_of_locate_child hinner htarget).2
  rw [stepTo, if_neg hname] at htargetPlace
  rw [htargetPlace] at htarget
  have hinside : place <:+ .ofText name :: .ofText folder :: place :=
    ⟨[.ofText name, .ofText folder], rfl⟩
  have hnew : base.tree.at? (.ofText name :: .ofText folder :: place) = none :=
    Tree.at?_eq_none_of_suffix hinside hnone
  obtain ⟨hself, hother⟩ := at?_of_write hwrite htarget
  refine ⟨hkeeps.locate h.located, fun f hf => hkeeps.isFolder (h.folders f hf), ?_, ?_⟩
  · refine (h.grows.mono fun x _ hx => ?_).write hwrite htarget hnew ?_
    · rcases hx with hold | ⟨hfile, path, hpath, hlocate⟩
      · exact .inl hold
      · exact .inr ⟨hfile, path, List.mem_cons_of_mem _ hpath, hkeeps.locate hlocate⟩
    · exact .inr ⟨rfl, _, List.mem_cons_self, hkeeps.locate htarget⟩
  · intro path hpath
    rcases List.mem_cons.1 hpath with rfl | hpath
    · exact ⟨_, data, hkeeps.locate htarget, hself, hinside⟩
    · obtain ⟨target, old, hlocate, hfile, htargetInside⟩ := h.files path hpath
      by_cases heq : target = .ofText name :: .ofText folder :: place
      · exact ⟨_, data, hkeeps.locate hlocate, heq ▸ hself, htargetInside⟩
      · refine ⟨target, old, hkeeps.locate hlocate, ?_, htargetInside⟩
        rw [hother target heq]
        exact hfile

end Filling

/-! ## Runs that write -/

variable {r : Except Error Unit}

theorem writeText_run (h : Filling base made root place written w.disk)
    (hnone : base.tree.at? place = none) {folder name content : Text}
    (hfolder : folder ∈ initialFolders) (hname : name ≠ [.char '.', .char '.'])
    (hrun : (writeText ((root.child folder).child name) content).runIn w = (r, w')) :
    r = .ok () ∧ Filling base made root place ((root.child folder).child name :: written) w'.disk ∨
      (∃ e, r = .error e) ∧ ∃ paths, Filling base made root place paths w'.disk := by
  have hparent : w.disk.isFolder ((root.child folder).child name).parent = .ok true := by
    rw [Path.parent_child]
    exact h.folders folder hfolder
  have hcontent := contentRun_writeContent ((root.child folder).child name) content w
  rw [← runIn_writeText hparent, hrun] at hcontent
  cases hcontent with
  | written _ hwrite => exact .inl ⟨rfl, h.write hnone hfolder hname hwrite⟩
  | failed _ => exact .inr ⟨⟨_, rfl⟩, written, h⟩
  | emptied _ hwrite => exact .inr ⟨⟨_, rfl⟩, _, h.write hnone hfolder hname hwrite⟩

/-- The complaint about a statement whose file was written before. -/
def warning (root : Path) (done : Written) (s : Dump.Statement) : Text :=
  match done.lookup (objectPath root s.kind s.name) with
  | some old => replacement s old ++ [.char '\n']
  | none => []

/-- One statement: at most a warning, then the write. -/
theorem runIn_writeStatements_cons (root : Path) (done : Written) (s : Dump.Statement)
    (rest : List Dump.Statement) (w : World) :
    (writeStatements root done (s :: rest)).runIn w =
      (writeText (objectPath root s.kind s.name) (stored s) >>= fun _ =>
        writeStatements root ((objectPath root s.kind s.name, s) :: done) rest).runIn
          { w with complaints := w.complaints ++ warning root done s } := by
  rw [writeStatements, warning]
  simp only
  cases hold : done.lookup (objectPath root s.kind s.name) with
  | none => rw [List.append_nil]
  | some old =>
    simp only
    rw [Act.runIn_bind, Act.runIn_complain, List.append_assoc]

/-- The run of all writes: each adds its path, and the first that is refused
ends it. -/
theorem writeStatements_run {done : Written} {statements : List Dump.Statement}
    {r : Except Error Written} (h : Filling base made root place (done.map (·.1)) w.disk)
    (hnone : base.tree.at? place = none)
    (hrun : (writeStatements root done statements).runIn w = (r, w')) :
    (∃ all, r = .ok all ∧ Filling base made root place (all.map (·.1)) w'.disk) ∨
      (∃ e, r = .error e) ∧ ∃ paths, Filling base made root place paths w'.disk := by
  induction statements generalizing done w with
  | nil =>
    cases hrun
    exact .inl ⟨done, rfl, h⟩
  | cons s rest ih =>
    rw [runIn_writeStatements_cons] at hrun
    generalize hwarned : { w with complaints := w.complaints ++ warning root done s } =
      warned at hrun
    have hdisk : warned.disk = w.disk := by rw [← hwarned]
    rw [← hdisk] at h
    cases hwrite : (writeText (objectPath root s.kind s.name) (stored s)).runIn warned with
    | mk first middle =>
      rw [Act.runIn_bind, hwrite] at hrun
      rcases writeText_run h hnone (folder_mem_initialFolders s.kind) (fileName_onward s.name)
        hwrite with ⟨rfl, hfilled⟩ | ⟨⟨e, rfl⟩, hkept⟩
      · have hfilled' : Filling base made root place
            (((objectPath root s.kind s.name, s) :: done).map (·.1)) middle.disk := hfilled
        exact ih hfilled' hrun
      · cases hrun
        exact .inr ⟨⟨e, rfl⟩, hkept⟩

theorem writeDump_run {split : Dump.Split} {r : Except Error (List Path)}
    (h : Filling base made root place [] w.disk) (hnone : base.tree.at? place = none)
    (hnames : checkNames split = .ok ())
    (hrun : (writeDump split root).runIn w = (r, w')) :
    (∃ paths, r = .ok paths ∧ Filling base made root place paths w'.disk) ∨
      (∃ e, r = .error e) ∧ ∃ paths, Filling base made root place paths w'.disk := by
  unfold writeDump at hrun
  rw [Act.runIn_bind, Act.runIn_look, hnames] at hrun
  simp only at hrun
  rw [Act.runIn_bind] at hrun
  cases hstatements : (writeStatements root [] split.statements).runIn w with
  | mk first middle =>
    rw [hstatements] at hrun
    rcases writeStatements_run h hnone hstatements with ⟨all, rfl, hfilled⟩ | ⟨⟨e, rfl⟩, hkept⟩
    · simp only at hrun
      rw [Act.runIn_bind] at hrun
      cases hbootstrap : (writeText (bootstrapPath root) split.bootstrap).runIn middle with
      | mk second last =>
        rw [hbootstrap] at hrun
        have hname : Layout.bootstrap ≠ [.char '.', .char '.'] := by decide
        rcases writeText_run hfilled hnone migrations_mem_initialFolders hname hbootstrap with
          ⟨rfl, hfull⟩ | ⟨⟨e, rfl⟩, hkept⟩
        · cases hrun
          refine .inl ⟨_, rfl, hfull.congr fun path => ?_⟩
          rw [List.mem_append, List.mem_mergeSort, List.mem_eraseDups, List.mem_singleton,
            List.mem_cons]
          exact or_comm
        · cases hrun
          exact .inr ⟨⟨e, rfl⟩, hkept⟩
    · cases hrun
      exact .inr ⟨⟨e, rfl⟩, hkept⟩

/-! ## Folders stay -/

theorem keeps_of_writeText {path : Path} {content : Text}
    (h : (writeText path content).runIn w = (r, w')) : w.disk.Keeps w'.disk := by
  have hfolders : w.disk.Keeps (w.disk.ensureFolders path.parent).2 := by
    obtain ⟨hgrows, _⟩ := ensureFolders_grows (d := w.disk) (p := path.parent) rfl
    exact hgrows.keeps
  unfold writeText at h
  rcases hfirst : (Act.change (·.ensureFolders path.parent)
    fun cause => .file (.unwritable path cause)).runIn w with ⟨first, middle⟩
  have hmiddle := Act.disk_of_change hfirst
  rw [Act.runIn_bind, hfirst] at h
  rw [← hmiddle] at hfolders
  cases first with
  | error e =>
    cases h
    exact hfolders
  | ok u =>
    have hcontent := contentRun_writeContent path content middle
    have hrun : (writeContent path content).runIn middle = (r, w') := h
    rw [hrun] at hcontent
    refine hfolders.trans ?_
    cases hcontent with
    | written _ hwrite => exact keeps_of_write hwrite
    | failed _ => exact .refl _
    | emptied _ hwrite => exact keeps_of_write hwrite

theorem keeps_of_writeStatements {done all : Written} {statements : List Dump.Statement}
    (h : (writeStatements root done statements).runIn w = (.ok all, w')) :
    w.disk.Keeps w'.disk := by
  induction statements generalizing done w with
  | nil =>
    cases h
    exact .refl _
  | cons s rest ih =>
    rw [runIn_writeStatements_cons] at h
    obtain ⟨_, middle, hwrite, hrest⟩ := Act.bind_eq_ok.1 h
    have hkeeps := keeps_of_writeText hwrite
    exact hkeeps.trans (ih hrest)

theorem keeps_of_writeDump {split : Dump.Split} {paths : List Path}
    (h : (writeDump split root).runIn w = (.ok paths, w')) : w.disk.Keeps w'.disk := by
  unfold writeDump at h
  obtain ⟨_, checked, hcheck, h⟩ := Act.bind_eq_ok.1 h
  obtain ⟨all, middle, hstatements, h⟩ := Act.bind_eq_ok.1 h
  obtain ⟨_, last, hbootstrap, h⟩ := Act.bind_eq_ok.1 h
  have hchecked : w = checked := congrArg Prod.snd hcheck
  have hlast : last = w' := congrArg Prod.snd h
  subst hchecked hlast
  exact (keeps_of_writeStatements hstatements).trans (keeps_of_writeText hbootstrap)

/-! ## Errors -/

/-- The error of a write that fails: it is refused, or a text is no path or no
content. -/
def IsUnwritable (e : Error) : Prop :=
  (∃ path fault, e = .failure (.file (.unwritable path fault))) ∨
    ∃ reason, e = .fault (.unusable reason)

theorem isUnwritable_reported (path : Path) (fault : PathFault) :
    IsUnwritable (fault.reported fun cause => .file (.unwritable path cause)) := by
  cases fault with
  | refused fault => exact .inl ⟨path, fault, rfl⟩
  | unusable reason => exact .inr ⟨reason, rfl⟩

theorem usable_objectPath {kind : ObjectKind} {name : Text} (hroot : root.text.Usable)
    (hname : name.Usable) : (objectPath root kind name).text.Usable := by
  have hfolder : kind.folder.Usable := initialFolders_usable _ (folder_mem_initialFolders kind)
  have hfile : (Layout.fileName name).Usable := Text.usable_append.2 ⟨hname, by decide⟩
  exact Path.usable_child.2 ⟨Path.usable_child.2 ⟨hroot, hfolder⟩, hfile⟩

theorem usable_bootstrapPath (hroot : root.text.Usable) : (bootstrapPath root).text.Usable :=
  Path.usable_child.2 ⟨Path.usable_child.2 ⟨hroot, by decide⟩, by decide⟩

variable {e : Error}

theorem isUnwritable_of_writeText {path : Path} {content : Text}
    (h : (writeText path content).runIn w = (.error e, w')) : IsUnwritable e := by
  unfold writeText at h
  rcases Act.bind_eq_error.1 h with h | ⟨_, middle, _, h⟩
  · obtain ⟨fault, rfl, _⟩ := Act.change_eq_error h
    exact isUnwritable_reported path fault
  · have hcontent := contentRun_writeContent path content middle
    rw [h] at hcontent
    generalize hresult : (Except.error e : Except Error Unit) = result at hcontent
    cases hcontent with
    | written _ _ => cases hresult
    | failed _ =>
      cases hresult
      exact isUnwritable_reported path _
    | emptied _ _ =>
      cases hresult
      exact .inr ⟨_, rfl⟩

theorem isUnwritable_of_writeStatements {done : Written} {statements : List Dump.Statement}
    (h : (writeStatements root done statements).runIn w = (.error e, w')) : IsUnwritable e := by
  induction statements generalizing done w with
  | nil => cases h
  | cons s rest ih =>
    rw [runIn_writeStatements_cons] at h
    rcases Act.bind_eq_error.1 h with h | ⟨_, _, _, h⟩
    · exact isUnwritable_of_writeText h
    · exact ih h

/-- A content that can be encoded is written to a path that can be one, or the
write is refused. -/
theorem failure_of_writeText {path : Path} {content : Text} (hpath : path.text.Usable)
    (hcontent : content.Plain) (h : (writeText path content).runIn w = (.error e, w')) :
    ∃ failure, e = .failure failure := by
  unfold writeText at h
  rcases Act.bind_eq_error.1 h with h | ⟨_, middle, _, h⟩
  · obtain ⟨fault, rfl, hfault⟩ := Act.change_eq_error h
    cases fault with
    | refused fault => exact ⟨_, rfl⟩
    | unusable reason =>
      exact absurd (Path.usable_parent hpath) (not_usable_of_ensureFolders hfault)
  · have hran := contentRun_writeContent path content middle
    rw [h] at hran
    generalize hresult : (Except.error e : Except Error Unit) = result at hran
    cases hran with
    | written _ _ => cases hresult
    | @failed _ fault hwrite =>
      cases hresult
      cases fault with
      | refused fault => exact ⟨_, rfl⟩
      | unusable reason =>
        rw [← Text.unusable?_eq_none, unusable?_of_write hwrite] at hpath
        cases hpath
    | emptied hsurrogate _ => exact absurd hcontent hsurrogate

/-- A split whose files can be named and written below a root. -/
structure Storable (split : Dump.Split) : Prop where
  statements : ∀ s ∈ split.statements, s.name.Usable ∧ (stored s).Plain
  bootstrap : split.bootstrap.Plain

theorem failure_of_writeStatements {done : Written} {statements : List Dump.Statement}
    (hroot : root.text.Usable)
    (hstatements : ∀ s ∈ statements, s.name.Usable ∧ (stored s).Plain)
    (h : (writeStatements root done statements).runIn w = (.error e, w')) :
    ∃ failure, e = .failure failure := by
  induction statements generalizing done w with
  | nil => cases h
  | cons s rest ih =>
    obtain ⟨⟨hname, hstored⟩, hrest⟩ := List.forall_mem_cons.1 hstatements
    rw [runIn_writeStatements_cons] at h
    rcases Act.bind_eq_error.1 h with h | ⟨_, _, _, h⟩
    · exact failure_of_writeText (usable_objectPath hroot hname) hstored h
    · exact ih hrest h

theorem failure_of_writeDump {split : Dump.Split} (hroot : root.text.Usable)
    (hsplit : Storable split) (hnames : checkNames split = .ok ())
    (h : (writeDump split root).runIn w = (.error e, w')) :
    ∃ failure, e = .failure failure := by
  unfold writeDump at h
  rw [Act.runIn_bind, Act.runIn_look, hnames] at h
  rcases Act.bind_eq_error.1 h with h | ⟨_, _, _, h⟩
  · exact failure_of_writeStatements hroot hsplit.statements h
  · rcases Act.bind_eq_error.1 h with h | ⟨_, _, _, h⟩
    · exact failure_of_writeText (usable_bootstrapPath hroot) hsplit.bootstrap h
    · cases h

theorem isUnwritable_of_writeDump {split : Dump.Split} (hnames : checkNames split = .ok ())
    (h : (writeDump split root).runIn w = (.error e, w')) : IsUnwritable e := by
  unfold writeDump at h
  rw [Act.runIn_bind, Act.runIn_look, hnames] at h
  rcases Act.bind_eq_error.1 h with h | ⟨_, _, _, h⟩
  · exact isUnwritable_of_writeStatements h
  · rcases Act.bind_eq_error.1 h with h | ⟨_, _, _, h⟩
    · exact isUnwritable_of_writeText h
    · cases h

end Artifact
end SchemaLedger
