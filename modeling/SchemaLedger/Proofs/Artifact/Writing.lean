import SchemaLedger.Proofs.Artifact.Filling
import SchemaLedger.Proofs.Artifact.Listing
import SchemaLedger.Proofs.Dump.Segment

/-!
# What a written dump holds

Statements that differ in kind or name go to different files, so each file
holds the last statement of its kind and name.  A statement that goes to a file
of an earlier one brings a warning and no further path.
-/

namespace SchemaLedger

namespace Act

variable {w w' : World}

theorem change_eq_ok {f : Disk → Except PathFault Unit × Disk} {report : SystemFault → Failure} :
    (change f report).runIn w = (.ok (), w') ↔
      ∃ d, f w.disk = (.ok (), d) ∧ w' = { w with disk := d } := by
  constructor
  · intro h
    rcases hresult : f w.disk with ⟨fault | u, disk⟩
    · rw [runIn_change hresult] at h
      cases h
    · rw [runIn_change hresult] at h
      exact ⟨disk, rfl, (congrArg Prod.snd h).symm⟩
  · rintro ⟨d, hd, rfl⟩
    exact runIn_change hd

end Act

namespace Disk

variable {d e : Disk} {root path : Path} {place : Location} {folder name : Text} {entry : Entry}

/-- Where a path leads that goes two names down from a root. -/
theorem exists_top_of_locate (hfolder : folder ≠ [.char '.', .char '.'])
    (hname : name ≠ [.char '.', .char '.'])
    (h : d.locate ((root.child folder).child name) = .ok place) :
    ∃ top, walk d.tree (d.start root) root.names = .ok top ∧
      place = .ofText name :: .ofText folder :: top := by
  obtain ⟨_, hwalk⟩ := locate_eq_ok.1 h
  obtain ⟨inner, hinner, _, _, rfl⟩ := walk_concat.1 hwalk
  obtain ⟨top, htop, _, _, rfl⟩ := walk_concat.1 hinner
  refine ⟨top, htop, ?_⟩
  simp only [stepTo, if_neg hfolder, if_neg hname]

theorem Grows.find {new : Location × Entry → Prop} (h : d.Grows e new)
    (hfind : d.find path = .ok entry) : e.find path = .ok entry := by
  obtain ⟨place, hplace, hentry⟩ := find_eq_ok.1 hfind
  exact find_eq_ok.2 ⟨place, h.keeps.locate hplace, h.tree.at?_of_some hentry⟩

theorem find_of_write {data : Bytes} (h : d.write path data = .ok e) :
    e.find path = .ok (.file data) := by
  obtain ⟨name, folder, hplace, _, _⟩ := locate_of_write h
  exact find_eq_ok.2 ⟨_, (keeps_of_write h).locate hplace, (at?_of_write h hplace).1⟩

/-- A write leaves the other files two names down from a root alone. -/
theorem find_of_write_other {data : Bytes} {folder' name' : Text}
    (hfolder : folder ≠ [.char '.', .char '.']) (hname : name ≠ [.char '.', .char '.'])
    (hfolder' : folder' ≠ [.char '.', .char '.']) (hname' : name' ≠ [.char '.', .char '.'])
    (hne : Name.ofText folder' = .ofText folder → Name.ofText name' ≠ .ofText name)
    (h : d.write ((root.child folder').child name') data = .ok e)
    (hfind : d.find ((root.child folder).child name) = .ok entry) :
    e.find ((root.child folder).child name) = .ok entry := by
  obtain ⟨place, hplace, hentry⟩ := find_eq_ok.1 hfind
  obtain ⟨_, _, hother, _, _⟩ := locate_of_write h
  refine find_eq_ok.2 ⟨place, (keeps_of_write h).locate hplace, ?_⟩
  obtain ⟨top, htop, rfl⟩ := exists_top_of_locate hfolder hname hplace
  obtain ⟨top', htop', heq⟩ := exists_top_of_locate hfolder' hname' hother
  have hsame : top' = top := Except.ok.inj (htop'.symm.trans htop)
  rw [(at?_of_write h hother).2]
  · exact hentry
  · rw [heq, hsame]
    intro hplaces
    injection hplaces with hnames hrest
    injection hrest with hfolders _
    exact hne hfolders.symm hnames.symm

end Disk

namespace Artifact

open Disk

variable {root path : Path} {w w' : World} {entry : Entry} {done all : Written}
variable {statements : List Dump.Statement}

/-! ## Paths of statements -/

theorem folder_injective : Function.Injective ObjectKind.folder := by
  intro a b h
  cases a <;> cases b <;> first | rfl | exact absurd h (by decide)

theorem fileName_injective : Function.Injective Layout.fileName := by
  intro a b h
  exact List.append_cancel_right h

theorem folder_onward (kind : ObjectKind) : kind.folder ≠ [.char '.', .char '.'] :=
  initialFolders_onward _ (folder_mem_initialFolders kind)

theorem ofText_folder_injective {kind other : ObjectKind}
    (h : Name.ofText kind.folder = .ofText other.folder) : kind = other := by
  cases kind <;> cases other <;> first | rfl | exact absurd h (by decide)

/-- Plain names that can be given to files are those of different files. -/
theorem eq_of_ofText_fileName {a b : Text} (ha : a.Plain) (hb : b.Plain) (ha' : a.Usable)
    (hb' : b.Usable) (h : Name.ofText (Layout.fileName a) = .ofText (Layout.fileName b)) :
    a = b := by
  have hplain : ∀ {t : Text}, t.Plain → (Layout.fileName t).Plain := fun ht =>
    Text.plain_append.2 ⟨ht, by decide⟩
  have husable : ∀ {t : Text}, t.Usable → (Layout.fileName t).Usable := fun ht =>
    Text.usable_append.2 ⟨ht, by decide⟩
  exact fileName_injective
    (Name.eq_of_ofText_eq (hplain ha) (hplain hb) (husable ha') (husable hb') h)

theorem ofText_folder_ne_migrations (kind : ObjectKind) :
    Name.ofText kind.folder ≠ .ofText Layout.migrations := by
  cases kind <;> decide

/-- The file that a statement is written to. -/
def pathOf (root : Path) (s : Dump.Statement) : Path :=
  objectPath root s.kind s.name

theorem objectPath_eq_iff {kind other : ObjectKind} {name another : Text} :
    objectPath root kind name = objectPath root other another ↔ kind = other ∧ name = another := by
  constructor
  · intro h
    have hnames : root.names ++ [kind.folder] ++ [Layout.fileName name] =
        root.names ++ [other.folder] ++ [Layout.fileName another] := congrArg Path.names h
    obtain ⟨hfolders, hname⟩ := List.append_inj' hnames rfl
    obtain ⟨_, hfolder⟩ := List.append_inj' hfolders rfl
    exact ⟨folder_injective (List.cons.inj hfolder).1, fileName_injective (List.cons.inj hname).1⟩
  · rintro ⟨rfl, rfl⟩
    rfl

/-! ## One write -/

theorem writeText_ok {content : Text} (h : (writeText path content).runIn w = (.ok (), w')) :
    ∃ d e, w.disk.ensureFolders path.parent = (.ok (), d) ∧ content.Plain ∧
      d.write path (Utf8.encode content) = .ok e ∧ w' = { w with disk := e } := by
  unfold writeText at h
  obtain ⟨_, middle, hfolders, hwrite⟩ := Act.bind_eq_ok.1 h
  obtain ⟨d, hd, rfl⟩ := Act.change_eq_ok.1 hfolders
  have hcontent := contentRun_writeContent path content { w with disk := d }
  rw [hwrite] at hcontent
  cases hcontent with
  | @written e hplain hfile => exact ⟨d, e, hd, hplain, hfile, rfl⟩

theorem runIn_writeText_of_write {content : Text} {m e : Disk}
    (hfolders : w.disk.ensureFolders path.parent = (.ok (), m))
    (hplain : content.Plain) (hwrite : m.write path (Utf8.encode content) = .ok e) :
    (writeText path content).runIn w = (.ok (), { w with disk := e }) := by
  unfold writeText
  refine Act.bind_eq_ok.2 ⟨(), { w with disk := m }, ?_, ?_⟩
  · exact Act.change_eq_ok.2 ⟨m, hfolders, rfl⟩
  · rw [writeContent, Utf8.encodeStrict_of_plain hplain]
    simp only [runIn_writeBytes, hwrite]

theorem usable_of_writeText {content : Text} (h : (writeText path content).runIn w = (.ok (), w')) :
    path.text.Usable := by
  obtain ⟨d, e, _, _, hwrite, _⟩ := writeText_ok h
  obtain ⟨_, _, hlocate, _⟩ := locate_of_write hwrite
  exact Text.unusable?_eq_none.1 (locate_eq_ok.1 hlocate).1.1

theorem find_of_writeText {content : Text} (h : (writeText path content).runIn w = (.ok (), w')) :
    w'.disk.find path = .ok (.file (Utf8.encode content)) := by
  obtain ⟨d, e, _, _, hwrite, rfl⟩ := writeText_ok h
  exact find_of_write hwrite

/-- A file below a root stays as it is while another one is written. -/
theorem find_of_writeText_other {content folder name folder' name' : Text}
    (hfolder : folder ≠ [.char '.', .char '.']) (hname : name ≠ [.char '.', .char '.'])
    (hfolder' : folder' ≠ [.char '.', .char '.']) (hname' : name' ≠ [.char '.', .char '.'])
    (hne : Name.ofText folder' = .ofText folder → Name.ofText name' ≠ .ofText name)
    (h : (writeText ((root.child folder').child name') content).runIn w = (.ok (), w'))
    (hfind : w.disk.find ((root.child folder).child name) = .ok entry) :
    w'.disk.find ((root.child folder).child name) = .ok entry := by
  obtain ⟨d, e, hfolders, _, hwrite, rfl⟩ := writeText_ok h
  obtain ⟨hgrows, _⟩ := ensureFolders_grows hfolders
  exact find_of_write_other hfolder hname hfolder' hname' hne hwrite (hgrows.find hfind)

/-! ## All statements -/

theorem writeStatements_eq (h : (writeStatements root done statements).runIn w = (.ok all, w')) :
    all = (statements.map fun s => (pathOf root s, s)).reverse ++ done := by
  induction statements generalizing done w with
  | nil =>
    cases h
    rfl
  | cons s rest ih =>
    rw [runIn_writeStatements_cons] at h
    obtain ⟨_, middle, _, hrest⟩ := Act.bind_eq_ok.1 h
    rw [ih hrest]
    simp [pathOf]

/-- What is written can be named and written. -/
theorem storable_of_writeStatements
    (h : (writeStatements root done statements).runIn w = (.ok all, w')) :
    ∀ s ∈ statements, s.name.Usable ∧ (stored s).Plain := by
  induction statements generalizing done w with
  | nil => nofun
  | cons s rest ih =>
    rw [runIn_writeStatements_cons] at h
    obtain ⟨_, middle, hwrite, hrest⟩ := Act.bind_eq_ok.1 h
    obtain ⟨_, _, _, hplain, _⟩ := writeText_ok hwrite
    have hfile := (Path.usable_child.1 (usable_of_writeText hwrite)).2
    exact List.forall_mem_cons.2 ⟨⟨(Text.usable_append.1 hfile).1, hplain⟩, ih hrest⟩

/-- Statements of other files leave a file alone. -/
theorem find_of_writeStatements_other {kind : ObjectKind} {name : Text}
    (hother : ∀ s ∈ statements, s.kind = kind →
      Name.ofText (Layout.fileName s.name) ≠ .ofText (Layout.fileName name))
    (h : (writeStatements root done statements).runIn w = (.ok all, w'))
    (hfind : w.disk.find (objectPath root kind name) = .ok entry) :
    w'.disk.find (objectPath root kind name) = .ok entry := by
  induction statements generalizing done w with
  | nil =>
    cases h
    exact hfind
  | cons s rest ih =>
    rw [runIn_writeStatements_cons] at h
    obtain ⟨_, middle, hwrite, hrest⟩ := Act.bind_eq_ok.1 h
    refine ih (fun t ht => hother t (List.mem_cons_of_mem _ ht)) hrest ?_
    exact find_of_writeText_other (folder_onward kind) (fileName_onward name) (folder_onward s.kind)
      (fileName_onward s.name)
      (fun hfolder => hother s List.mem_cons_self (ofText_folder_injective hfolder)) hwrite hfind

/-- A file holds the last statement that goes to it. -/
theorem find_of_writeStatements {last : Dump.Statement} {path : Path}
    (hnames : ∀ s ∈ statements, s.name.Plain)
    (h : (writeStatements root done statements).runIn w = (.ok all, w'))
    (hlast : statements.reverse.find? (pathOf root · = path) = some last) :
    w'.disk.find path = .ok (.file (Utf8.encode (stored last))) := by
  have husable := storable_of_writeStatements h
  induction statements generalizing done w with
  | nil => cases hlast
  | cons s rest ih =>
    rw [runIn_writeStatements_cons] at h
    obtain ⟨_, middle, hwrite, hrest⟩ := Act.bind_eq_ok.1 h
    rw [List.reverse_cons, List.find?_append] at hlast
    cases hlater : rest.reverse.find? (pathOf root · = path) with
    | some later =>
      rw [hlater] at hlast
      cases hlast
      exact ih (List.forall_mem_cons.1 hnames).2 hrest hlater (List.forall_mem_cons.1 husable).2
    | none =>
      rw [hlater, Option.none_or] at hlast
      obtain rfl : s = last := List.mem_singleton.1 (List.mem_of_find?_eq_some hlast) |>.symm
      obtain rfl : pathOf root s = path := by simpa using List.find?_some hlast
      refine find_of_writeStatements_other (fun t ht hkind hname => ?_) hrest
        (find_of_writeText hwrite)
      have hmem := List.mem_cons_of_mem s ht
      have hsame := eq_of_ofText_fileName (hnames t hmem) (hnames s List.mem_cons_self)
        (husable t hmem).1 (husable s List.mem_cons_self).1 hname
      have hother := List.find?_eq_none.1 hlater t (List.mem_reverse.2 ht)
      exact hother (decide_eq_true (objectPath_eq_iff.2 ⟨hkind, hsame⟩))

/-! ## Warnings -/

/-- The complaints about statements whose files were written before. -/
def warnings (root : Path) (done : Written) : List Dump.Statement → Text
  | [] => []
  | s :: rest => warning root done s ++ warnings root ((pathOf root s, s) :: done) rest

theorem complaints_of_writeText {content : Text}
    (h : (writeText path content).runIn w = (.ok (), w')) : w'.complaints = w.complaints := by
  obtain ⟨_, _, _, _, _, rfl⟩ := writeText_ok h
  rfl

theorem complaints_of_writeStatements
    (h : (writeStatements root done statements).runIn w = (.ok all, w')) :
    w'.complaints = w.complaints ++ warnings root done statements := by
  induction statements generalizing done w with
  | nil =>
    cases h
    rw [warnings, List.append_nil]
  | cons s rest ih =>
    rw [runIn_writeStatements_cons] at h
    obtain ⟨_, middle, hwrite, hrest⟩ := Act.bind_eq_ok.1 h
    rw [ih hrest, complaints_of_writeText hwrite, warnings, List.append_assoc]
    rfl

theorem warning_eq_nil_iff {s : Dump.Statement} :
    warning root done s = [] ↔ pathOf root s ∉ done.map (·.1) := by
  unfold warning pathOf
  cases hold : done.lookup (objectPath root s.kind s.name) with
  | none =>
    rw [List.lookup_eq_none_iff] at hold
    simp only [true_iff, List.mem_map, not_exists, not_and]
    intro entry hentry heq
    have := hold entry hentry
    simp [heq] at this
  | some old =>
    obtain ⟨front, back, rfl, _⟩ := List.lookup_eq_some_iff.1 hold
    simp

/-- There is no warning exactly when no file is written twice. -/
theorem warnings_eq_nil_iff :
    warnings root done statements = [] ↔ (statements.map (pathOf root)).Nodup ∧
      ∀ s ∈ statements, pathOf root s ∉ done.map (·.1) := by
  induction statements generalizing done with
  | nil => simp [warnings]
  | cons s rest ih =>
    rw [warnings, List.append_eq_nil_iff, warning_eq_nil_iff, ih, List.map_cons (f := pathOf root),
      List.nodup_cons, List.forall_mem_cons]
    simp only [List.map_cons, List.mem_cons, not_or, List.mem_map, not_exists, not_and]
    constructor
    · rintro ⟨hfresh, hnodup, hrest⟩
      exact ⟨⟨fun t ht => (hrest t ht).1, hnodup⟩, hfresh, fun t ht => (hrest t ht).2⟩
    · rintro ⟨⟨hne, hnodup⟩, hfresh, hrest⟩
      exact ⟨hfresh, hnodup, fun t ht => ⟨hne t ht, hrest t ht⟩⟩

/-- A warning names two statements. -/
theorem exists_replacement_of_warnings (h : warnings root done statements ≠ []) :
    ∃ new old, replacement new old <:+: warnings root done statements := by
  induction statements generalizing done with
  | nil => exact absurd rfl h
  | cons s rest ih =>
    rw [warnings] at h ⊢
    by_cases hrest : warnings root ((pathOf root s, s) :: done) rest = []
    · rw [hrest, List.append_nil] at h ⊢
      unfold warning at h ⊢
      split
      · next old _ => exact ⟨s, old, (List.prefix_append _ _).isInfix⟩
      · next hnone =>
        rw [hnone] at h
        exact absurd rfl h
    · obtain ⟨new, old, hinfix⟩ := ih hrest
      exact ⟨new, old, hinfix.trans (List.suffix_append _ _).isInfix⟩

/-! ## The dump -/

variable {split : Dump.Split} {paths : List Path}

theorem writeDump_ok (h : (writeDump split root).runIn w = (.ok paths, w')) :
    ∃ middle, (writeStatements root [] split.statements).runIn w =
        (.ok (split.statements.map fun s => (pathOf root s, s)).reverse, middle) ∧
      (writeText (bootstrapPath root) split.bootstrap).runIn middle = (.ok (), w') ∧
      paths = (split.statements.map (pathOf root)).reverse.eraseDups.mergeSort Path.atMost ++
        [bootstrapPath root] := by
  unfold writeDump at h
  obtain ⟨_, checked, hcheck, h⟩ := Act.bind_eq_ok.1 h
  obtain ⟨all, middle, hstatements, h⟩ := Act.bind_eq_ok.1 h
  obtain ⟨_, last, hbootstrap, h⟩ := Act.bind_eq_ok.1 h
  have hchecked : w = checked := congrArg Prod.snd hcheck
  have hlast : last = w' := congrArg Prod.snd h
  have hpaths := congrArg Prod.fst h
  subst hchecked hlast
  have hall := writeStatements_eq hstatements
  rw [List.append_nil] at hall
  subst hall
  refine ⟨middle, hstatements, hbootstrap, ?_⟩
  have hresult := (Except.ok.inj hpaths).symm
  rw [hresult, List.map_reverse, List.map_map]
  rfl

/-- The bootstrap migration is written last, and it is none of the statements'
files. -/
theorem find_of_writeDump {last : Dump.Statement} {kind : ObjectKind} {name : Text}
    (hnames : ∀ s ∈ split.statements, s.name.Plain)
    (h : (writeDump split root).runIn w = (.ok paths, w'))
    (hlast : split.statements.reverse.find? (pathOf root · = objectPath root kind name) =
    some last) :
    w'.disk.find (objectPath root kind name) = .ok (.file (Utf8.encode (stored last))) := by
  obtain ⟨middle, hstatements, hbootstrap, _⟩ := writeDump_ok h
  exact find_of_writeText_other (folder_onward kind) (fileName_onward name) (by decide) (by decide)
    (fun heq => absurd heq.symm (ofText_folder_ne_migrations kind)) hbootstrap
    (find_of_writeStatements hnames hstatements hlast)

/-- The names of a dump that is written are plain, because its files are. -/
theorem plain_names_of_writeDump {dump : Text} {noise : List Text}
    (hsplit : Dump.split dump noise = .ok split)
    (h : (writeDump split root).runIn w = (.ok paths, w')) :
    ∀ s ∈ split.statements, s.name.Plain := by
  obtain ⟨_, hstatements, _⟩ := writeDump_ok h
  intro s hs
  have hstored := (storable_of_writeStatements hstatements s hs).2
  have htext := Text.plain_of_trimRight (Text.plain_append.1 hstored).1
  exact htext.of_subset (Dump.name_subset_text_of_split hsplit hs)

theorem complaints_of_writeDump (h : (writeDump split root).runIn w = (.ok paths, w')) :
    w'.complaints = w.complaints ++ warnings root [] split.statements := by
  obtain ⟨middle, hstatements, hbootstrap, _⟩ := writeDump_ok h
  rw [complaints_of_writeText hbootstrap, complaints_of_writeStatements hstatements]

end Artifact
end SchemaLedger
