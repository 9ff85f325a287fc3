import Mathlib.Data.List.Infix
import SchemaLedger.Proofs.Artifact.Views

/-!
# A split dump on disk

A dump is written as a sequence of files.  When each of them can be written, what
is then on the disk and what was said about it are those of the split: one file
for each kind and name, with the last of its statements, and a warning for each
statement that takes the place of an earlier one.
-/

namespace SchemaLedger

namespace Disk

variable {d e : Disk} {path : Path} {content : Text} {more files : List (Path × Text)}

/-- The files are written to the disk one after the other, each into a folder
that is made where it is missing. -/
inductive Stores : Disk → List (Path × Text) → Disk → Prop
  | nil (d : Disk) : Stores d [] d
  | cons {d m e f : Disk} {path : Path} {content : Text} {more : List (Path × Text)}
      (folders : d.ensureFolders path.parent = (.ok (), m))
      (plain : content.Plain) (file : m.write path (Utf8.encode content) = .ok e)
      (rest : Stores e more f) :
      Stores d ((path, content) :: more) f

namespace Stores

theorem keeps (h : Stores d files e) : d.Keeps e := by
  induction h with
  | nil d => exact .refl d
  | cons folders _ file _ ih =>
    obtain ⟨hgrows, _⟩ := ensureFolders_grows folders
    exact (hgrows.keeps.trans (keeps_of_write file)).trans ih

/-- Where none of the files was written, there are the same files as before. -/
theorem file_iff {place : Location} {data : Bytes} (h : Stores d files e)
    (hother : ∀ path ∈ files.map Prod.fst, e.locate path ≠ .ok place) :
    e.tree.at? place = some (.file data) ↔ d.tree.at? place = some (.file data) := by
  induction h with
  | nil d => exact Iff.rfl
  | @cons d m e f path content more folders _ file rest ih =>
    obtain ⟨hpath, hmore⟩ := List.forall_mem_cons.1 hother
    obtain ⟨hgrows, _⟩ := ensureFolders_grows folders
    obtain ⟨name, folder, hlocate, _, _⟩ := locate_of_write file
    have hkept := rest.keeps.locate ((keeps_of_write file).locate hlocate)
    have hne : place ≠ name :: folder := by
      rintro rfl
      exact hpath hkept
    rw [ih hmore, (at?_of_write file hlocate).2 place hne]
    constructor
    · intro hthere
      rcases hgrows.tree.eq_or_new hthere with hold | ⟨_, hfolder, _⟩
      · exact hold
      · -- only folders are made on the way to a file
        cases hfolder
    · exact hgrows.tree.at?_of_some

end Stores
end Disk

namespace Path

theorem namesBefore_eq_true_iff {a b : List Text} : namesBefore a b = true ↔ a < b := by
  induction a generalizing b with
  | nil => cases b <;> simp [namesBefore]
  | cons x xs ih =>
    cases b with
    | nil => simp [namesBefore]
    | cons y ys =>
      rw [namesBefore, List.cons_lt_cons_iff]
      by_cases hxy : x = y
      · subst hxy
        rw [if_pos rfl, ih]
        simp
      · rw [if_neg hxy, Text.before_eq_true_iff]
        simp [hxy]

theorem atMost_eq_true_iff {p q : Path} : atMost p q = true ↔ p.names ≤ q.names := by
  rw [atMost, Bool.not_eq_true', ← Bool.not_eq_true, namesBefore_eq_true_iff, not_lt]

theorem pairwise_mergeSort (paths : List Path) :
    (paths.mergeSort atMost).Pairwise fun p q => p.names ≤ q.names := by
  have hsorted : (paths.mergeSort atMost).Pairwise fun p q => atMost p q = true := by
    refine List.pairwise_mergeSort (fun a b c hab hbc => ?_) (fun a b => ?_) paths
    · rw [atMost_eq_true_iff] at *
      exact hab.trans hbc
    · rw [Bool.or_eq_true, atMost_eq_true_iff, atMost_eq_true_iff]
      exact le_total _ _
  exact hsorted.imp atMost_eq_true_iff.1

end Path

namespace Artifact

open Disk

variable {root path : Path} {w : World} {d : Disk} {s : Dump.Split}
variable {statements : List Dump.Statement} {done : Written}

/-! ## What is replaced -/

/-- The last statement of a kind with a name. -/
def lastOf (kind : ObjectKind) (name : Text) (statements : List Dump.Statement) :
    Option Dump.Statement :=
  statements.reverse.find? fun t => t.kind = kind ∧ t.name = name

/-- Each statement that has one of its kind and name in front of it, with the
nearest of these. -/
def replaced (statements : List Dump.Statement) : List (Dump.Statement × Dump.Statement) :=
  (statements.inits.zip statements).filterMap fun (front, t) =>
    (lastOf t.kind t.name front).map fun old => (t, old)

def lineOf (pair : Dump.Statement × Dump.Statement) : Text :=
  replacement pair.1 pair.2 ++ [.char '\n']

theorem pathOf_eq_iff {t : Dump.Statement} {kind : ObjectKind} {name : Text} :
    pathOf root t = objectPath root kind name ↔ t.kind = kind ∧ t.name = name :=
  objectPath_eq_iff

theorem lookup_written {front : List Dump.Statement} {kind : ObjectKind} {name : Text} :
    (front.map fun t => (pathOf root t, t)).reverse.lookup (objectPath root kind name) =
      lastOf kind name front := by
  rw [lastOf, ← List.map_reverse]
  induction front.reverse with
  | nil => rfl
  | cons t rest ih =>
    rw [List.map_cons, List.lookup_cons, List.find?_cons, ih]
    by_cases hsame : t.kind = kind ∧ t.name = name
    · rw [pathOf_eq_iff.2 hsame, beq_self_eq_true, decide_eq_true hsame]
    · have hpath : objectPath root kind name ≠ pathOf root t := fun heq =>
        hsame (pathOf_eq_iff.1 heq.symm)
      rw [beq_eq_false_iff_ne.2 hpath, decide_eq_false hsame]

/-- The warnings are about the statements that are replaced. -/
theorem warnings_eq (front : List Dump.Statement) :
    warnings root (front.map fun t => (pathOf root t, t)).reverse statements =
      ((statements.inits.zip statements).filterMap fun (behind, t) =>
        (lastOf t.kind t.name (front ++ behind)).map fun old => (t, old)).flatMap lineOf := by
  induction statements generalizing front with
  | nil => rfl
  | cons t rest ih =>
    have hwarning : warning root (front.map fun t => (pathOf root t, t)).reverse t =
        ((lastOf t.kind t.name front).map fun old => (t, old)).toList.flatMap lineOf := by
      rw [warning, lookup_written]
      cases lastOf t.kind t.name front with
      | none => rfl
      | some old => exact (List.append_nil _).symm
    have hdone : (pathOf root t, t) :: (front.map fun t => (pathOf root t, t)).reverse =
        ((front ++ [t]).map fun t => (pathOf root t, t)).reverse := by
      rw [List.map_append, List.reverse_append]
      rfl
    have hrest := ih (front ++ [t])
    simp only [List.append_assoc, List.singleton_append] at hrest
    rw [warnings, hwarning, hdone, hrest]
    simp only [List.inits_cons, List.zip_cons_cons, List.zip_map_left, List.filterMap_cons,
      List.filterMap_map, List.append_nil]
    cases lastOf t.kind t.name front with
    | none => rfl
    | some old =>
      rw [Option.map_some, Option.toList_some, List.flatMap_singleton, List.flatMap_cons]
      rfl

theorem warnings_nil : warnings root [] statements = (replaced statements).flatMap lineOf :=
  warnings_eq []

/-! ## A run that writes -/

theorem runIn_writeStatements_of_stores {more : List (Path × Text)} (done : Written)
    (h : Stores w.disk ((statements.map fun t => (pathOf root t, stored t)) ++ more) d) :
    ∃ middle, Stores middle more d ∧ (writeStatements root done statements).runIn w =
      (.ok ((statements.map fun t => (pathOf root t, t)).reverse ++ done),
        { w with
          disk := middle
          complaints := w.complaints ++ warnings root done statements }) := by
  induction statements generalizing done w with
  | nil =>
    refine ⟨w.disk, h, ?_⟩
    rw [warnings, List.append_nil]
    rfl
  | cons t rest ih =>
    cases h with
    | @cons _ m e _ _ _ _ folders plain file hrest =>
      obtain ⟨middle, hmiddle, hrun⟩ :=
        @ih { w with disk := e, complaints := w.complaints ++ warning root done t }
          ((pathOf root t, t) :: done) hrest
      refine ⟨middle, hmiddle, ?_⟩
      rw [runIn_writeStatements_cons]
      refine Act.bind_eq_ok.2 ⟨(), _, runIn_writeText_of_write folders plain file, hrun.trans ?_⟩
      rw [warnings, List.map_cons, List.reverse_cons]
      simp only [List.append_assoc, List.singleton_append]

/-- The files of a split dump in the order in which they are written. -/
def files (s : Dump.Split) (root : Path) : List (Path × Text) :=
  (s.statements.map fun t => (pathOf root t, stored t)) ++ [(bootstrapPath root, s.bootstrap)]

theorem checkNames_eq_ok (h : ∀ t ∈ s.statements, isStorable t.name = true) :
    checkNames s = .ok () := by
  have hnone : s.statements.find? (!isStorable ·.name) = none := by
    simpa using h
  rw [checkNames, hnone]

theorem runIn_writeDump_of_stores (hnames : ∀ t ∈ s.statements, isStorable t.name = true)
    (h : Stores w.disk (files s root) d) : (writeDump s root).runIn w =
      (.ok ((s.statements.map (pathOf root)).reverse.eraseDups.mergeSort Path.atMost ++
          [bootstrapPath root]),
        { w with
          disk := d
          complaints := w.complaints ++ (replaced s.statements).flatMap lineOf }) := by
  obtain ⟨middle, hbootstrap, hrun⟩ := runIn_writeStatements_of_stores [] h
  rw [List.append_nil] at hrun
  cases hbootstrap with
  | @cons _ m e _ _ _ _ folders plain file hrest =>
    cases hrest
    unfold writeDump
    refine Act.bind_eq_ok.2 ⟨(), w, ?_, Act.bind_eq_ok.2 ⟨_, _, hrun, ?_⟩⟩
    · rw [Act.runIn_look, checkNames_eq_ok hnames]
    · refine Act.bind_eq_ok.2 ⟨(), _, runIn_writeText_of_write folders plain file, ?_⟩
      rw [warnings_nil, List.map_reverse, List.map_map]
      rfl

theorem stores_of_writeStatements {all : Written} {w' : World} {more : List (Path × Text)}
    (h : (writeStatements root done statements).runIn w = (.ok all, w'))
    (hmore : Stores w'.disk more d) :
    Stores w.disk ((statements.map fun t => (pathOf root t, stored t)) ++ more) d := by
  induction statements generalizing done w with
  | nil =>
    cases h
    exact hmore
  | cons t rest ih =>
    rw [runIn_writeStatements_cons] at h
    obtain ⟨_, middle, hwrite, hrest⟩ := Act.bind_eq_ok.1 h
    obtain ⟨m, e, hfolders, hplain, hfile, rfl⟩ := writeText_ok hwrite
    exact .cons hfolders hplain hfile (ih hrest)

/-- A dump is written only if each of its files can be. -/
theorem stores_of_writeDump {paths : List Path} {w' : World}
    (h : (writeDump s root).runIn w = (.ok paths, w')) : Stores w.disk (files s root) w'.disk := by
  obtain ⟨middle, hstatements, hbootstrap, _⟩ := writeDump_ok h
  obtain ⟨m, e, hfolders, hplain, hfile, rfl⟩ := writeText_ok hbootstrap
  exact stores_of_writeStatements hstatements (.cons hfolders hplain hfile (.nil e))

/-! ## What is then there -/

/-- The name is full stops only or has a character that no file name is given. -/
def Unstorable (name : Text) : Prop :=
  (∀ c ∈ name, c = '.') ∨ .char '/' ∈ name ∨ .char '\\' ∈ name ∨ .char '\'' ∈ name

theorem isStorable_eq_false_iff {name : Text} : isStorable name = false ↔ Unstorable name := by
  have hdots : Text.isOnlyDots name = true ↔ ∀ c ∈ name, c = '.' := by
    simp [Text.isOnlyDots]
  have hmarks : (name.all fun c => c != '/' && c != '\\' && c != '\'') = false ↔
      .char '/' ∈ name ∨ .char '\\' ∈ name ∨ .char '\'' ∈ name := by
    rw [List.all_eq_false]
    constructor
    · rintro ⟨c, hc, hmark⟩
      simp only [Bool.and_eq_true, bne_iff_ne, not_and_or, not_not] at hmark
      rcases hmark with (rfl | rfl) | rfl
      · exact .inl hc
      · exact .inr (.inl hc)
      · exact .inr (.inr hc)
    · rintro (hc | hc | hc)
      all_goals exact ⟨_, hc, by decide⟩
  rw [isStorable, Bool.and_eq_false_iff, Bool.not_eq_false', hdots, hmarks, Unstorable]

/-- The paths of the objects of a split, each once and in order. -/
structure ListsObjects (s : Dump.Split) (root : Path) (paths : List Path) : Prop where
  nodup : paths.Nodup
  sorted : paths.Pairwise fun p q => p.names ≤ q.names
  mem : ∀ path, path ∈ paths ↔
    ∃ kind name t, (name, t) ∈ s.ofKind kind ∧ path = objectPath root kind name

/-- The files of a split are on the disk `e`, and all else in files is as it is on
`d`. -/
structure HoldsSplit (s : Dump.Split) (root : Path) (d e : Disk) : Prop where
  object : ∀ kind name t, (name, t) ∈ s.ofKind kind →
    e.read (objectPath root kind name) = .ok (Utf8.encode (stored t))
  bootstrap : e.read (bootstrapPath root) = .ok (Utf8.encode s.bootstrap)
  others : ∀ place, (∀ kind name t, (name, t) ∈ s.ofKind kind →
      e.locate (objectPath root kind name) ≠ .ok place) →
    e.locate (bootstrapPath root) ≠ .ok place →
    ∀ data, e.tree.at? place = some (.file data) ↔ d.tree.at? place = some (.file data)

theorem mem_map_pathOf : path ∈ s.statements.map (pathOf root) ↔
    ∃ kind name t, (name, t) ∈ s.ofKind kind ∧ path = objectPath root kind name := by
  simp only [Dump.Split.mem_ofKind]
  constructor
  · intro hmem
    obtain ⟨t, ht, rfl⟩ := List.mem_map.1 hmem
    have hsome : (s.statements.reverse.find? fun u => u.kind = t.kind ∧ u.name = t.name).isSome :=
      List.find?_isSome.2 ⟨t, List.mem_reverse.2 ht, by simp⟩
    obtain ⟨last, hlast⟩ := Option.isSome_iff_exists.1 hsome
    exact ⟨t.kind, t.name, last, hlast, rfl⟩
  · rintro ⟨kind, name, t, hlast, rfl⟩
    have hsame : t.kind = kind ∧ t.name = name := by simpa using List.find?_some hlast
    have hmem := List.mem_reverse.1 (List.mem_of_find?_eq_some hlast)
    exact List.mem_map.2 ⟨t, hmem, pathOf_eq_iff.2 hsame⟩

theorem listsObjects (s : Dump.Split) (root : Path) : ListsObjects s root
    ((s.statements.map (pathOf root)).reverse.eraseDups.mergeSort Path.atMost) where
  nodup := (List.mergeSort_perm _ _).nodup_iff.2 (nodup_eraseDups _)
  sorted := Path.pairwise_mergeSort _
  mem path := by
    rw [List.mem_mergeSort, List.mem_eraseDups, List.mem_reverse, mem_map_pathOf]

theorem holdsSplit_of_writeDump {paths : List Path} {w' : World}
    (hnames : ∀ t ∈ s.statements, t.name.Plain)
    (h : (writeDump s root).runIn w = (.ok paths, w')) : HoldsSplit s root w.disk w'.disk where
  object kind name t hmem := by
    refine Disk.read_eq_ok.2 (find_of_writeDump hnames h ?_)
    simp only [pathOf_eq_iff]
    exact Dump.Split.mem_ofKind.1 hmem
  bootstrap := by
    obtain ⟨_, _, hbootstrap, _⟩ := writeDump_ok h
    exact Disk.read_eq_ok.2 (find_of_writeText hbootstrap)
  others place hobjects hbootstrap data := by
    refine (stores_of_writeDump h).file_iff fun path hpath => ?_
    rw [files, List.map_append, List.map_map] at hpath
    rcases List.mem_append.1 hpath with hpath | hpath
    · obtain ⟨kind, name, t, hmem, rfl⟩ := mem_map_pathOf.1 hpath
      exact hobjects kind name t hmem
    · rw [List.mem_singleton.1 hpath]
      exact hbootstrap

/-- A split is written exactly when each of its files can be.  The answer is their
paths, and each statement that is replaced is named with the one that replaces
it.  When it is the split of a dump its objects are then on the disk, the last
of each kind and name, with the bootstrap migration and nothing else that is new
in files.  A name that no file can have is refused in front of all writes. -/
theorem writeDump_of_split (s : Dump.Split) (root : Path) (w : World) :
    ((∃ t ∈ s.statements, Unstorable t.name) → ∃ t ∈ s.statements, Unstorable t.name ∧
      (writeDump s root).runIn w = (.error (.failure (.file (.unstorable t))), w)) ∧
    ((∀ t ∈ s.statements, ¬ Unstorable t.name) → ∀ d, w.disk.Stores (files s root) d →
      ∃ objects, (writeDump s root).runIn w = (.ok (objects ++ [bootstrapPath root]),
          { w with
            disk := d
            complaints := w.complaints ++ (replaced s.statements).flatMap lineOf }) ∧
        ListsObjects s root objects ∧
        ((∃ dump noise, Dump.split dump noise = .ok s) → HoldsSplit s root w.disk d)) ∧
    ∀ paths w', (writeDump s root).runIn w = (.ok paths, w') →
      w.disk.Stores (files s root) w'.disk := by
  refine ⟨fun hbad => ?_, fun hnames d hstores => ?_, fun _ _ => stores_of_writeDump⟩
  · obtain ⟨t, ht, hname⟩ := hbad
    have hsome : (s.statements.find? (!isStorable ·.name)).isSome :=
      List.find?_isSome.2 ⟨t, ht, by rw [isStorable_eq_false_iff.2 hname]; rfl⟩
    obtain ⟨first, hfirst⟩ := Option.isSome_iff_exists.1 hsome
    have hfalse : isStorable first.name = false := by simpa using List.find?_some hfirst
    refine ⟨first, List.mem_of_find?_eq_some hfirst, isStorable_eq_false_iff.1 hfalse, ?_⟩
    unfold writeDump
    rw [Act.runIn_bind, Act.runIn_look, checkNames, hfirst]
  · have hstorable : ∀ t ∈ s.statements, isStorable t.name = true := fun t ht =>
      Bool.of_not_eq_false fun hfalse => hnames t ht (isStorable_eq_false_iff.1 hfalse)
    have hrun := runIn_writeDump_of_stores hstorable hstores
    refine ⟨_, hrun, listsObjects s root, fun ⟨dump, noise, hsplit⟩ => ?_⟩
    exact holdsSplit_of_writeDump (plain_names_of_writeDump hsplit hrun) hrun

/-- Two views of one name and a function of the same name. -/
def namesakes : Text :=
  ("CREATE VIEW v AS SELECT 1;\nCREATE FUNCTION v() RETURNS int AS $$$$;\n" ++
    "CREATE VIEW v AS TABLE t;\n").text

def lastNamesake : Dump.Statement :=
  ⟨.view, [.char 'v'], "CREATE OR REPLACE VIEW v AS TABLE t;\n".text, 3⟩

def namesakesSplit : Dump.Split :=
  ⟨[⟨.view, [.char 'v'], "CREATE OR REPLACE VIEW v AS SELECT 1;\n".text, 1⟩,
    ⟨.function, [.char 'v'], "CREATE OR REPLACE FUNCTION v() RETURNS int AS $$$$;\n".text, 2⟩,
    lastNamesake], []⟩

/-- A view whose name leads out of the folder of views. -/
def outward : Dump.Statement :=
  ⟨.view, "../w".text, "CREATE OR REPLACE VIEW ../w AS TABLE t;\n".text, 4⟩

theorem writeDump_of_split_namesakes :
    Dump.split namesakes [] = .ok namesakesSplit ∧
      ((writeDump namesakesSplit atRoot).runIn emptyRoot).2.complaints =
        "[init] warning: view 'v' at line 3 replaces the one at line 1\n".text ∧
      ((writeDump namesakesSplit atRoot).runIn emptyRoot).2.disk.read
          (objectPath atRoot .view [.char 'v']) =
        .ok (Utf8.encode "CREATE OR REPLACE VIEW v AS TABLE t;\n".text) ∧
      (writeDump ⟨namesakesSplit.statements ++ [outward], []⟩ atRoot).runIn emptyRoot =
        (.error (.failure (.file (.unstorable outward))), emptyRoot) := by
  have hnames : ∀ t ∈ namesakesSplit.statements, ¬ Unstorable t.name := by
    intro t ht
    rw [← isStorable_eq_false_iff]
    revert t ht
    decide
  have hrun : ∃ paths, ((writeDump namesakesSplit atRoot).runIn emptyRoot).1 = .ok paths :=
    ⟨_, rfl⟩
  obtain ⟨paths, hrun⟩ := hrun
  obtain ⟨_, hwritten, hstores⟩ := writeDump_of_split namesakesSplit atRoot emptyRoot
  obtain ⟨objects, hends, _, hholds⟩ :=
    hwritten hnames _ (hstores paths _ (Act.runIn_eq_of_fst hrun))
  have hcomplaints : (replaced namesakesSplit.statements).flatMap lineOf =
      "[init] warning: view 'v' at line 3 replaces the one at line 1\n".text := by
    decide +kernel
  have hlast : ([.char 'v'], lastNamesake) ∈ namesakesSplit.ofKind .view := by
    decide +kernel
  have hstored : stored lastNamesake = lastNamesake.text := by
    decide +kernel
  have hsplit : Dump.split namesakes [] = .ok namesakesSplit := by
    decide +kernel
  have hview := (hholds ⟨_, _, hsplit⟩).object .view [.char 'v'] lastNamesake hlast
  rw [hstored] at hview
  refine ⟨hsplit, ?_, hview, ?_⟩
  · rw [hends]
    exact hcomplaints
  · obtain ⟨hrefused, _⟩ :=
      writeDump_of_split ⟨namesakesSplit.statements ++ [outward], []⟩ atRoot emptyRoot
    have hslash : Unstorable outward.name := .inr (.inl (by decide))
    obtain ⟨t, ht, hbad, hend⟩ := hrefused ⟨outward, by simp, hslash⟩
    rcases List.mem_append.1 ht with ht | ht
    · exact absurd hbad (hnames t ht)
    · rw [hend, List.mem_singleton.1 ht]

end Artifact
end SchemaLedger
