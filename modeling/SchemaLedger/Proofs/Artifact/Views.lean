import Mathlib.Data.List.Perm.Subperm
import SchemaLedger.Proofs.Artifact.Writing
import SchemaLedger.Proofs.Dump.Identifier
import SchemaLedger.Proofs.Dump.Kind

/-!
# Files of views

Views with different names go to different files and none is lost.  Views whose
identifiers agree up to the first bracket or blank have one name for the
program: they share a file, and each but the last is replaced with a warning.
-/

namespace SchemaLedger

/-! ## Lists without repetitions -/

section Distinct

variable {α : Type} [DecidableEq α]

theorem perm_eraseDups {l : List α} (h : l.Nodup) : l.eraseDups.Perm l :=
  (List.perm_ext_iff_of_nodup (nodup_eraseDups l) h).2 fun _ => List.mem_eraseDups

theorem length_eraseDups_lt {l : List α} (h : ¬ l.Nodup) : l.eraseDups.length < l.length := by
  have hsub := List.Nodup.subperm (nodup_eraseDups l) fun _ => List.mem_eraseDups.1
  refine Nat.lt_of_le_of_ne hsub.length_le fun heq => h ?_
  exact (hsub.perm_of_length_le (Nat.le_of_eq heq.symm)).nodup_iff.1 (nodup_eraseDups l)

theorem find?_reverse_of_nodup {β : Type} {f : β → α} {l : List β} {b : β}
    (h : (l.map f).Nodup) (hb : b ∈ l) : l.reverse.find? (f · = f b) = some b := by
  cases hfind : l.reverse.find? (f · = f b) with
  | none =>
    have := List.find?_eq_none.1 hfind b (List.mem_reverse.2 hb)
    simp at this
  | some c =>
    have hc := List.mem_reverse.1 (List.mem_of_find?_eq_some hfind)
    have heq : f c = f b := by simpa using List.find?_some hfind
    rw [List.inj_on_of_nodup_map h hc hb heq]

end Distinct

namespace Artifact

open Dump Text

variable {is : List Identifier} {statements : List Statement} {root : Path}

theorem map_pathOf_of_makes (h : List.Forall₂ Identifier.Makes is statements) :
    statements.map (pathOf root) = is.map fun i => objectPath root .view (nameIn i.text) := by
  induction h with
  | nil => rfl
  | cons hmakes _ ih => rw [List.map_cons, List.map_cons, ih, pathOf, hmakes.kind, hmakes.name]

theorem exists_makes (h : List.Forall₂ Identifier.Makes is statements) {i : Identifier}
    (hi : i ∈ is) : ∃ s ∈ statements, i.Makes s := by
  induction h with
  | nil => cases hi
  | cons hmakes _ ih =>
    rcases List.mem_cons.1 hi with rfl | hi
    · exact ⟨_, List.mem_cons_self, hmakes⟩
    · obtain ⟨s, hs, hmakes'⟩ := ih hi
      exact ⟨s, List.mem_cons_of_mem _ hs, hmakes'⟩

/-- Views have one file each exactly when their names differ. -/
theorem nodup_paths_iff :
    (is.map fun i => objectPath root .view (nameIn i.text)).Nodup ↔
      (is.map fun i => nameIn i.text).Nodup := by
  have hmap : (is.map fun i => objectPath root .view (nameIn i.text)) =
      (is.map fun i => nameIn i.text).map (objectPath root .view) := by
    rw [List.map_map]
    rfl
  rw [hmap]
  exact List.nodup_map_iff fun a b hab => (objectPath_eq_iff.1 hab).2

theorem stored_whole (t : Text) (s : Statement)
    (h : s.text = viewOpening ++ (t ++ [.char ';', .char '\n'])) :
    stored s = viewOpening ++ (t ++ [.char ';', .char '\n']) := by
  have hgap : IsGap [.char '\n'] := isGap_singleton rfl
  have hshape : s.text = (viewOpening ++ t ++ [.char ';']) ++ [.char '\n'] := by simp [h]
  rw [stored, hshape, trimRight_append_gap hgap, trimRight_semicolon]
  simp

section Written

variable {s : Split} {w w' : World} {paths : List Path}

/-- Views with different names are all there. -/
theorem read_of_writeDump (hmade : List.Forall₂ Identifier.Makes is s.statements)
    (hnames : ∀ t ∈ s.statements, t.name.Plain)
    (hrun : (writeDump s root).runIn w = (.ok paths, w'))
    (hnodup : (s.statements.map (pathOf root)).Nodup) {i : Identifier} (hi : i ∈ is)
    (htight : Tight i.text) : w'.disk.read (objectPath root .view (nameIn i.text)) =
      .ok (Utf8.encode (viewOpening ++ (i.body ++ [.char ';', .char '\n']))) := by
  obtain ⟨made, hmem, hmakes⟩ := exists_makes hmade hi
  have hpath : pathOf root made = objectPath root .view (nameIn i.text) := by
    rw [pathOf, hmakes.kind, hmakes.name]
  have hlast : s.statements.reverse.find?
      (pathOf root · = objectPath root .view (nameIn i.text)) = some made := by
    rw [← hpath]
    exact find?_reverse_of_nodup hnodup hmem
  have hfind := find_of_writeDump hnames hrun hlast
  rw [stored_whole i.body made (hmakes.text htight)] at hfind
  exact Disk.read_eq_ok.2 hfind

/-- Of statements with one path only the last is left, and there is a warning. -/
theorem fewer_of_writeDump (hrun : (writeDump s root).runIn w = (.ok paths, w'))
    (hrepeated : ¬ (s.statements.map (pathOf root)).Nodup) :
    paths.length ≤ s.statements.length ∧ ∃ more new old,
      w'.complaints = w.complaints ++ more ∧ replacement new old <:+: more := by
  have hloud : warnings root [] s.statements ≠ [] := fun hnil =>
    hrepeated (warnings_eq_nil_iff.1 hnil).1
  obtain ⟨new, old, hreplaced⟩ := exists_replacement_of_warnings hloud
  refine ⟨?_, _, new, old, complaints_of_writeDump hrun, hreplaced⟩
  obtain ⟨_, _, _, hpaths⟩ := writeDump_ok hrun
  have hfewer := length_eraseDups_lt fun hnodup => hrepeated (List.nodup_reverse.1 hnodup)
  rw [hpaths, List.length_append, List.length_mergeSort, List.length_singleton]
  rw [List.length_reverse, List.length_map] at hfewer
  omega

end Written

/-- A dump of views that is written.  When the identifiers differ up to the first
bracket or blank, each view has a file of its own with the whole of it and there
is no warning; otherwise there are fewer files than views, and a warning. -/
theorem writeDump_views (h : ∀ i ∈ is, i.WellFormed)
    (hquiet : ∀ i ∈ is, i.Quiet) {noise : List Text} {s : Split}
    (hsplit : split (Identifier.dump is) noise = .ok s) {w w' : World} {paths : List Path}
    (hrun : (writeDump s root).runIn w = (.ok paths, w')) :
    ((is.map fun i => nameIn i.text).Nodup →
      paths.Perm ((is.map fun i => objectPath root .view (nameIn i.text)) ++ [bootstrapPath root]) ∧
      w'.complaints = w.complaints ∧
      ∀ i ∈ is, Tight i.text → w'.disk.read (objectPath root .view (nameIn i.text)) =
        .ok (Utf8.encode (viewOpening ++ (i.body ++ [.char ';', .char '\n'])))) ∧
    (¬ (is.map fun i => nameIn i.text).Nodup →
      paths.length ≤ is.length ∧ ∃ more new old,
        w'.complaints = w.complaints ++ more ∧ replacement new old <:+: more) := by
  have hmade := Identifier.statements_of_split h hquiet hsplit
  have hmap : s.statements.map (pathOf root) = _ := map_pathOf_of_makes hmade
  have hpathsNodup : (s.statements.map (pathOf root)).Nodup ↔
      (is.map fun i => nameIn i.text).Nodup := by
    rw [hmap]
    exact nodup_paths_iff
  rw [← hpathsNodup]
  constructor
  · intro hnodup
    obtain ⟨_, _, _, hpaths⟩ := writeDump_ok hrun
    have hsilent : warnings root [] s.statements = [] := warnings_eq_nil_iff.2 ⟨hnodup, by simp⟩
    refine ⟨?_, by rw [complaints_of_writeDump hrun, hsilent, List.append_nil],
      fun i hi => read_of_writeDump hmade (plain_names_of_writeDump hsplit hrun) hrun hnodup hi⟩
    rw [hpaths, ← hmap]
    refine List.Perm.append_right _ ((List.mergeSort_perm _ _).trans ?_)
    exact (perm_eraseDups (List.nodup_reverse.2 hnodup)).trans (List.reverse_perm _)
  · intro hrepeated
    rw [hmade.length_eq]
    exact fewer_of_writeDump hrun hrepeated

def atRoot : Path := ⟨.relative, [[.char 'r']]⟩

/-- A working folder with a root in it. -/
def emptyRoot : World :=
  { disk := (Disk.ensureFolders ⟨Tree.empty, []⟩ atRoot).2 }

/-- Two views that differ in front of their first blanks. -/
def apart : List Identifier :=
  [⟨none, .quoted "a b".text⟩, ⟨some (.plain [.char 's']), .quoted "a; (b".text⟩]

/-- A semicolon of the second identifier ends its statement. -/
def apartSplit : Split :=
  ⟨[⟨.view, "\"a".text, viewOpening ++ "\"a b\" AS SELECT 1;\n".text, 1⟩,
    ⟨.view, "s.\"a;".text, viewOpening ++ "s.\"a; ".text, 2⟩], "(b\" AS SELECT 1;\n".text⟩

theorem writeDump_views_apart :
    split (Identifier.dump apart) [] = .ok apartSplit ∧
      ((writeDump apartSplit atRoot).runIn emptyRoot).2.complaints = [] ∧
      ((writeDump apartSplit atRoot).runIn emptyRoot).2.disk.read
          (objectPath atRoot .view "\"a".text) =
        .ok (Utf8.encode "CREATE OR REPLACE VIEW \"a b\" AS SELECT 1;\n".text) := by
  have hwell : ∀ i ∈ apart, i.WellFormed := by decide
  have hsplit : split (Identifier.dump apart) [] = .ok apartSplit := by decide +kernel
  obtain ⟨paths, hrun⟩ : ∃ paths, ((writeDump apartSplit atRoot).runIn emptyRoot).1 = .ok paths :=
    ⟨_, rfl⟩
  obtain ⟨happart, _⟩ := writeDump_views hwell (by decide +kernel) hsplit (Act.runIn_eq_of_fst hrun)
  obtain ⟨_, hcomplaints, hread⟩ := happart (by decide +kernel)
  exact ⟨hsplit, hcomplaints, hread _ List.mem_cons_self (by decide +kernel)⟩

/-- Two views that differ behind the first blank only. -/
def alike : List Identifier :=
  [⟨none, .quoted "a b".text⟩, ⟨none, .quoted "a c".text⟩]

def alikeSplit : Split :=
  ⟨[⟨.view, "\"a".text, viewOpening ++ "\"a b\" AS SELECT 1;\n".text, 1⟩,
    ⟨.view, "\"a".text, viewOpening ++ "\"a c\" AS SELECT 1;\n".text, 2⟩], []⟩

/-- Their identifiers are different, and there is one file and a warning. -/
theorem writeDump_views_alike :
    (alike.map Identifier.text).Nodup ∧
      split (Identifier.dump alike) [] = .ok alikeSplit ∧
      ((writeDump alikeSplit atRoot).runIn emptyRoot).1 =
        .ok [objectPath atRoot .view "\"a".text, bootstrapPath atRoot] ∧
      ((writeDump alikeSplit atRoot).runIn emptyRoot).2.complaints =
        "[init] warning: view '\"a' at line 2 replaces the one at line 1\n".text := by
  decide +kernel

end Artifact
end SchemaLedger
