import Mathlib.Data.List.Nodup
import SchemaLedger.Proofs.Tree.Name
import SchemaLedger.Tree.Disk

/-!
# What a look at the disk says about the tree

Each request that only looks is answered from the place that its path leads to.
-/

namespace SchemaLedger

namespace Tree

/-- The names in a folder are those of the places inside it. -/
theorem names_eq_filterMap (t : Tree) (folder : Location) :
    t.names folder = (t.entries.map (·.1)).filterMap fun place =>
      match place with
      | name :: above => if above = folder then some name else none
      | [] => none := by
  rw [List.filterMap_map]
  rfl

theorem names_nodup (t : Tree) (folder : Location) : (t.names folder).Nodup := by
  rw [names_eq_filterMap]
  refine t.distinct.filterMap fun a b name ha hb => ?_
  cases a with
  | nil => cases ha
  | cons x above =>
    cases b with
    | nil => cases hb
    | cons y other =>
      simp only [Option.mem_def, Option.ite_none_right_eq_some, Option.some.injEq] at ha hb
      rw [ha.1, ha.2, hb.1, hb.2]

theorem mem_names {t : Tree} {folder : Location} {name : Name} :
    name ∈ t.names folder ↔ t.at? (name :: folder) ≠ none := by
  have hplace : name ∈ t.names folder ↔ name :: folder ∈ t.entries.map (·.1) := by
    rw [names_eq_filterMap, List.mem_filterMap]
    constructor
    · rintro ⟨place, hplace, hname⟩
      cases place with
      | nil => cases hname
      | cons x above =>
        simp only [Option.ite_none_right_eq_some, Option.some.injEq] at hname
        rwa [← hname.1, ← hname.2]
    · exact fun h => ⟨_, h, if_pos rfl⟩
  rw [hplace]
  constructor
  · exact fun hmem hnone => notMem_of_at?_none hnone hmem
  · intro h
    obtain ⟨entry, hentry⟩ := Option.ne_none_iff_exists'.1 h
    obtain ⟨before, rest, hentries, _⟩ := List.lookup_eq_some_iff.1 hentry
    rw [hentries]
    simp

end Tree

namespace Disk

variable {d : Disk} {p : Path}

theorem find_eq_ok {entry : Entry} :
    d.find p = .ok entry ↔ ∃ place, d.locate p = .ok place ∧ d.tree.at? place = some entry := by
  rw [find, Outcome.bind_eq_ok]
  refine exists_congr fun place => and_congr_right fun _ => ?_
  cases d.tree.at? place <;> simp

theorem find?_eq_ok_some {entry : Entry} : d.find? p = .ok (some entry) ↔ d.find p = .ok entry := by
  rw [find?]
  split
  · simp_all
  · simp_all
  · split <;> simp_all

theorem find?_any_eq_true {test : Entry → Bool} :
    (d.find? p).map (·.any test) = .ok true ↔
      ∃ entry, d.find p = .ok entry ∧ test entry = true := by
  rw [Outcome.map_eq_ok]
  constructor
  · rintro ⟨found, hfound, h⟩
    obtain ⟨entry, rfl, htest⟩ := (Option.any_eq_true _ _).1 h
    exact ⟨entry, find?_eq_ok_some.1 hfound, htest⟩
  · rintro ⟨entry, hfind, htest⟩
    exact ⟨_, find?_eq_ok_some.2 hfind, htest⟩

theorem isFolder_eq_true :
    d.isFolder p = .ok true ↔ ∃ entry, d.find p = .ok entry ∧ entry.isFolder = true :=
  find?_any_eq_true

theorem exists_locate_of_isFolder (h : d.isFolder p = .ok true) :
    ∃ place, d.locate p = .ok place := by
  obtain ⟨_, hfind, _⟩ := isFolder_eq_true.1 h
  obtain ⟨place, hplace, _⟩ := find_eq_ok.1 hfind
  exact ⟨place, hplace⟩

theorem isFolder_of_find (h : d.find p = .ok .folder) : d.isFolder p = .ok true :=
  isFolder_eq_true.2 ⟨_, h, rfl⟩

theorem isFile_eq_true :
    d.isFile p = .ok true ↔ ∃ entry, d.find p = .ok entry ∧ entry.isFile = true :=
  find?_any_eq_true

theorem read_eq_ok {data : Bytes} : d.read p = .ok data ↔ d.find p = .ok (.file data) := by
  rw [read, Outcome.bind_eq_ok]
  constructor
  · rintro ⟨entry, hentry, h⟩
    split at h
    · cases h
      exact hentry
    all_goals cases h
  · exact fun h => ⟨_, h, rfl⟩

theorem isPresent_of_read {data : Bytes} (h : d.read p = .ok data) : d.isPresent p = .ok true :=
  Outcome.map_eq_ok.2 ⟨_, find?_eq_ok_some.2 (read_eq_ok.1 h), rfl⟩

theorem list_eq_ok {names : List Text} :
    d.list p = .ok names ↔ ∃ place, d.locate p = .ok place ∧
      d.tree.at? place = some .folder ∧ names = (d.tree.names place).map Name.text := by
  rw [list, Outcome.bind_eq_ok]
  refine exists_congr fun place => and_congr_right fun _ => ?_
  cases h : d.tree.at? place with
  | none => simp
  | some entry =>
    cases entry with
    | file data => simp
    | locked => simp
    | folder => simp [eq_comm]
    | sealed => simp

/-- Only a folder can be listed. -/
theorem isFolder_of_list {names : List Text} (h : d.list p = .ok names) :
    d.isFolder p = .ok true := by
  obtain ⟨place, hlocate, hfolder, _⟩ := list_eq_ok.1 h
  exact isFolder_of_find (find_eq_ok.2 ⟨place, hlocate, hfolder⟩)

theorem nodup_of_list {names : List Text} (h : d.list p = .ok names) : names.Nodup := by
  obtain ⟨place, _, _, rfl⟩ := list_eq_ok.1 h
  exact (d.tree.names_nodup place).map fun _ _ => Name.text_injective

end Disk

end SchemaLedger
