import SchemaLedger.Proofs.Artifact.Added
import SchemaLedger.Proofs.Script.Complete
import SchemaLedger.Proofs.Script.Source

/-!
# The newest migration

Migrations are numbered by value and run in the order of their file names.  A
new migration has the highest number; that it runs last is another matter, and
depends on how the names of the others compare with its own.
-/

namespace SchemaLedger
namespace Script

open Artifact

variable {d : Disk} {root path : Path} {paths : List Path} {w w' : World} {s : Script}

/-! ## Order of migrations -/

/-- The last of a list in the order of names is the one with the greatest name. -/
theorem getLast?_eq_some_iff_of_sorted
    (hsorted : paths.Pairwise fun p q => Text.atMost p.name q.name = true)
    (hnames : ∀ p ∈ paths, ∀ q ∈ paths, p.name = q.name → p = q) (hmem : path ∈ paths) :
    paths.getLast? = some path ↔ ∀ other ∈ paths, other ≠ path → other.name < path.name := by
  obtain ⟨front, last, rfl⟩ :=
    (List.eq_nil_or_concat' paths).resolve_left (List.ne_nil_of_mem hmem)
  rw [List.getLast?_concat, Option.some.injEq]
  obtain ⟨_, _, hfront⟩ := List.pairwise_append.1 hsorted
  have hbelow : ∀ other ∈ front, other.name ≤ last.name := fun other hother =>
    Text.atMost_eq_true_iff.1 (hfront other hother last (List.mem_singleton.2 rfl))
  constructor
  · rintro rfl other hother hne
    rcases List.mem_append.1 hother with hother' | hother'
    · refine lt_of_le_of_ne (hbelow other hother') fun hname => hne ?_
      exact hnames other hother last hmem hname
    · exact absurd (List.mem_singleton.1 hother') hne
  · intro hgreatest
    by_contra hne
    have hlast : last ∈ front ++ [last] := List.mem_append_right _ (List.mem_singleton.2 rfl)
    have hpath : path ∈ front := by
      rcases List.mem_append.1 hmem with hpath | hpath
      · exact hpath
      · exact absurd (List.mem_singleton.1 hpath).symm hne
    exact absurd (hgreatest last hlast hne) (not_lt.2 (hbelow path hpath))

theorem migrationPaths_nodup (h : migrationPaths d root = .ok paths) : paths.Nodup := by
  obtain ⟨listed, hlisted, rfl⟩ := Contents.migrationPaths_eq_ok.1 h
  exact (list_nodup hlisted).filter _

theorem migrationPaths_sorted (h : migrationPaths d root = .ok paths) :
    paths.Pairwise fun p q => Text.atMost p.name q.name = true := by
  obtain ⟨listed, hlisted, rfl⟩ := Contents.migrationPaths_eq_ok.1 h
  exact (list_sorted hlisted).filter _

theorem eq_of_mem_migrationPaths (h : migrationPaths d root = .ok paths) :
    ∀ p ∈ paths, ∀ q ∈ paths, p.name = q.name → p = q := by
  intro p hp q hq hname
  obtain ⟨⟨⟨_, _, _, name, _, rfl⟩, _⟩, _⟩ := (Contents.mem_migrationPaths h).1 hp
  obtain ⟨⟨⟨_, _, _, other, _, rfl⟩, _⟩, _⟩ := (Contents.mem_migrationPaths h).1 hq
  rw [Path.name_child, Path.name_child] at hname
  rw [hname]

/-- The migrations of a script run in the order of their paths. -/
theorem sources_migrations (h : assemble d root = .ok s)
    (hpaths : migrationPaths d root = .ok paths) :
    s.sources (some .migrations) = paths.map fun p => sourceOf Layout.migrations p.name := by
  obtain ⟨c, hread, rfl⟩ := Contents.exists_of_assemble h
  obtain ⟨paths', hpaths', hfiles⟩ := hread.migrations
  obtain rfl : paths = paths' := Except.ok.inj (hpaths.symm.trans hpaths')
  have hstage : c.fragments.filter (·.stage = .migrations) =
      c.migrations.map (migrationFragment .migrations) :=
    (filter_stage .migrations c.stage_of_mem_parts).trans (List.append_nil _)
  have hsources : sources ⟨schemaTag, c.fragments⟩ (some .migrations) =
      (c.fragments.filter (·.stage = .migrations)).filterMap Fragment.origin := by
    rw [sources, c.ordered_of_fragments rfl, List.filterMap_filter]
    refine List.filterMap_congr fun f _ => ?_
    simp only [Option.all_some, eq_comm (a := f.stage)]
  rw [hsources, hstage, List.filterMap_map, ← paths_of_mapM hfiles, List.map_map,
    ← List.filterMap_eq_map]
  exact List.filterMap_congr fun file _ => origin_migrationFragment .migrations file

/-! ## The new migration -/

theorem name_ne_bootstrap {n : Nat} (h : n ≠ 0) (hnumber : numberOf path = .ok (some n)) :
    path.name ≠ Layout.bootstrap := by
  intro hname
  have hstem : path.stem = numeral 0 := by
    rw [Path.stem, hname]
    decide
  rw [numberOf_of_stem hstem] at hnumber
  exact h (Option.some.inj (Except.ok.inj hnumber)).symm

/-- Among labels the next name is the greatest until the labels run out. -/
theorem greatest_name_iff {folder : Path} {listed : List Path} {highest : Nat}
    (hcounted : Counted d folder listed highest)
    (hlabels : ∀ other ∈ listed, other.name ≠ Layout.bootstrap → IsLabel other.stem) :
    (∀ other ∈ listed, other.name ≠ Layout.bootstrap →
      other.name < Layout.fileName (numeral (highest + 1))) ↔ IsLabel (numeral (highest + 1)) := by
  have hlisted : ∀ other ∈ listed, IsListed d folder other := fun other hother =>
    ((mem_list hcounted.listed).1 hother).1
  constructor
  · intro hgreatest
    rw [isLabel_numeral_iff]
    by_contra hfull
    have hhigh : 99999 ≤ highest := Nat.le_of_lt_succ (Nat.not_lt.1 hfull)
    have hne : highest ≠ 0 := by omega
    obtain ⟨last, hlast, hnumber⟩ := hcounted.attained.resolve_left hne
    have hname := name_ne_bootstrap hne hnumber
    have hlabel := hlabels last hlast hname
    rw [hlabel.numberOf] at hnumber
    have hvalue := Option.some.inj (Except.ok.inj hnumber)
    -- the highest number has the last label
    have hbound := Text.spelled_lt hlabel.2
    rw [hlabel.1, hvalue] at hbound
    obtain rfl : highest = 99999 := Nat.le_antisymm (Nat.le_of_lt_succ hbound) hhigh
    have hnine : IsLabel (numeral 99999) := (isLabel_numeral_iff _).2 (by decide)
    have hstem : last.stem = numeral 99999 :=
      Text.eq_of_digits (hlabel.1.trans hnine.1.symm) hlabel.2 hnine.2
        (hvalue.trans (spelled_numeral _).symm)
    have hbefore := hgreatest last hlast hname
    rw [name_of_isListed (hlisted last hlast), hstem] at hbefore
    exact absurd hbefore (by decide)
  · intro hnew other hother hname
    have hlabel := hlabels other hother hname
    have hvalue := hcounted.bound other hother _ hlabel.numberOf
    rw [name_of_isListed (hlisted other hother), Layout.fileName, Layout.fileName,
      Text.digits_lt_iff Layout.suffix (hlabel.1.trans hnew.1.symm) hlabel.2 hnew.2,
      spelled_numeral]
    exact Nat.lt_succ_of_le hvalue

/-- A new migration comes to those that are there.  It is the last of them
exactly when every other name comes before its own; where the others all have
labels, exactly while a label is left for it.  The script runs the migrations in
this order. -/
theorem migrationPaths_of_createMigration (h : (createMigration root).runIn w = (.ok path, w')) :
    ∃ old new, migrationPaths w.disk root = .ok old ∧ migrationPaths w'.disk root = .ok new ∧
      new.Perm (path :: old) ∧
      (new.getLast? = some path ↔ ∀ other ∈ old, other.name < path.name) ∧
      ((∀ other ∈ old, IsLabel other.stem) →
        (new.getLast? = some path ↔ IsLabel path.stem)) ∧
      ∀ s, assemble w'.disk root = .ok s →
        s.sources (some .migrations) = new.map fun p => sourceOf Layout.migrations p.name := by
  obtain ⟨listed, highest, hcounted, rfl, more, hmore, hmem⟩ :=
    createNumbered_ok (by decide) h
  have hold := Contents.migrationPaths_eq_ok.2 ⟨listed, hcounted.listed, rfl⟩
  have hnew := Contents.migrationPaths_eq_ok.2 ⟨more, hmore, rfl⟩
  have hname := name_ne_bootstrap (Nat.succ_ne_zero highest)
    (numberOf_numeral (root.child Layout.migrations) (highest + 1))
  have hfresh := hcounted.fresh
  generalize hpath : (root.child Layout.migrations).child
    (Layout.fileName (numeral (highest + 1))) = path at *
  have hfresh' : path ∉ listed.filter (·.name != Layout.bootstrap) := fun hin =>
    hfresh (List.mem_of_mem_filter hin)
  have hall : ∀ other, other ∈ more.filter (·.name != Layout.bootstrap) ↔
      other ∈ path :: listed.filter (·.name != Layout.bootstrap) := by
    intro other
    rw [List.mem_filter, hmem, List.mem_cons, List.mem_filter, bne_iff_ne]
    constructor
    · rintro ⟨rfl | hin, hother⟩
      · exact .inl rfl
      · exact .inr ⟨hin, hother⟩
    · rintro (rfl | ⟨hin, hother⟩)
      · exact ⟨.inl rfl, hname⟩
      · exact ⟨.inr hin, hother⟩
  have hlast : (more.filter (·.name != Layout.bootstrap)).getLast? = some path ↔
      ∀ other ∈ listed.filter (·.name != Layout.bootstrap), other.name < path.name := by
    rw [getLast?_eq_some_iff_of_sorted (migrationPaths_sorted hnew)
      (eq_of_mem_migrationPaths hnew) ((hall path).2 List.mem_cons_self)]
    constructor
    · intro hbefore other hother
      refine hbefore other ((hall other).2 (List.mem_cons_of_mem _ hother)) ?_
      rintro rfl
      exact hfresh' hother
    · intro hbefore other hother hne
      exact hbefore other ((List.mem_cons.1 ((hall other).1 hother)).resolve_left hne)
  refine ⟨_, _, hold, hnew, ?_, hlast, fun hlabels => ?_, fun s hs => sources_migrations hs hnew⟩
  · exact (List.perm_ext_iff_of_nodup (migrationPaths_nodup hnew)
      (List.nodup_cons.2 ⟨hfresh', migrationPaths_nodup hold⟩)).2 hall
  · rw [hlast, ← hpath, stem_fileName (numeral_ne_nil _), Path.name_child]
    simp only [List.mem_filter, bne_iff_ne, and_imp] at hlabels ⊢
    exact greatest_name_iff hcounted hlabels

theorem migrationPaths_of_createMigration_seven :
    ((createMigration workingPath).runIn { disk := diskOfSeven }).1 =
    .ok (workingMigration "00008.sql") ∧
      ∃ paths, migrationPaths
          ((createMigration workingPath).runIn { disk := diskOfSeven }).2.disk workingPath =
        .ok paths ∧ paths.getLast? = some (workingMigration "00008.sql") := by
  have hmade : ((createMigration workingPath).runIn { disk := diskOfSeven }).1 =
      .ok (workingMigration "00008.sql") := by
    decide +kernel
  have hthere : migrationPaths diskOfSeven workingPath = .ok [workingMigration "00007.sql"] := by
    decide +kernel
  obtain ⟨old, new, hold, hnew, _, _, hlabels, _⟩ :=
    migrationPaths_of_createMigration (Act.runIn_eq_of_fst hmade)
  obtain rfl : old = [workingMigration "00007.sql"] := Except.ok.inj (hold.symm.trans hthere)
  exact ⟨hmade, new, hnew, (hlabels (by decide)).2 (by decide)⟩

def diskOfLastLabel : Disk := onlyMigration "99999.sql".name

/-- Behind the last label the new migration comes first. -/
theorem createMigration_behind_lastLabel :
    ((createMigration workingPath).runIn { disk := diskOfLastLabel }).1 =
    .ok (workingMigration "100000.sql") ∧
      migrationPaths
          ((createMigration workingPath).runIn { disk := diskOfLastLabel }).2.disk workingPath =
        .ok [workingMigration "100000.sql", workingMigration "99999.sql"] := by
  refine ⟨by decide +kernel, Contents.migrationPaths_eq_ok.2
    ⟨[workingMigration "100000.sql", workingMigration "99999.sql"], ?_, by decide⟩⟩
  refine list_eq_ok.2 (.inr ⟨["99999.sql".text, "100000.sql".text],
    [workingMigration "99999.sql", workingMigration "100000.sql"], by decide +kernel,
    by decide +kernel, ?_⟩)
  have horder : Text.atMost (workingMigration "99999.sql").name
      (workingMigration "100000.sql").name =
      false := by
    decide
  simp [List.mergeSort, List.MergeSort.Internal.splitInTwo, horder]

end Script
end SchemaLedger
