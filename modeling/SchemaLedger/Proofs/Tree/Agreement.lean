import SchemaLedger.Proofs.Tree.Basic

/-!
# Trees that differ in the bytes of some files

Looking, following paths and listing need no more of a tree than where it has
folders and where files, so they cannot tell two trees with the same folders and
files apart.
-/

namespace SchemaLedger

/-- What an entry is, whatever is in a file. -/
def Entry.shape : Entry → Entry
  | .file _ => .file []
  | entry => entry

theorem Entry.shape_cases {a b : Entry} (h : a.shape = b.shape) :
    a = b ∨ ∃ x y, a = .file x ∧ b = .file y := by
  cases a <;> cases b <;> simp_all [Entry.shape]

namespace Tree

/-- The same folders and the same files, whatever is in the files. -/
def SameShape (t u : Tree) : Prop :=
  ∀ place, (t.at? place).map Entry.shape = (u.at? place).map Entry.shape

/-- At a place both trees have the same, or a file each. -/
theorem SameShape.at?_cases {t u : Tree} (h : t.SameShape u) (place : Location) :
    t.at? place = u.at? place ∨
      ∃ a b, t.at? place = some (.file a) ∧ u.at? place = some (.file b) := by
  have hplace := h place
  cases ht : t.at? place with
  | none =>
    rw [ht] at hplace
    exact .inl (Option.map_eq_none_iff.1 hplace.symm).symm
  | some a =>
    rw [ht] at hplace
    obtain ⟨b, hu, hshape⟩ := Option.map_eq_some_iff.1 hplace.symm
    rcases Entry.shape_cases hshape with rfl | ⟨x, y, rfl, rfl⟩
    · exact .inl hu.symm
    · exact .inr ⟨y, x, rfl, hu⟩

/-- The names in a folder are the same, maybe in another order. -/
theorem SameShape.names_perm {t u : Tree} (h : t.SameShape u) (folder : Location) :
    (t.names folder).Perm (u.names folder) := by
  rw [List.perm_ext_iff_of_nodup (t.names_nodup folder) (u.names_nodup folder)]
  intro name
  rw [mem_names, mem_names]
  rcases h.at?_cases (name :: folder) with heq | ⟨a, b, ht, hu⟩
  · rw [heq]
  · simp [ht, hu]

end Tree

namespace Disk

theorem walk_append (t : Tree) (place : Location) (first second : List Text) :
    walk t place (first ++ second) = (walk t place first).bind fun middle =>
      walk t middle second := by
  induction first generalizing place with
  | nil => rfl
  | cons name rest ih =>
    rw [List.cons_append, walk, walk]
    cases t.at? place with
    | none => rfl
    | some entry =>
      cases entry with
      | file data => rfl
      | locked => rfl
      | sealed => rfl
      | folder =>
        simp only
        split
        · rfl
        · exact ih _

theorem walk_congr {t u : Tree} (h : t.SameShape u) (place : Location) (names : List Text) :
    walk t place names = walk u place names := by
  induction names generalizing place with
  | nil => rfl
  | cons name rest ih =>
    rw [walk, walk]
    rcases h.at?_cases place with heq | ⟨a, b, ht, hu⟩
    · simp only [heq, ih]
    · rw [ht, hu]

/-- The same working folder and trees of the same shape. -/
structure SameShape (d e : Disk) : Prop where
  working : d.working = e.working
  tree : d.tree.SameShape e.tree

variable {d e : Disk}

theorem SameShape.locate (h : d.SameShape e) (p : Path) : d.locate p = e.locate p := by
  have hstart : d.start p = e.start p := by
    unfold start
    rw [h.working]
  unfold Disk.locate
  rw [walk_congr h.tree, hstart]

/-- A path leads to the same on both disks, or to a file each. -/
theorem SameShape.find_cases (h : d.SameShape e) (p : Path) :
    d.find p = e.find p ∨ ∃ a b, d.find p = .ok (.file a) ∧ e.find p = .ok (.file b) := by
  have hlocate := h.locate p
  cases hd : d.locate p with
  | error fault =>
    rw [hd] at hlocate
    refine .inl ?_
    rw [find, find, hd, ← hlocate]
    rfl
  | ok place =>
    have he : e.locate p = .ok place := hlocate ▸ hd
    rcases h.tree.at?_cases place with heq | ⟨a, b, ht, hu⟩
    · refine .inl ?_
      rw [find, find, Outcome.bind_of_ok hd, Outcome.bind_of_ok he, heq]
    · exact .inr ⟨a, b, find_eq_ok.2 ⟨place, hd, ht⟩, find_eq_ok.2 ⟨place, he, hu⟩⟩

theorem SameShape.isFolder (h : d.SameShape e) (p : Path) : d.isFolder p = e.isFolder p := by
  unfold Disk.isFolder find?
  rcases h.find_cases p with heq | ⟨a, b, hd, he⟩
  · rw [heq]
  · rw [hd, he]
    rfl

theorem SameShape.isFile (h : d.SameShape e) (p : Path) : d.isFile p = e.isFile p := by
  unfold Disk.isFile find?
  rcases h.find_cases p with heq | ⟨a, b, hd, he⟩
  · rw [heq]
  · rw [hd, he]
    rfl

theorem SameShape.list (h : d.SameShape e) {p : Path} {names : List Text}
    (hlist : d.list p = .ok names) : ∃ others, e.list p = .ok others ∧ names.Perm others := by
  obtain ⟨place, hplace, hfolder, rfl⟩ := list_eq_ok.1 hlist
  rw [h.locate] at hplace
  rcases h.tree.at?_cases place with heq | ⟨_, _, ht, _⟩
  · exact ⟨_, list_eq_ok.2 ⟨place, hplace, heq ▸ hfolder, rfl⟩,
      (h.tree.names_perm place).map Name.text⟩
  · rw [hfolder] at ht
    cases ht

/-! ## Other bytes in the files of a folder -/

/-- The disks differ at most in the bytes of files directly in a folder. -/
structure SameButIn (d e : Disk) (folder : Path) : Prop where
  working : d.working = e.working
  tree : ∀ place, d.tree.at? place = e.tree.at? place ∨
    (∃ name above, d.locate folder = .ok above ∧ place = name :: above) ∧
      ∃ a b, d.tree.at? place = some (.file a) ∧ e.tree.at? place = some (.file b)

theorem SameButIn.sameShape {folder : Path} (h : d.SameButIn e folder) : d.SameShape e where
  working := h.working
  tree place := by
    rcases h.tree place with heq | ⟨_, a, b, hd, he⟩
    · rw [heq]
    · rw [hd, he]
      rfl

theorem SameButIn.symm {folder : Path} (h : d.SameButIn e folder) : e.SameButIn d folder where
  working := h.working.symm
  tree place := by
    rcases h.tree place with heq | ⟨⟨name, above, habove, hplace⟩, a, b, hd, he⟩
    · exact .inl heq.symm
    · rw [h.sameShape.locate] at habove
      exact .inr ⟨⟨name, above, habove, hplace⟩, b, a, he, hd⟩

theorem step_of_walk {t : Tree} {place last : Location} {names : List Text} {name : Text}
    (h : walk t place (names ++ [name]) = .ok last) :
    ∃ above, walk t place names = .ok above ∧ last = stepTo above name := by
  rw [walk_append] at h
  obtain ⟨above, habove, hlast⟩ := Outcome.bind_eq_ok.1 h
  refine ⟨above, habove, ?_⟩
  rw [walk] at hlast
  split at hlast
  · cases hlast
  · cases hlast
  · cases hlast
  · cases hlast
  · split at hlast
    · cases hlast
    · exact (Except.ok.inj hlast).symm

/-- A path that the file system takes. -/
def TakenPath (p : Path) : Prop :=
  p.text.unusable? = none ∧ (Utf8.encode p.text).length ≤ pathLimit

instance (p : Path) : Decidable (TakenPath p) :=
  inferInstanceAs (Decidable (_ ∧ _))

theorem locate_of_taken {p : Path} (h : TakenPath p) :
    d.locate p = (walk d.tree (d.start p) p.names).mapError (refused p) := by
  rw [locate, h.1]
  exact if_neg (Nat.not_lt.2 h.2)

theorem taken_of_locate {p : Path} {place : Location} (h : d.locate p = .ok place) :
    TakenPath p := by
  unfold locate at h
  split at h
  · cases h
  · next husable =>
    split at h
    · cases h
    · next hshort => exact ⟨husable, Nat.not_lt.1 hshort⟩

theorem locate_eq_ok {p : Path} {place : Location} :
    d.locate p = .ok place ↔ TakenPath p ∧ walk d.tree (d.start p) p.names = .ok place := by
  have hmap : ∀ {x : Except Refusal Location}, x.mapError (refused p) = .ok place ↔ x = .ok place :=
    fun {x} => by cases x <;> simp [Except.mapError]
  constructor
  · intro h
    have htaken := taken_of_locate h
    rw [locate_of_taken htaken, hmap] at h
    exact ⟨htaken, h⟩
  · rintro ⟨htaken, h⟩
    rw [locate_of_taken htaken, hmap]
    exact h

theorem walk_of_locate {p : Path} {place : Location} (h : d.locate p = .ok place) :
    walk d.tree (d.start p) p.names = .ok place :=
  (locate_eq_ok.1 h).2

/-- Nothing in one folder of a root is directly in another one. -/
theorem locate_ne_of_sibling {root : Path} {folder other name : Text} {inside : Name}
    {above : Location} (hne : Name.ofText folder ≠ .ofText other)
    (hfolder : folder ≠ [.char '.', .char '.']) (hother : other ≠ [.char '.', .char '.'])
    (habove : d.locate (root.child other) = .ok above) :
    d.locate ((root.child folder).child name) ≠ .ok (inside :: above) := by
  intro h
  obtain ⟨place, hplace, rfl⟩ := step_of_walk (walk_of_locate habove)
  obtain ⟨middle, hmiddle, hlast⟩ := step_of_walk (walk_of_locate h)
  obtain ⟨same, hsame, rfl⟩ := step_of_walk hmiddle
  obtain rfl : place = same := Except.ok.inj (hplace.symm.trans hsame)
  rw [stepTo, if_neg hother, stepTo, stepTo, if_neg hfolder] at hlast
  split at hlast
  · -- one step up from the folder is the root, which is above the other folder
    have := congrArg List.length hlast
    simp only [List.length_cons, List.tail_cons] at this
    omega
  · simp only [List.cons.injEq] at hlast
    exact hne hlast.2.1.symm

/-- Elsewhere files are read alike. -/
theorem SameButIn.read {folder : Path} (h : d.SameButIn e folder) {p : Path}
    (hp : ∀ name above, d.locate folder = .ok above → d.locate p ≠ .ok (name :: above)) :
    d.read p = e.read p := by
  have hfind : d.find p = e.find p := by
    unfold Disk.find
    rw [← h.sameShape.locate p]
    cases hplace : d.locate p with
    | error r => rfl
    | ok place =>
      rcases h.tree place with heq | ⟨⟨name, above, habove, rfl⟩, _⟩
      · rw [Outcome.bind_of_ok rfl, Outcome.bind_of_ok rfl, heq]
      · exact absurd hplace (hp name above habove)
  unfold Disk.read
  rw [hfind]

end Disk
end SchemaLedger
