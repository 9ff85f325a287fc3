import SchemaLedger.Tree.Name

namespace SchemaLedger

/-- The names from a file or folder up to the top, its own name first.  With the
own name in front, a folder's content is a `cons` onto the folder's location and
the way up is a tail. -/
abbrev Location := List Name

inductive Entry
  | file (data : Bytes)
  /-- A file that may be neither read nor written. -/
  | locked
  | folder
  /-- A folder that may be neither entered nor listed.  What it holds is out of reach
  and stays as it is, so a tree leaves it out. -/
  | sealed
deriving DecidableEq

def Entry.isFile : Entry → Bool
  | .file _ | .locked => true
  | .folder | .sealed => false

def Entry.isFolder : Entry → Bool
  | .file _ | .locked => false
  | .folder | .sealed => true

/-- A flat list of places rather than a nested type: what is at a place is then
one look-up, and the order of the list is the order in which a folder happens to
be listed, which no result may depend on. -/
structure Tree where
  entries : List (Location × Entry)
  distinct : (entries.map (·.1)).Nodup
  /-- What lies inside a place other than the top implies that it is a folder. -/
  closed : ∀ name place, name :: place ∈ entries.map (·.1) →
    place = [] ∨ (place, Entry.folder) ∈ entries

namespace Tree

def empty : Tree :=
  ⟨[], List.nodup_nil, by simp⟩

def at? (t : Tree) : Location → Option Entry
  | [] => some .folder
  | place => t.entries.lookup place

/-- The names inside a folder, in the order of the tree. -/
def names (t : Tree) (folder : Location) : List Name :=
  t.entries.filterMap fun (place, _) =>
    match place with
    | name :: above => if above = folder then some name else none
    | [] => none

/-! ## Changes -/

theorem mem_of_at?_folder {t : Tree} {place : Location} (h : t.at? place = some .folder) :
    place = [] ∨ (place, Entry.folder) ∈ t.entries := by
  cases place with
  | nil => exact .inl rfl
  | cons name above =>
    refine .inr ?_
    obtain ⟨before, rest, hentries, _⟩ := List.lookup_eq_some_iff.1 h
    rw [hentries]
    simp

theorem notMem_of_at?_none {t : Tree} {place : Location} (h : t.at? place = none) :
    place ∉ t.entries.map (·.1) := by
  cases place with
  | nil => cases h
  | cons name above =>
    intro hmem
    obtain ⟨entry, hentry, hplace⟩ := List.mem_map.1 hmem
    have := List.lookup_eq_none_iff.1 h entry hentry
    simp [hplace] at this

/-- The tree with something new called `name` inside a folder. -/
def insertNew (t : Tree) (folder : Location) (name : Name) (entry : Entry)
    (inside : t.at? folder = some .folder) (fresh : t.at? (name :: folder) = none) : Tree where
  entries := t.entries ++ [(name :: folder, entry)]
  distinct := by
    rw [List.map_append, List.nodup_append]
    refine ⟨t.distinct, by simp, ?_⟩
    intro a ha b hb hab
    obtain rfl : b = name :: folder := by simpa using hb
    exact notMem_of_at?_none fresh (hab ▸ ha)
  closed := by
    intro name' place h
    rw [List.map_append, List.mem_append] at h
    rcases h with h | h
    · exact (t.closed name' place h).imp id fun hmem => List.mem_append_left _ hmem
    · obtain ⟨rfl, rfl⟩ : name' = name ∧ place = folder := by simpa using h
      exact (mem_of_at?_folder inside).imp id fun hmem => List.mem_append_left _ hmem

theorem at?_insertNew_self {t : Tree} {folder : Location} {name : Name} {entry : Entry}
    (inside : t.at? folder = some .folder) (fresh : t.at? (name :: folder) = none) :
    (t.insertNew folder name entry inside fresh).at? (name :: folder) = some entry := by
  have hnone : t.entries.lookup (name :: folder) = none := fresh
  simp [insertNew, at?, List.lookup_append, hnone]

theorem at?_insertNew_of_ne {t : Tree} {folder place : Location} {name : Name} {entry : Entry}
    (inside : t.at? folder = some .folder) (fresh : t.at? (name :: folder) = none)
    (h : place ≠ name :: folder) :
    (t.insertNew folder name entry inside fresh).at? place = t.at? place := by
  cases place with
  | nil => rfl
  | cons other above =>
    have hne : ((other :: above : Location) == name :: folder) = false := beq_false_of_ne h
    simp [insertNew, at?, List.lookup_append, List.lookup_cons, hne]

def refill (place : Location) (data : Bytes) (e : Location × Entry) : Location × Entry :=
  if e.1 = place ∧ e.2 ≠ .folder then (e.1, .file data) else e

theorem refill_fst (place : Location) (data : Bytes) (e : Location × Entry) :
    (refill place data e).1 = e.1 := by
  unfold refill
  split <;> rfl

theorem map_fst_refill (place : Location) (data : Bytes) (entries : List (Location × Entry)) :
    (entries.map (refill place data)).map (·.1) = entries.map (·.1) := by
  rw [List.map_map]
  exact List.map_congr_left fun e _ => refill_fst place data e

def overwrite (t : Tree) (place : Location) (data : Bytes) : Tree where
  entries := t.entries.map (refill place data)
  distinct := by
    rw [map_fst_refill]
    exact t.distinct
  closed := by
    intro name above h
    rw [map_fst_refill] at h
    refine (t.closed name above h).imp id fun hmem => List.mem_map.2 ⟨_, hmem, ?_⟩
    simp [refill]

theorem lookup_map_refill_of_ne {place other : Location} (data : Bytes) (h : other ≠ place)
    (entries : List (Location × Entry)) :
    (entries.map (refill place data)).lookup other = entries.lookup other := by
  induction entries with
  | nil => rfl
  | cons e rest ih =>
    obtain ⟨at_, entry⟩ := e
    by_cases hat : at_ = place
    · have hne : (other == at_) = false := beq_false_of_ne (hat ▸ h)
      have hfst : refill place data (at_, entry) = (at_, (refill place data (at_, entry)).2) :=
        Prod.ext (refill_fst place data (at_, entry)) rfl
      rw [List.map_cons, hfst, List.lookup_cons, List.lookup_cons, hne, ih]
    · simp [refill, hat, List.lookup_cons, ih]

theorem at?_overwrite_of_ne {t : Tree} {place other : Location} (data : Bytes)
    (h : other ≠ place) : (t.overwrite place data).at? other = t.at? other := by
  cases other with
  | nil => rfl
  | cons name above => exact lookup_map_refill_of_ne data h t.entries

theorem at?_overwrite_self {t : Tree} {place : Location} {old : Bytes} (data : Bytes)
    (h : t.at? place = some (.file old)) :
    (t.overwrite place data).at? place = some (.file data) := by
  cases place with
  | nil => cases h
  | cons name above =>
    obtain ⟨before, rest, hentries, hbefore⟩ := List.lookup_eq_some_iff.1 h
    refine List.lookup_eq_some_iff.2
      ⟨before.map (refill (name :: above) data), rest.map (refill (name :: above) data), ?_, ?_⟩
    · show t.entries.map _ = _
      rw [hentries, List.map_append, List.map_cons]
      simp [refill]
    · intro e he
      obtain ⟨e', he', rfl⟩ := List.mem_map.1 he
      rw [refill_fst]
      exact hbefore e' he'

/-- The tree without whatever satisfies `gone`, where everything inside a gone
place is gone as well. -/
def removeWhere (t : Tree) (gone : Location → Bool)
    (down : ∀ name place, gone place = true → gone (name :: place) = true) : Tree where
  entries := t.entries.filter fun e => !gone e.1
  distinct := t.distinct.sublist ((List.filter_sublist).map _)
  closed := by
    intro name place h
    obtain ⟨e, he, hname⟩ := List.mem_map.1 h
    obtain ⟨hmem, hkeep⟩ := List.mem_filter.1 he
    refine (t.closed name place (hname ▸ List.mem_map_of_mem hmem)).imp id fun hfolder => ?_
    refine List.mem_filter.2 ⟨hfolder, ?_⟩
    cases hgone : gone place with
    | false => simp
    | true =>
      have := down name place hgone
      simp only [← hname] at this
      simp [this] at hkeep

theorem lookup_filter_fst (keep : Location → Bool) (place : Location)
    (entries : List (Location × Entry)) :
    (entries.filter fun e => keep e.1).lookup place =
      if keep place then entries.lookup place else none := by
  induction entries with
  | nil => simp
  | cons e rest ih =>
    obtain ⟨at_, entry⟩ := e
    by_cases hat : place = at_
    · subst hat
      cases hkeep : keep place <;> simp [hkeep, ih]
    · have hne : (place == at_) = false := beq_false_of_ne hat
      cases hkeep : keep at_ <;> simp [hkeep, List.lookup_cons, hne, ih]

theorem at?_removeWhere {t : Tree} {gone : Location → Bool}
    {down : ∀ name place, gone place = true → gone (name :: place) = true} {place : Location}
    (h : place ≠ []) :
    (t.removeWhere gone down).at? place = if gone place then none else t.at? place := by
  cases place with
  | nil => exact absurd rfl h
  | cons name above =>
    have := lookup_filter_fst (fun other => !gone other) (name :: above) t.entries
    cases hgone : gone (name :: above) <;> simpa [removeWhere, at?, hgone] using this

/-- Something sealed is at the place or inside it, which cannot be removed then. -/
def holdsSealed (t : Tree) (place : Location) : Bool :=
  t.entries.any fun e => e.2 == .sealed && place.isSuffixOf e.1

theorem holdsSealed_eq_true {t : Tree} {place : Location} :
    t.holdsSealed place = true ↔ ∃ inner, (inner, Entry.sealed) ∈ t.entries ∧ place <:+ inner := by
  simp only [holdsSealed, List.any_eq_true, Bool.and_eq_true, beq_iff_eq,
    List.isSuffixOf_iff_suffix]
  constructor
  · rintro ⟨⟨inner, entry⟩, hmem, hsealed, hsuffix⟩
    exact ⟨inner, hsealed ▸ hmem, hsuffix⟩
  · rintro ⟨inner, hmem, hsuffix⟩
    exact ⟨_, hmem, rfl, hsuffix⟩

theorem holdsSealed_of_suffix {t : Tree} {place other : Location} (hsuffix : place <:+ other)
    (h : t.holdsSealed other = true) : t.holdsSealed place = true := by
  obtain ⟨inner, hinner, hother⟩ := holdsSealed_eq_true.1 h
  exact holdsSealed_eq_true.2 ⟨inner, hinner, hsuffix.trans hother⟩

/-- What goes with a place: everything at it and inside it that can be removed. -/
def isRemoved (t : Tree) (place other : Location) : Bool :=
  place.isSuffixOf other && !t.holdsSealed other

theorem isRemoved_eq_true {t : Tree} {place other : Location} :
    t.isRemoved place other = true ↔ place <:+ other ∧ t.holdsSealed other = false := by
  simp [isRemoved, List.isSuffixOf_iff_suffix]

theorem isRemoved_cons {t : Tree} {place other : Location} (name : Name)
    (h : t.isRemoved place other = true) : t.isRemoved place (name :: other) = true := by
  obtain ⟨hsuffix, hsealed⟩ := isRemoved_eq_true.1 h
  refine isRemoved_eq_true.2 ⟨hsuffix.trans (List.suffix_cons name other), ?_⟩
  refine Bool.eq_false_iff.2 fun hinner => Bool.eq_false_iff.1 hsealed ?_
  exact holdsSealed_of_suffix (List.suffix_cons name other) hinner

/-- The tree without the place and everything inside it, as far as that goes. -/
def remove (t : Tree) (place : Location) : Tree :=
  t.removeWhere (t.isRemoved place) fun name _ => isRemoved_cons name

/-- The tree without everything inside the place, as far as that goes.  The place
itself stays. -/
def clear (t : Tree) (place : Location) : Tree :=
  t.removeWhere (fun other => other != place && t.isRemoved place other) fun name other h => by
    simp only [Bool.and_eq_true, bne_iff_ne] at h ⊢
    refine ⟨fun heq => ?_, isRemoved_cons name h.2⟩
    have hlen := (isRemoved_eq_true.1 h.2).1.length_le
    rw [← heq] at hlen
    exact absurd hlen (by simp)

end Tree

end SchemaLedger
