import SchemaLedger.Proofs.Tree.Agreement

/-!
# Trees that grow

New folders and files leave everything else in a tree as it was.  A tree that
only grew is the old tree with entries behind it, so what was new can be taken
away again and the old tree is back.
-/

namespace SchemaLedger

namespace Tree

variable {t u v : Tree} {place other : Location} {entry : Entry}

theorem eq_of_entries_eq (h : t.entries = u.entries) : t = u := by
  cases t
  cases u
  simp only at h
  subst h
  rfl

theorem at?_of_mem (hne : place ≠ []) (h : (place, entry) ∈ t.entries) :
    t.at? place = some entry := by
  obtain ⟨before, rest, hsplit⟩ := List.append_of_mem h
  have hnodup := t.distinct
  rw [hsplit, List.map_append, List.map_cons, List.nodup_append] at hnodup
  have hbefore : ∀ e ∈ before, (place != e.1) = true := by
    intro e he
    have hdiff := hnodup.2.2 e.1 (List.mem_map_of_mem he) place List.mem_cons_self
    exact bne_iff_ne.2 hdiff.symm
  have hlookup : t.entries.lookup place = some entry :=
    List.lookup_eq_some_iff.2 ⟨before, rest, hsplit, hbefore⟩
  cases place with
  | nil => exact absurd rfl hne
  | cons name above => exact hlookup

theorem mem_of_at? (hne : place ≠ []) (h : t.at? place = some entry) :
    (place, entry) ∈ t.entries := by
  cases place with
  | nil => exact absurd rfl hne
  | cons name above =>
    obtain ⟨before, rest, hentries, _⟩ := List.lookup_eq_some_iff.1 h
    rw [hentries]
    simp

/-- What is inside a place makes it a folder. -/
theorem folder_of_inside {name : Name} (h : t.at? (name :: place) = some entry) :
    t.at? place = some .folder := by
  have hmem := mem_of_at? (List.cons_ne_nil _ _) h
  rcases t.closed name place (List.mem_map_of_mem hmem) with rfl | hfolder
  · rfl
  · by_cases hne : place = []
    · subst hne
      rfl
    · exact at?_of_mem hne hfolder

/-- All places on the way up from something are folders. -/
theorem folder_of_suffix (hsuffix : place <:+ other) (hne : place ≠ other)
    (h : t.at? other = some entry) : t.at? place = some .folder := by
  induction other generalizing entry with
  | nil => exact absurd (List.suffix_nil.1 hsuffix) hne
  | cons name above ih =>
    have habove := folder_of_inside h
    rcases List.suffix_cons_iff.1 hsuffix with heq | hsuffix
    · exact absurd heq hne
    · by_cases heq : place = above
      · rw [heq]
        exact habove
      · exact ih hsuffix heq habove

theorem at?_eq_none_of_suffix (hsuffix : place <:+ other) (h : t.at? place = none) :
    t.at? other = none := by
  by_cases heq : place = other
  · rw [← heq]
    exact h
  · cases hother : t.at? other with
    | none => rfl
    | some entry =>
      rw [folder_of_suffix hsuffix heq hother] at h
      cases h

/-! ## Old and new entries -/

/-- What is in `t` is in `u` as it was, and what is only in `u` satisfies `new`. -/
def Extends (t u : Tree) (new : Location × Entry → Prop) : Prop :=
  ∃ added, u.entries = t.entries ++ added ∧ ∀ e ∈ added, t.at? e.1 = none ∧ new e

namespace Extends

variable {new old : Location × Entry → Prop}

theorem refl (t : Tree) (new : Location × Entry → Prop) : t.Extends t new :=
  ⟨[], (List.append_nil _).symm, by simp⟩

theorem mono (h : t.Extends u old) (himp : ∀ e, t.at? e.1 = none → old e → new e) :
    t.Extends u new := by
  obtain ⟨added, hentries, hadded⟩ := h
  refine ⟨added, hentries, fun e he => ?_⟩
  obtain ⟨hnone, hold⟩ := hadded e he
  exact ⟨hnone, himp e hnone hold⟩

theorem at?_of_some (h : t.Extends u new) (hplace : t.at? place = some entry) :
    u.at? place = some entry := by
  obtain ⟨added, hentries, _⟩ := h
  cases place with
  | nil => exact hplace
  | cons name above =>
    have hlookup : t.entries.lookup (name :: above) = some entry := hplace
    show u.entries.lookup (name :: above) = some entry
    rw [hentries, List.lookup_append, hlookup]
    rfl

theorem eq_or_new (h : t.Extends u new) (hplace : u.at? place = some entry) :
    t.at? place = some entry ∨ t.at? place = none ∧ new (place, entry) := by
  by_cases hne : place = []
  · subst hne
    exact .inl hplace
  · have hmem := mem_of_at? hne hplace
    obtain ⟨added, hentries, hadded⟩ := h
    rw [hentries, List.mem_append] at hmem
    rcases hmem with hmem | hmem
    · exact .inl (at?_of_mem hne hmem)
    · exact .inr (hadded _ hmem)

/-- What is new is there. -/
theorem present (h : t.Extends u new) :
    t.Extends u fun e => new e ∧ u.at? e.1 = some e.2 := by
  obtain ⟨added, hentries, hadded⟩ := h
  refine ⟨added, hentries, fun e he => ?_⟩
  obtain ⟨hnone, hnew⟩ := hadded e he
  have hne : e.1 ≠ [] := by
    intro hnil
    rw [hnil] at hnone
    cases hnone
  have hmem : (e.1, e.2) ∈ u.entries := by
    rw [hentries]
    exact List.mem_append_right _ he
  exact ⟨hnone, hnew, at?_of_mem hne hmem⟩

theorem trans (h₁ : t.Extends u new) (h₂ : u.Extends v new) : t.Extends v new := by
  have hkeep : ∀ place, u.at? place = none → t.at? place = none := by
    intro place hnone
    cases hplace : t.at? place with
    | none => rfl
    | some entry =>
      rw [h₁.at?_of_some hplace] at hnone
      cases hnone
  obtain ⟨first, hfirst, hnew₁⟩ := h₁
  obtain ⟨second, hsecond, hnew₂⟩ := h₂
  refine ⟨first ++ second, by rw [hsecond, hfirst, List.append_assoc], fun e he => ?_⟩
  rcases List.mem_append.1 he with he | he
  · exact hnew₁ e he
  · exact ⟨hkeep _ (hnew₂ e he).1, (hnew₂ e he).2⟩

/-- Nothing new leaves the tree as it is. -/
theorem eq_of_nothing (h : t.Extends u fun _ => False) : u = t := by
  obtain ⟨added, hentries, hadded⟩ := h
  have hnil : added = [] := List.eq_nil_iff_forall_not_mem.2 fun e he => (hadded e he).2
  rw [hnil, List.append_nil] at hentries
  exact eq_of_entries_eq hentries

end Extends

theorem extends_insertNew {folder : Location} {name : Name}
    (inside : t.at? folder = some .folder) (fresh : t.at? (name :: folder) = none) :
    t.Extends (t.insertNew folder name entry inside fresh) (· = (name :: folder, entry)) :=
  ⟨[(name :: folder, entry)], rfl, by simpa using fresh⟩

theorem ne_nil_of_at?_none (h : t.at? place = none) : place ≠ [] := by
  rintro rfl
  cases h

/-- Where nothing was, nothing is sealed unless something new is. -/
theorem Extends.holdsSealed_eq_false {new : Location × Entry → Prop} (h : t.Extends u new)
    (hnone : t.at? place = none) (hnew : ∀ x, place <:+ x.1 → new x → x.2 ≠ .sealed) :
    u.holdsSealed place = false := by
  refine Bool.eq_false_iff.2 fun hholds => ?_
  obtain ⟨inner, hmem, hinside⟩ := holdsSealed_eq_true.1 hholds
  obtain ⟨added, hentries, hadded⟩ := h
  rw [hentries, List.mem_append] at hmem
  rcases hmem with hmem | hmem
  · have hinner := at?_eq_none_of_suffix hinside hnone
    rw [at?_of_mem (ne_nil_of_at?_none hinner) hmem] at hinner
    cases hinner
  · exact hnew _ hinside (hadded _ hmem).2 rfl

/-- A file that is new may be written again. -/
theorem Extends.overwrite {new : Location × Entry → Prop} {data : Bytes} (h : t.Extends u new)
    (hnone : t.at? place = none) (hnew : new (place, .file data)) :
    t.Extends (u.overwrite place data) new := by
  obtain ⟨added, hentries, hadded⟩ := h
  have hold : t.entries.map (refill place data) = t.entries := by
    refine (List.map_congr_left fun e he => ?_).trans (List.map_id _)
    have hne : e.1 ≠ place := by
      rintro rfl
      have hsome := at?_of_mem (ne_nil_of_at?_none hnone) he
      rw [hnone] at hsome
      cases hsome
    simp [refill, hne]
  refine ⟨added.map (refill place data), ?_, fun e he => ?_⟩
  · show u.entries.map _ = _
    rw [hentries, List.map_append, hold]
  · obtain ⟨e', he', rfl⟩ := List.mem_map.1 he
    obtain ⟨hnone', hnew'⟩ := hadded e' he'
    rw [refill_fst]
    refine ⟨hnone', ?_⟩
    unfold refill
    split
    · next hplace =>
      rw [hplace.1]
      exact hnew
    · exact hnew'

/-- Taking away what was not in the old tree keeps the old tree. -/
theorem Extends.removeWhere {new : Location × Entry → Prop} {gone : Location → Bool}
    {down : ∀ name place, gone place = true → gone (name :: place) = true}
    (h : t.Extends u new) (hgone : ∀ place, gone place = true → t.at? place = none) :
    t.Extends (u.removeWhere gone down) fun e => new e ∧ gone e.1 = false := by
  obtain ⟨added, hentries, hadded⟩ := h
  have hold : t.entries.filter (fun e => !gone e.1) = t.entries := by
    refine List.filter_eq_self.2 fun e he => ?_
    cases hplace : gone e.1 with
    | false => rfl
    | true =>
      have hnone := hgone _ hplace
      have hsome := at?_of_mem (ne_nil_of_at?_none hnone) he
      rw [hnone] at hsome
      cases hsome
  refine ⟨added.filter fun e => !gone e.1, ?_, fun e he => ?_⟩
  · show u.entries.filter _ = _
    rw [hentries, List.filter_append, hold]
  · obtain ⟨he, hkept⟩ := List.mem_filter.1 he
    obtain ⟨hnone, hnew⟩ := hadded e he
    exact ⟨hnone, hnew, by simpa using hkept⟩

end Tree

end SchemaLedger
