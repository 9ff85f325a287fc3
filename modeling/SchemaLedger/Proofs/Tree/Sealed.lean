import SchemaLedger.Proofs.Tree.Route

/-!
# Sealed folders

No path leads into a sealed folder: the way ends there, whether what it asks for is to
be looked at or made.
-/

namespace SchemaLedger

namespace Disk

variable {d : Disk} {p : Path} {place : Location} {name : Text}

/-- A name that is short enough for the file system. -/
def ShortName (name : Text) : Prop :=
  (Utf8.encode name).length ≤ nameLimit

instance (name : Text) : Decidable (ShortName name) :=
  inferInstanceAs (Decidable (_ ≤ _))

/-- The names lead into something sealed. -/
def EntersSealed (t : Tree) (start : Location) (names : List Text) : Prop :=
  ∃ front name rest place, names = front ++ name :: rest ∧
    walk t start front = .ok place ∧ t.at? place = some .sealed

/-- The path leads into something sealed. -/
def Shut (d : Disk) (p : Path) : Prop :=
  EntersSealed d.tree (d.start p) p.names

/-- A walk along names is refused because nothing is there, because a file is, because
a name is too long or because something is sealed. -/
theorem walk_refusal {t : Tree} {start : Location} {names : List Text} {r : Refusal}
    (h : walk t start names = .error r) :
    r = .noEntry ∨ r = .notFolder ∨ r = .nameTooLong ∧ (∃ name ∈ names, ¬ShortName name) ∨
      r = .accessDenied ∧ EntersSealed t start names := by
  induction names generalizing start with
  | nil => cases h
  | cons name rest ih =>
    rw [walk] at h
    split at h
    · exact .inl (Except.error.inj h).symm
    · exact .inr (.inl (Except.error.inj h).symm)
    · exact .inr (.inl (Except.error.inj h).symm)
    · next hsealed =>
      exact .inr (.inr (.inr ⟨(Except.error.inj h).symm, [], name, rest, start, rfl, rfl, hsealed⟩))
    · next hfolder =>
      split at h
      · next hlong =>
        exact .inr (.inr (.inl ⟨(Except.error.inj h).symm, name, List.mem_cons_self,
          Nat.not_le.2 hlong⟩))
      · next hshort =>
        refine (ih h).imp_right (.imp_right (.imp (fun hlong => ?_) fun hsealed => ?_))
        · obtain ⟨hr, other, hother, hlong⟩ := hlong
          exact ⟨hr, other, List.mem_cons_of_mem _ hother, hlong⟩
        · obtain ⟨hr, front, other, rest, place, rfl, hplace, hsealed⟩ := hsealed
          refine ⟨hr, name :: front, other, rest, place, rfl, ?_, hsealed⟩
          simpa only [walk, hfolder, if_neg hshort] using hplace

theorem walk_of_entersSealed {t : Tree} {start : Location} {names : List Text}
    (h : EntersSealed t start names) : walk t start names = .error .accessDenied := by
  obtain ⟨front, name, rest, place, rfl, hplace, hsealed⟩ := h
  rw [walk_append, hplace]
  simp only [Except.bind, walk, hsealed]

/-- A path into a folder is shut when the folder is sealed, or the way to it is. -/
theorem shut_child {name : Text} (h : Shut d (p.child name)) :
    Shut d p ∨ ∃ place, walk d.tree (d.start p) p.names = .ok place ∧
      d.tree.at? place = some .sealed := by
  obtain ⟨front, other, rest, place, hnames, hplace, hsealed⟩ := h
  replace hnames : p.names ++ [name] = front ++ other :: rest := hnames
  rcases List.eq_nil_or_concat' rest with rfl | ⟨rest, last, rfl⟩
  · obtain ⟨rfl, _⟩ := List.append_inj' hnames rfl
    exact .inr ⟨place, hplace, hsealed⟩
  · have hinner : p.names ++ [name] = front ++ other :: rest ++ [last] := by
      rw [hnames, List.append_assoc, List.cons_append]
    exact .inl ⟨front, other, rest, place, (List.append_inj' hinner rfl).1, hplace, hsealed⟩

theorem Shut.child (h : Shut d p) (name : Text) : Shut d (p.child name) := by
  obtain ⟨front, other, rest, place, hnames, hplace, hsealed⟩ := h
  refine ⟨front, other, rest ++ [name], place, ?_, hplace, hsealed⟩
  show p.names ++ [name] = _
  rw [hnames, List.append_assoc, List.cons_append]

theorem shut_child_of_sealed (h : d.find p = .ok .sealed) (name : Text) :
    Shut d (p.child name) := by
  obtain ⟨place, hplace, hsealed⟩ := find_eq_ok.1 h
  exact ⟨p.names, name, [], place, rfl, walk_of_locate hplace, hsealed⟩

theorem not_shut_of_locate (h : d.locate p = .ok place) : ¬Shut d p := by
  intro hshut
  have hwalk := walk_of_locate h
  rw [walk_of_entersSealed hshut] at hwalk
  cases hwalk

/-- The way into a sealed folder is barred, and not because something is missing. -/
theorem locate_child_of_sealed (name : Text) (h : d.find p = .ok .sealed) :
    ∃ fault, d.locate (p.child name) = .error fault ∧ fault ≠ refused (p.child name) .noEntry := by
  have hshut := shut_child_of_sealed h name
  by_cases htaken : TakenPath (p.child name)
  · refine ⟨refused (p.child name) .accessDenied, ?_, nofun⟩
    rw [locate_of_taken htaken, walk_of_entersSealed hshut]
    rfl
  · cases husable : (p.child name).text.unusable? with
    | some reason => exact ⟨_, locate_of_unusable husable, nofun⟩
    | none =>
      refine ⟨refused (p.child name) .nameTooLong, ?_, nofun⟩
      rw [locate, husable]
      exact if_pos (Nat.not_le.1 fun hshort => htaken ⟨husable, hshort⟩)

/-- A usable name in a folder that is there makes a path, if a short one. -/
theorem takenPath_child {name : Text} (hplace : d.locate p = .ok place) (husable : name.Usable)
    (hshort : ShortPath (p.child name)) : TakenPath (p.child name) := by
  have hparent := Text.unusable?_eq_none.1 (locate_eq_ok.1 hplace).1.1
  exact takenPath_iff.2 ⟨Text.unusable?_eq_none.2 (Path.usable_child.2 ⟨hparent, husable⟩), hshort⟩

end Disk

end SchemaLedger
