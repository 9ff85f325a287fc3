import Mathlib.Data.List.Induction
import SchemaLedger.Proofs.Tree.Growth

/-!
# Requests that change a disk

What each request for a change does to the tree, said by what is new.  Folders
and files are only ever added by making folders and writing files, so a path
that led somewhere leads there afterwards.
-/

namespace SchemaLedger
namespace Disk

variable {d e base : Disk} {p : Path} {place other : Location} {entry : Entry}
variable {new old : Location × Entry → Prop}

/-! ## Following paths -/

theorem walk_concat {t : Tree} {names : List Text} {name : Text} {last : Location} :
    walk t place (names ++ [name]) = .ok last ↔
      ∃ above, walk t place names = .ok above ∧ t.at? above = some .folder ∧
        (Utf8.encode name).length ≤ nameLimit ∧ last = stepTo above name := by
  rw [walk_append]
  constructor
  · intro h
    obtain ⟨above, habove, hlast⟩ := Outcome.bind_eq_ok.1 h
    refine ⟨above, habove, ?_⟩
    rw [walk] at hlast
    split at hlast
    · cases hlast
    · cases hlast
    · cases hlast
    · cases hlast
    · next hfolder =>
      split at hlast
      · cases hlast
      · next hshort =>
        cases hlast
        exact ⟨hfolder, Nat.not_lt.1 hshort, rfl⟩
  · rintro ⟨above, habove, hfolder, hshort, rfl⟩
    refine Outcome.bind_eq_ok.2 ⟨above, habove, ?_⟩
    simp only [walk, hfolder, if_neg (Nat.not_lt.2 hshort)]

/-- The place that names lead to when none of them leads up. -/
def onward (start : Location) (names : List Text) : Location :=
  (names.map Name.ofText).reverse ++ start

@[simp] theorem onward_nil (start : Location) : onward start [] = start := rfl

@[simp] theorem onward_concat (start : Location) (names : List Text) (name : Text) :
    onward start (names ++ [name]) = .ofText name :: onward start names := by
  simp [onward]

theorem onward_append (start : Location) (first second : List Text) :
    onward start (first ++ second) = onward (onward start first) second := by
  simp [onward]

theorem length_onward (start : Location) (names : List Text) :
    (onward start names).length = names.length + start.length := by
  simp [onward]

theorem onward_suffix (start : Location) (names : List Text) : start <:+ onward start names :=
  List.suffix_append _ _

/-- Names that never lead up lead to the place they spell. -/
theorem walk_onward {t : Tree} {start : Location} {names : List Text}
    (hup : [.char '.', .char '.'] ∉ names) :
    walk t start names = .ok place ↔ place = onward start names ∧
      (∀ name ∈ names, (Utf8.encode name).length ≤ nameLimit) ∧
      ∀ front, front <+: names → front ≠ names →
        t.at? (onward start front) = some .folder := by
  induction names using List.reverseRecOn generalizing place with
  | nil =>
    constructor
    · intro h
      cases h
      refine ⟨rfl, by simp, fun front hfront hne => ?_⟩
      exact absurd (List.prefix_nil.1 hfront) hne
    · rintro ⟨rfl, _⟩
      rfl
  | append_singleton names name ih =>
    have hup' : [.char '.', .char '.'] ∉ names := fun h => hup (List.mem_append_left _ h)
    have hname : name ≠ [.char '.', .char '.'] := by
      rintro rfl
      exact hup (by simp)
    rw [walk_concat]
    constructor
    · rintro ⟨above, habove, hfolder, hshort, rfl⟩
      obtain ⟨rfl, hnames, hfront⟩ := (ih hup').1 habove
      refine ⟨by rw [stepTo, if_neg hname, onward_concat], ?_, fun front hpre hne => ?_⟩
      · intro n hn
        rcases List.mem_append.1 hn with hn | hn
        · exact hnames n hn
        · rw [List.mem_singleton.1 hn]
          exact hshort
      · rcases List.prefix_concat_iff.1 hpre with heq | hpre
        · exact absurd heq hne
        · by_cases heq : front = names
          · rw [heq]
            exact hfolder
          · exact hfront front hpre heq
    · rintro ⟨rfl, hnames, hfront⟩
      have hlast : names ≠ names ++ [name] := by simp
      refine ⟨onward start names, (ih hup').2 ⟨rfl, ?_, ?_⟩, ?_, ?_, ?_⟩
      · exact fun n hn => hnames n (List.mem_append_left _ hn)
      · intro front hpre hne
        have hlonger : front ≠ names ++ [name] := by
          rintro rfl
          have hlen := hpre.length_le
          rw [List.length_append, List.length_singleton] at hlen
          omega
        exact hfront front (hpre.trans (List.prefix_append _ _)) hlonger
      · exact hfront names (List.prefix_append _ _) hlast
      · exact hnames name (by simp)
      · rw [stepTo, if_neg hname, onward_concat]

/-- A path leads into a folder by one step from where its parent leads. -/
theorem eq_stepTo_of_locate_child {name : Text} (h : d.locate p = .ok place)
    (hchild : d.locate (p.child name) = .ok other) :
    d.tree.at? place = some .folder ∧ other = stepTo place name := by
  obtain ⟨_, hwalk⟩ := locate_eq_ok.1 h
  obtain ⟨_, hlonger⟩ := locate_eq_ok.1 hchild
  obtain ⟨above, habove, hfolder, _, hlast⟩ := walk_concat.1 hlonger
  have hsame : place = above := Except.ok.inj (hwalk.symm.trans habove)
  subst hsame
  exact ⟨hfolder, hlast⟩

/-- Every folder of the one disk is a folder of the other, sealed or not as before. -/
structure Keeps (d e : Disk) : Prop where
  working : e.working = d.working
  folder : ∀ place entry, d.tree.at? place = some entry → entry.isFolder = true →
    e.tree.at? place = some entry

namespace Keeps

theorem refl (d : Disk) : d.Keeps d := ⟨rfl, fun _ _ h _ => h⟩

theorem trans {f : Disk} (h₁ : d.Keeps e) (h₂ : e.Keeps f) : d.Keeps f :=
  ⟨h₂.working.trans h₁.working, fun place entry h hfolder =>
    h₂.folder place entry (h₁.folder place entry h hfolder) hfolder⟩

theorem start (h : d.Keeps e) (p : Path) : e.start p = d.start p := by
  unfold Disk.start
  rw [h.working]

theorem walk (h : d.Keeps e) {start : Location} {names : List Text}
    (hwalk : Disk.walk d.tree start names = .ok place) :
    Disk.walk e.tree start names = .ok place := by
  induction names using List.reverseRecOn generalizing place with
  | nil => exact hwalk
  | append_singleton names name ih =>
    obtain ⟨above, habove, hfolder, hshort, hlast⟩ := walk_concat.1 hwalk
    exact walk_concat.2 ⟨above, ih habove, h.folder above _ hfolder rfl, hshort, hlast⟩

theorem locate (h : d.Keeps e) (hplace : d.locate p = .ok place) : e.locate p = .ok place := by
  obtain ⟨hshort, hwalk⟩ := locate_eq_ok.1 hplace
  refine locate_eq_ok.2 ⟨hshort, ?_⟩
  rw [h.start]
  exact h.walk hwalk

theorem find (h : d.Keeps e) (hfind : d.find p = .ok entry) (hfolder : entry.isFolder = true) :
    e.find p = .ok entry := by
  obtain ⟨place, hplace, hentry⟩ := find_eq_ok.1 hfind
  exact find_eq_ok.2 ⟨place, h.locate hplace, h.folder place entry hentry hfolder⟩

theorem isFolder (h : d.Keeps e) (hfolder : d.isFolder p = .ok true) : e.isFolder p = .ok true := by
  obtain ⟨entry, hfind, hentry⟩ := isFolder_eq_true.1 hfolder
  exact isFolder_eq_true.2 ⟨entry, h.find hfind hentry, hentry⟩

end Keeps

/-! ## Growth -/

/-- The disk with more in its tree; what is new satisfies `new`. -/
structure Grows (d e : Disk) (new : Location × Entry → Prop) : Prop where
  working : e.working = d.working
  tree : d.tree.Extends e.tree new

namespace Grows

theorem refl (d : Disk) (new : Location × Entry → Prop) : d.Grows d new :=
  ⟨rfl, Tree.Extends.refl _ _⟩

theorem keeps (h : d.Grows e new) : d.Keeps e :=
  ⟨h.working, fun _ _ hplace _ => h.tree.at?_of_some hplace⟩

theorem trans {f : Disk} (h₁ : d.Grows e new) (h₂ : e.Grows f new) : d.Grows f new :=
  ⟨h₂.working.trans h₁.working, h₁.tree.trans h₂.tree⟩

theorem mono (h : d.Grows e old) (himp : ∀ x, d.tree.at? x.1 = none → old x → new x) :
    d.Grows e new :=
  ⟨h.working, h.tree.mono himp⟩

theorem present (h : d.Grows e new) : d.Grows e fun x => new x ∧ e.tree.at? x.1 = some x.2 :=
  ⟨h.working, h.tree.present⟩

theorem eq_of_nothing (h : d.Grows e fun _ => False) : e = d := by
  obtain ⟨tree, working⟩ := d
  obtain ⟨tree', working'⟩ := e
  obtain ⟨hworking, htree⟩ := h
  simp only at hworking htree
  rw [hworking, htree.eq_of_nothing]

end Grows

/-! ## Making folders -/

theorem makeFolder_of_locate_error {fault : PathFault} (h : d.locate p = .error fault) :
    d.makeFolder p = .error fault := by
  rw [makeFolder, h]
  rfl

theorem makeFolder_of_find (h : d.find p = .ok entry) :
    d.makeFolder p = .error (refused p .exists) := by
  obtain ⟨place, hplace, hentry⟩ := find_eq_ok.1 h
  rw [makeFolder, Outcome.bind_of_ok hplace]
  cases place with
  | nil => rfl
  | cons name folder => simp [hentry]

/-- A folder that was made is the only thing that is new. -/
theorem grows_of_makeFolder (h : d.makeFolder p = .ok e) :
    d.Grows e (fun x => x.2 = .folder ∧ d.locate p = .ok x.1) ∧ e.find p = .ok .folder := by
  unfold makeFolder at h
  obtain ⟨place, hplace, h⟩ := Outcome.bind_eq_ok.1 h
  split at h
  · cases h
  · next name folder =>
    split at h
    · next fresh =>
      split at h
      · next inside =>
        cases h
        have hgrows : d.Grows { d with tree := d.tree.insertNew folder name .folder inside fresh }
            fun x => x.2 = .folder ∧ d.locate p = .ok x.1 := by
          refine ⟨rfl, (Tree.extends_insertNew inside fresh).mono ?_⟩
          rintro x - rfl
          exact ⟨rfl, hplace⟩
        refine ⟨hgrows, find_eq_ok.2 ⟨name :: folder, hgrows.keeps.locate hplace, ?_⟩⟩
        exact Tree.at?_insertNew_self inside fresh
      · cases h
    · cases h

/-- Only a folder makes up for a refusal. -/
theorem orThere_eq_ok {fault : PathFault} (h : d.orThere p fault = .ok e) :
    e = d ∧ d.isFolder p = .ok true := by
  unfold orThere at h
  split at h
  · cases h
  · split at h
    · cases h
    · split at h
      · next hfolder =>
        cases h
        exact ⟨rfl, hfolder⟩
      · cases h
      · cases h

theorem grows_of_ensureFolder (h : d.ensureFolder p = .ok e) :
    d.Grows e (fun x => x.2 = .folder ∧ d.locate p = .ok x.1) ∧ e.isFolder p = .ok true := by
  unfold ensureFolder at h
  split at h
  · next hmake =>
    cases h
    obtain ⟨hgrows, hfind⟩ := grows_of_makeFolder hmake
    exact ⟨hgrows, isFolder_of_find hfind⟩
  · obtain ⟨rfl, hfolder⟩ := orThere_eq_ok h
    exact ⟨.refl e _, hfolder⟩

/-- The path leads through the place on its way. -/
def LeadsThrough (d : Disk) (p : Path) (place : Location) : Prop :=
  ∃ names, names <+: p.names ∧ d.locate ⟨p.anchor, names⟩ = .ok place

theorem Keeps.leadsThrough (h : d.Keeps e) (hplace : d.LeadsThrough p place) :
    e.LeadsThrough p place := by
  obtain ⟨names, hnames, hlocate⟩ := hplace
  exact ⟨names, hnames, h.locate hlocate⟩

theorem ensureFoldersAt_grows {anchor : Anchor} {inward : List Text}
    {r : Except PathFault Unit} (h : ensureFoldersAt anchor inward d = (r, e)) :
    d.Grows e (fun x => x.2 = .folder ∧ e.LeadsThrough ⟨anchor, inward.reverse⟩ x.1) ∧
      (r = .ok () → e.isFolder ⟨anchor, inward.reverse⟩ = .ok true) := by
  -- a folder made for the path itself
  have made : ∀ {d e : Disk} {q : Path},
      d.Grows e (fun x => x.2 = .folder ∧ d.locate q = .ok x.1) →
        d.Grows e fun x => x.2 = .folder ∧ e.LeadsThrough q x.1 := fun hgrows =>
    hgrows.mono fun x _ hx => ⟨hx.1, _, List.prefix_refl _, hgrows.keeps.locate hx.2⟩
  induction inward generalizing d e r with
  | nil =>
    unfold ensureFoldersAt at h
    split at h
    · next hensure =>
      cases h
      obtain ⟨hgrows, hfind⟩ := grows_of_ensureFolder hensure
      exact ⟨made hgrows, fun _ => hfind⟩
    · cases h
      exact ⟨.refl d _, nofun⟩
  | cons name above ih =>
    unfold ensureFoldersAt at h
    simp only at h
    split at h
    · next hensure =>
      cases h
      obtain ⟨hgrows, hfind⟩ := grows_of_ensureFolder hensure
      exact ⟨made hgrows, fun _ => hfind⟩
    · split at h
      · have hshorter : ∀ {f : Disk} {place : Location},
            f.LeadsThrough ⟨anchor, above.reverse⟩ place →
              f.LeadsThrough ⟨anchor, (name :: above).reverse⟩ place := by
          rintro f place ⟨names, hnames, hlocate⟩
          refine ⟨names, hnames.trans ?_, hlocate⟩
          simp
        split at h
        · next habove =>
          cases h
          obtain ⟨hgrows, _⟩ := ih habove
          exact ⟨hgrows.mono fun x _ hx => ⟨hx.1, hshorter hx.2⟩, nofun⟩
        · next middle habove =>
          obtain ⟨hfirst, _⟩ := ih habove
          split at h
          · next hensure =>
            cases h
            obtain ⟨hsecond, hfind⟩ := grows_of_ensureFolder hensure
            have hkeeps := hsecond.keeps
            refine ⟨(hfirst.mono fun x _ hx => ?_).trans (made hsecond), fun _ => hfind⟩
            exact ⟨hx.1, hkeeps.leadsThrough (hshorter hx.2)⟩
          · cases h
            exact ⟨hfirst.mono fun x _ hx => ⟨hx.1, hshorter hx.2⟩, nofun⟩
      · cases h
        exact ⟨.refl d _, nofun⟩

/-- Folders are made on the way of the path only. -/
theorem ensureFolders_grows {r : Except PathFault Unit} (h : d.ensureFolders p = (r, e)) :
    d.Grows e (fun x => x.2 = .folder ∧ e.LeadsThrough p x.1) ∧
      (r = .ok () → e.isFolder p = .ok true) := by
  have hpath : (⟨p.anchor, p.names.reverse.reverse⟩ : Path) = p := by
    rw [List.reverse_reverse]
  have hgrows := ensureFoldersAt_grows h
  rwa [hpath] at hgrows

theorem ensureFolders_eq : d.ensureFolders p =
    match d.ensureFolder p with
    | .ok e => (.ok (), e)
    | .error fault =>
      if fault = refused p .noEntry ∧ p.names ≠ [] then
        match d.ensureFolders p.parent with
        | (.error fault, e) => (.error fault, e)
        | (.ok (), e) =>
          match e.ensureFolder p with
          | .ok f => (.ok (), f)
          | .error fault => (.error fault, e)
      else (.error fault, d) := by
  obtain ⟨anchor, names⟩ := p
  unfold ensureFolders
  rcases List.eq_nil_or_concat names with rfl | ⟨names, name, rfl⟩
  · simp only [List.reverse_nil, ensureFoldersAt]
    cases d.ensureFolder ⟨anchor, []⟩ <;> simp
  · simp only [List.concat_eq_append, List.reverse_concat, ensureFoldersAt, List.reverse_cons,
      List.reverse_reverse, Path.parent, List.dropLast_concat]
    cases d.ensureFolder ⟨anchor, names ++ [name]⟩ with
    | ok e => rfl
    | error fault =>
      have hne : names ++ [name] ≠ [] := List.append_ne_nil_of_right_ne_nil _ (List.cons_ne_nil _ _)
      exact (if_congr (and_iff_left hne) rfl rfl).symm

/-- A refusal for another reason than a missing parent leaves the disk alone. -/
theorem ensureFolders_of_error {fault : PathFault} (h : d.ensureFolder p = .error fault)
    (hfault : fault ≠ refused p .noEntry) : d.ensureFolders p = (.error fault, d) := by
  rw [ensureFolders_eq, h]
  exact if_neg fun hno => hfault hno.1

theorem ensureFolders_of_isFolder (h : d.isFolder p = .ok true) :
    d.ensureFolders p = (.ok (), d) := by
  have hensure : d.ensureFolder p = .ok d := by
    obtain ⟨entry, hfind, _⟩ := isFolder_eq_true.1 h
    rw [ensureFolder, makeFolder_of_find hfind]
    simp [orThere, refused, h]
  rw [ensureFolders_eq, hensure]

theorem locate_fault {fault : PathFault} (h : d.locate p = .error fault) :
    (∃ reason, fault = .unusable reason) ∨ ∃ r, fault = refused p r := by
  unfold locate at h
  split at h
  · next reason _ => exact .inl ⟨reason, (Except.error.inj h).symm⟩
  · split at h
    · exact .inr ⟨_, (Except.error.inj h).symm⟩
    · cases hwalk : walk d.tree (d.start p) p.names with
      | error r =>
        rw [hwalk] at h
        exact .inr ⟨r, (Except.error.inj h).symm⟩
      | ok place =>
        rw [hwalk] at h
        cases h

/-- A look is never answered by what only says that nothing is there. -/
theorem find?_refusal {fault : SystemFault} (h : d.find? p = .error fault) :
    fault.refusal ≠ .noEntry ∧ fault.refusal ≠ .notFolder := by
  unfold find? at h
  split at h
  · cases h
  · cases h
  · split at h
    · cases h
    · next hother =>
      cases h
      exact not_or.1 hother

theorem ensureFolder_of_barred {fault : PathFault} (h : d.locate p = .error fault)
    (hfault : fault ≠ refused p .noEntry) :
    ∃ fault', d.ensureFolder p = .error fault' ∧ fault' ≠ refused p .noEntry := by
  rw [ensureFolder, makeFolder_of_locate_error h]
  rcases locate_fault h with ⟨reason, rfl⟩ | ⟨r, rfl⟩
  · exact ⟨.unusable reason, rfl, nofun⟩
  · have hr : r ≠ .noEntry := fun heq => hfault (heq ▸ rfl)
    simp only [refused, orThere, if_neg hr]
    cases hfolder : d.isFolder p with
    | error fault =>
      refine ⟨.refused fault, rfl, fun heq => ?_⟩
      cases hfind : d.find? p with
      | ok found =>
        rw [isFolder, hfind] at hfolder
        cases hfolder
      | error fault' =>
        rw [isFolder, hfind] at hfolder
        cases hfolder
        exact (find?_refusal hfind).1 (congrArg SystemFault.refusal (PathFault.refused.inj heq))
    | ok isFolder =>
      cases isFolder with
      | false => exact ⟨_, rfl, hfault⟩
      | true =>
        obtain ⟨place, hplace⟩ := exists_locate_of_isFolder hfolder
        rw [h] at hplace
        cases hplace

/-- A path that something bars makes no folder. -/
theorem ensureFolders_of_barred {fault : PathFault} (h : d.locate p = .error fault)
    (hfault : fault ≠ refused p .noEntry) :
    ∃ fault, d.ensureFolders p = (.error fault, d) := by
  obtain ⟨fault', hensure, hfault'⟩ := ensureFolder_of_barred h hfault
  exact ⟨fault', ensureFolders_of_error hensure hfault'⟩

/-! ## Paths that are none -/

theorem locate_of_unusable {reason : Unusable} (h : p.text.unusable? = some reason) :
    d.locate p = .error (.unusable reason) := by
  rw [locate, h]

theorem unusable?_of_locate {reason : Unusable} (h : d.locate p = .error (.unusable reason)) :
    p.text.unusable? = some reason := by
  cases husable : p.text.unusable? with
  | some other =>
    rw [locate_of_unusable husable] at h
    cases h
    rfl
  | none =>
    unfold locate at h
    rw [husable] at h
    simp only at h
    split at h
    · cases h
    · cases hwalk : walk d.tree (d.start p) p.names with
      | error r =>
        rw [hwalk] at h
        cases h
      | ok place =>
        rw [hwalk] at h
        cases h

theorem not_usable_of_locate {reason : Unusable} (h : d.locate p = .error (.unusable reason)) :
    ¬p.text.Usable := by
  rw [← Text.unusable?_eq_none, unusable?_of_locate h]
  exact Option.some_ne_none reason

theorem ensureFolder_of_unusable {reason : Unusable} (h : p.text.unusable? = some reason) :
    d.ensureFolder p = .error (.unusable reason) := by
  rw [ensureFolder, makeFolder_of_locate_error (locate_of_unusable h)]
  rfl

theorem ensureFolders_of_unusable {reason : Unusable} (h : p.text.unusable? = some reason) :
    d.ensureFolders p = (.error (.unusable reason), d) :=
  ensureFolders_of_error (ensureFolder_of_unusable h) nofun

theorem not_usable_of_ensureFolder {reason : Unusable}
    (h : d.ensureFolder p = .error (.unusable reason)) : ¬p.text.Usable := by
  unfold ensureFolder at h
  split at h
  · cases h
  · next fault hmake =>
    unfold orThere at h
    split at h
    · cases h
      unfold makeFolder at hmake
      rcases Outcome.bind_eq_error.1 hmake with hlocate | ⟨place, _, hmake⟩
      · exact not_usable_of_locate hlocate
      · split at hmake
        · cases hmake
        · split at hmake
          · split at hmake <;> cases hmake
          · cases hmake
    · split at h
      · cases h
      · split at h <;> cases h

theorem not_usable_of_ensureFolders {reason : Unusable}
    (h : d.ensureFolders p = (.error (.unusable reason), e)) : ¬p.text.Usable := by
  rw [Path.usable_text_iff]
  obtain ⟨anchor, names⟩ := p
  induction names using List.reverseRecOn generalizing e with
  | nil =>
    rw [ensureFolders_eq] at h
    split at h
    · cases h
    · next fault hensure =>
      rw [if_neg fun hno => hno.2 rfl] at h
      cases h
      exact fun husable => not_usable_of_ensureFolder hensure (Path.usable_text_iff.2 husable)
  | append_singleton names name ih =>
    intro husable
    have hpath : ∀ {d : Disk} {fault : PathFault},
        d.ensureFolder ⟨anchor, names ++ [name]⟩ = .error fault →
          ∀ reason, fault ≠ .unusable reason := by
      rintro d _ hensure reason rfl
      exact not_usable_of_ensureFolder hensure (Path.usable_text_iff.2 husable)
    rw [ensureFolders_eq] at h
    split at h
    · cases h
    · next fault hensure =>
      split at h
      · split at h
        · next habove =>
          cases h
          have hparent : Path.parent ⟨anchor, names ++ [name]⟩ = ⟨anchor, names⟩ := by
            simp [Path.parent]
          rw [hparent] at habove
          exact ih habove fun other hother => husable other (List.mem_append_left _ hother)
        · split at h
          · cases h
          · next hagain =>
            cases h
            exact hpath hagain _ rfl
      · cases h
        exact hpath hensure _ rfl

/-- A file is written over the one that is there, or into a folder that is there. -/
theorem write_eq_ok {data : Bytes} : d.write p data = .ok e ↔
    ∃ name folder, d.locate p = .ok (name :: folder) ∧
      ((∃ old, d.tree.at? (name :: folder) = some (.file old) ∧
        e = { d with tree := d.tree.overwrite (name :: folder) data }) ∨
      ∃ (inside : d.tree.at? folder = some .folder) (fresh : d.tree.at? (name :: folder) = none),
        e = { d with tree := d.tree.insertNew folder name (.file data) inside fresh }) := by
  rw [write, Outcome.bind_eq_ok]
  constructor
  · rintro ⟨place, hplace, h⟩
    split at h
    · cases h
    · next name folder =>
      refine ⟨name, folder, hplace, ?_⟩
      split at h
      · cases h
      · cases h
      · cases h
      · next old found => exact .inl ⟨old, found, (Except.ok.inj h).symm⟩
      · next fresh =>
        split at h
        · next inside => exact .inr ⟨inside, fresh, (Except.ok.inj h).symm⟩
        · cases h
  · rintro ⟨name, folder, hplace, hwritten⟩
    refine ⟨_, hplace, ?_⟩
    rcases hwritten with ⟨old, found, rfl⟩ | ⟨inside, fresh, rfl⟩
    · dsimp only
      split <;> simp_all
    · dsimp only
      split <;> simp_all

/-- A written file is the only place that changes. -/
theorem at?_of_write {data : Bytes} (h : d.write p data = .ok e) (hplace : d.locate p = .ok place) :
    e.tree.at? place = some (.file data) ∧
      ∀ other, other ≠ place → e.tree.at? other = d.tree.at? other := by
  obtain ⟨name, folder, hlocate, hwritten⟩ := write_eq_ok.1 h
  obtain rfl := Except.ok.inj (hplace.symm.trans hlocate)
  rcases hwritten with ⟨old, found, rfl⟩ | ⟨inside, fresh, rfl⟩
  · exact ⟨Tree.at?_overwrite_self data found, fun _ hne => Tree.at?_overwrite_of_ne data hne⟩
  · exact ⟨Tree.at?_insertNew_self inside fresh,
      fun _ hne => Tree.at?_insertNew_of_ne inside fresh hne⟩

theorem locate_of_write {data : Bytes} (h : d.write p data = .ok e) :
    ∃ name folder, d.locate p = .ok (name :: folder) ∧
      (∀ entry, d.tree.at? (name :: folder) = some entry → ∃ old, entry = .file old) ∧
      e.working = d.working := by
  obtain ⟨name, folder, hplace, hwritten⟩ := write_eq_ok.1 h
  refine ⟨name, folder, hplace, ?_⟩
  rcases hwritten with ⟨old, found, rfl⟩ | ⟨inside, fresh, rfl⟩
  · exact ⟨fun _ hentry => ⟨old, Option.some.inj (hentry.symm.trans found)⟩, rfl⟩
  · exact ⟨by simp [fresh], rfl⟩

theorem keeps_of_write {data : Bytes} (h : d.write p data = .ok e) : d.Keeps e := by
  obtain ⟨name, folder, hplace, hfile, hworking⟩ := locate_of_write h
  refine ⟨hworking, fun place entry hentry hfolder => ?_⟩
  have hne : place ≠ name :: folder := by
    rintro rfl
    obtain ⟨_, rfl⟩ := hfile entry hentry
    cases hfolder
  rw [(at?_of_write h hplace).2 place hne]
  exact hentry

/-- Whether a file can be written does not depend on what is written. -/
theorem exists_write_other {data : Bytes} (h : d.write p data = .ok e) (other : Bytes) :
    ∃ e', d.write p other = .ok e' := by
  obtain ⟨name, folder, hplace, hwritten⟩ := write_eq_ok.1 h
  rcases hwritten with ⟨old, found, _⟩ | ⟨inside, fresh, _⟩
  · exact ⟨_, write_eq_ok.2 ⟨name, folder, hplace, .inl ⟨old, found, rfl⟩⟩⟩
  · exact ⟨_, write_eq_ok.2 ⟨name, folder, hplace, .inr ⟨inside, fresh, rfl⟩⟩⟩

/-- A file that was not on the old disk may be written over and over. -/
theorem Grows.write {data : Bytes} (hgrows : base.Grows d new) (h : d.write p data = .ok e)
    (hplace : d.locate p = .ok place) (hnone : base.tree.at? place = none)
    (hnew : new (place, .file data)) : base.Grows e new := by
  obtain ⟨name, folder, hlocate, hwritten⟩ := write_eq_ok.1 h
  obtain rfl := Except.ok.inj (hplace.symm.trans hlocate)
  rcases hwritten with ⟨old, found, rfl⟩ | ⟨inside, fresh, rfl⟩
  · exact ⟨hgrows.working, hgrows.tree.overwrite hnone hnew⟩
  · refine ⟨hgrows.working, hgrows.tree.trans ?_⟩
    refine (Tree.extends_insertNew inside fresh).mono ?_
    rintro x - rfl
    exact hnew

theorem unusable?_of_write {data : Bytes} {reason : Unusable}
    (h : d.write p data = .error (.unusable reason)) : p.text.unusable? = some reason := by
  unfold write at h
  rcases Outcome.bind_eq_error.1 h with hlocate | ⟨place, _, h⟩
  · exact unusable?_of_locate hlocate
  · split at h
    · cases h
    · split at h
      · cases h
      · cases h
      · cases h
      · cases h
      · split at h <;> cases h

/-! ## Removing -/

theorem removeAll_of_absent (h : d.find p ≠ .ok .folder) : d.removeAll p = d := by
  unfold removeAll
  split
  · rfl
  · next place hplace =>
    refine if_neg fun hfolder => h ?_
    exact find_eq_ok.2 ⟨place, hplace, hfolder⟩

theorem at?_clear_of_not_inside {t : Tree} (h : place <:+ other → other = place) :
    (t.clear place).at? other = t.at? other := by
  cases other with
  | nil => rfl
  | cons name above =>
    unfold Tree.clear
    rw [Tree.at?_removeWhere (List.cons_ne_nil _ _)]
    refine if_neg fun hgone => ?_
    simp only [Bool.and_eq_true, bne_iff_ne, Tree.isRemoved_eq_true] at hgone
    exact hgone.1 (h hgone.2.1)

/-- Removing a folder that is new, with nothing sealed in it, leaves what is new
elsewhere. -/
theorem Grows.removeAll (hgrows : base.Grows d new) (hnone : base.tree.at? place = none)
    (hnew : ∀ x, place <:+ x.1 → new x → x.2 ≠ .sealed)
    (hplace : d.locate p = .ok place) (hfolder : d.tree.at? place = some .folder)
    (hname : p.name ≠ [.char '.', .char '.']) (hnames : p.names ≠ [])
    (hcleared : ({ d with tree := d.tree.clear place } : Disk).locate p = .ok place) :
    base.Grows (d.removeAll p) fun x => new x ∧ ¬ place <:+ x.1 := by
  have hclear : base.tree.Extends (d.tree.clear place)
      fun x => new x ∧ (x.1 != place && d.tree.isRemoved place x.1) = false :=
    hgrows.tree.removeWhere fun other hgone => Tree.at?_eq_none_of_suffix
      (Tree.isRemoved_eq_true.1 (Bool.and_eq_true_iff.1 hgone).2).1 hnone
  have hsealed := hclear.holdsSealed_eq_false hnone fun x hinside hx => hnew x hinside hx.1
  have hremove : base.tree.Extends ((d.tree.clear place).remove place)
      fun x => (new x ∧ (x.1 != place && d.tree.isRemoved place x.1) = false) ∧
        (d.tree.clear place).isRemoved place x.1 = false :=
    hclear.removeWhere fun other hgone =>
      Tree.at?_eq_none_of_suffix (Tree.isRemoved_eq_true.1 hgone).1 hnone
  have hstays : (d.tree.clear place).at? place = some .folder := by
    rw [at?_clear_of_not_inside fun _ => rfl]
    exact hfolder
  have hresult : d.removeAll p =
      { d with tree := (d.tree.clear place).remove place } := by
    unfold Disk.removeAll
    rw [hplace]
    simp only [if_pos hfolder, hcleared, if_pos hstays]
    refine if_neg ?_
    simp [hname, hnames]
  rw [hresult]
  refine ⟨hgrows.working, hremove.mono ?_⟩
  rintro x - ⟨⟨hx, _⟩, hout⟩
  refine ⟨hx, fun hinside => Bool.eq_false_iff.1 hout (Tree.isRemoved_eq_true.2 ⟨hinside, ?_⟩)⟩
  refine Bool.eq_false_iff.2 fun hholds => Bool.eq_false_iff.1 hsealed ?_
  exact Tree.holdsSealed_of_suffix hinside hholds

end Disk
end SchemaLedger
