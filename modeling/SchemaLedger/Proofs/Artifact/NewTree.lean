import SchemaLedger.Proofs.Artifact.Filling
import SchemaLedger.Proofs.Tree.Sealed

/-!
# A new tree

What a run of `createTree` leaves on the disk, when it ends well and when it
fails.  The run asks once whether the root is there and then makes folders and
files below it; whether the answer still holds when they are made depends on
the way of the root.
-/

namespace SchemaLedger
namespace Artifact

open Disk

variable {root : Path} {dump : Option Text} {noise : List Text} {d e : Disk} {w w' : World}
variable {err : Error}

/-! ## The folders -/

theorem makeFolders_grows {folders : List Text} {r : Except PathFault Unit}
    (h : makeFolders root folders d = (r, e)) :
    d.Grows e (fun x => x.2 = .folder ∧
      ∃ folder ∈ folders, e.LeadsThrough (root.child folder) x.1) ∧
      (r = .ok () → ∀ folder ∈ folders, e.isFolder (root.child folder) = .ok true) := by
  induction folders generalizing d with
  | nil =>
    cases h
    exact ⟨.refl _ _, by simp⟩
  | cons folder rest ih =>
    unfold makeFolders at h
    split at h
    · next middle hensure =>
      obtain ⟨hfirst, hfound⟩ := ensureFolders_grows hensure
      obtain ⟨hsecond, hfolders⟩ := ih h
      have hkeeps := hsecond.keeps
      refine ⟨(hfirst.mono fun x _ hx => ?_).trans (hsecond.mono fun x _ hx => ?_),
        fun hr other hother => ?_⟩
      · exact ⟨hx.1, folder, List.mem_cons_self, hkeeps.leadsThrough hx.2⟩
      · obtain ⟨hfolder, other, hother, hlead⟩ := hx
        exact ⟨hfolder, other, List.mem_cons_of_mem _ hother, hlead⟩
      · rcases List.mem_cons.1 hother with rfl | hother
        · exact hkeeps.isFolder (hfound rfl)
        · exact hfolders hr other hother
    · next middle hensure =>
      cases h
      obtain ⟨hfirst, _⟩ := ensureFolders_grows hensure
      refine ⟨hfirst.mono fun x _ hx => ?_, nofun⟩
      exact ⟨hx.1, folder, List.mem_cons_self, hx.2⟩

/-- With a folder in it, the root leads somewhere. -/
theorem locate_root_of_isFolder {folder : Text} (hshort : ShortPath root)
    (h : d.isFolder (root.child folder) = .ok true) : ∃ place, d.locate root = .ok place := by
  obtain ⟨inner, hinner⟩ := exists_locate_of_isFolder h
  obtain ⟨⟨husable, _⟩, hwalk⟩ := Disk.locate_eq_ok.1 hinner
  obtain ⟨place, hplace, _⟩ := walk_concat.1 hwalk
  have hroot := (Path.usable_child.1 (Text.unusable?_eq_none.1 husable)).1
  exact ⟨place, Disk.locate_eq_ok.2
    ⟨takenPath_iff.2 ⟨Text.unusable?_eq_none.2 hroot, hshort⟩, hplace⟩⟩

/-- Below a root that is no path nothing is made. -/
theorem makeFolders_of_unusable (d : Disk) {folders : List Text} (hne : folders ≠ [])
    (h : ¬root.text.Usable) :
    ∃ reason, makeFolders root folders d = (.error (.unusable reason), d) := by
  obtain ⟨folder, rest, rfl⟩ := List.exists_cons_of_ne_nil hne
  have hfolder : ¬(root.child folder).text.Usable := fun husable =>
      h (Path.usable_child.1 husable).1
  rw [← Text.unusable?_eq_none] at hfolder
  obtain ⟨reason, hreason⟩ := Option.ne_none_iff_exists'.1 hfolder
  refine ⟨reason, ?_⟩
  rw [makeFolders, ensureFolders_of_unusable hreason]

/-- Below a root that is a path, only a refusal keeps folders from being made. -/
theorem not_usable_of_makeFolders {folders : List Text} {reason : Unusable}
    (hfolders : ∀ folder ∈ folders, folder.Usable)
    (h : makeFolders root folders d = (.error (.unusable reason), e)) : ¬root.text.Usable := by
  intro hroot
  induction folders generalizing d with
  | nil => cases h
  | cons folder rest ih =>
    obtain ⟨hfolder, hrest⟩ := List.forall_mem_cons.1 hfolders
    unfold makeFolders at h
    split at h
    · exact ih hrest h
    · next hensure =>
      cases h
      exact not_usable_of_ensureFolders hensure (Path.usable_child.2 ⟨hroot, hfolder⟩)

/-- The dump of a new tree as it is written, or why it is not. -/
def splitFor (dump : Option Text) (noise : List Text) : Except Error (Option Dump.Split) :=
  match dump with
  | none => .ok none
  | some dump =>
    match Dump.split dump noise with
    | .error fault => .error (.failure (.dump fault))
    | .ok split => (checkNames split).map fun _ => some split

/-- The error of folders that cannot be made. -/
def IsUncreatable (root : Path) (e : Error) : Prop :=
  ∃ fault, e = .failure (.file (.uncreatable root fault))

/-- What an error leaves of a disk: only a failure is undone. -/
def leftAfter (root : Path) : Error → Disk → Disk
  | .failure _, d => d.removeAll root
  | .fault _, d => d

theorem createTree_eq (root : Path) (dump : Option Text) (noise : List Text) :
    createTree root dump noise = (do
      if ← Act.look fun d => unreported (d.isPresent root) then
        Act.fail (.creation (.rootExists root))
      else
        let split ← Act.look fun _ => splitFor dump noise
        let undo := Act.changeAnyway (·.removeAll root)
        Act.onFailure (Act.change (makeFolders root initialFolders)
          fun fault => .file (.uncreatable root fault)) undo
        match split with
        | none => return []
        | some split => Act.onFailure (writeDump split root) undo) := rfl

theorem runIn_createTree (root : Path) (dump : Option Text) (noise : List Text) (w : World) :
    (createTree root dump noise).runIn w =
      match w.disk.isPresent root with
      | .error fault => (.error (.fault (.system fault)), w)
      | .ok true => (.error (.failure (.creation (.rootExists root))), w)
      | .ok false =>
        match splitFor dump noise with
        | .error e => (.error e, w)
        | .ok split =>
          match makeFolders root initialFolders w.disk with
          | (.error fault, d) =>
            let e := fault.reported fun cause => .file (.uncreatable root cause)
            (.error e, { w with disk := leftAfter root e d })
          | (.ok (), d) =>
            match split with
            | none => (.ok [], { w with disk := d })
            | some split =>
              ((writeDump split root).onFailure (Act.changeAnyway (·.removeAll root))).runIn
                { w with disk := d } := by
  rw [createTree_eq, Act.runIn_bind, Act.runIn_look]
  unfold unreported
  cases hpresent : w.disk.isPresent root with
  | error fault => rfl
  | ok present =>
    cases present with
    | true => rfl
    | false =>
      simp only [Except.mapError, Bool.false_eq_true, if_false]
      rw [Act.runIn_bind, Act.runIn_look]
      cases hsplit : splitFor dump noise with
      | error e => rfl
      | ok split =>
        simp only
        rw [Act.runIn_bind, Act.runIn_onFailure]
        cases hmake : makeFolders root initialFolders w.disk with
        | mk r d =>
          rw [Act.runIn_change hmake]
          cases r with
          | error fault => cases fault <;> rfl
          | ok u =>
            cases split with
            | none => rfl
            | some split => rfl

theorem checkNames_of_splitFor {split : Dump.Split} (h : splitFor dump noise = .ok (some split)) :
    checkNames split = .ok () := by
  unfold splitFor at h
  split at h
  · cases h
  · split at h
    · cases h
    · next found _ =>
      obtain ⟨u, hnames, hfound⟩ := Outcome.map_eq_ok.1 h
      cases hfound
      exact hnames

/-- A dump that cannot be split or stored is refused before anything is made. -/
theorem early_of_splitFor (h : splitFor dump noise = .error err) :
    ¬ IsUncreatable root err ∧ ¬ IsUnwritable err := by
  unfold splitFor at h
  split at h
  · cases h
  · split at h
    · cases h
      exact ⟨nofun, nofun⟩
    · next found _ =>
      unfold checkNames at h
      split at h
      · cases h
        exact ⟨nofun, nofun⟩
      · cases h

/-- A run ends well when the root is not there, all folders are made and the
dump is written. -/
theorem createTree_wrote {paths : List Path}
    (h : (createTree root dump noise).runIn w = (.ok paths, w')) :
    w.disk.isPresent root = .ok false ∧ ∃ d, makeFolders root initialFolders w.disk = (.ok (), d) ∧
      (splitFor dump noise = .ok none ∧ paths = [] ∧ w' = { w with disk := d } ∨
        ∃ split, splitFor dump noise = .ok (some split) ∧
          (writeDump split root).runIn { w with disk := d } = (.ok paths, w')) := by
  rw [runIn_createTree] at h
  cases hpresent : w.disk.isPresent root with
  | error fault =>
    rw [hpresent] at h
    cases h
  | ok present =>
    rw [hpresent] at h
    cases present with
    | true => cases h
    | false =>
      refine ⟨rfl, ?_⟩
      cases hsplit : splitFor dump noise with
      | error e =>
        rw [hsplit] at h
        cases h
      | ok split =>
        rw [hsplit] at h
        simp only at h
        split at h
        · cases h
        · next d hmake =>
          refine ⟨d, hmake, ?_⟩
          cases split with
          | none =>
            cases h
            exact .inl ⟨rfl, rfl, rfl⟩
          | some split =>
            refine .inr ⟨split, rfl, ?_⟩
            simp only [Act.runIn_onFailure] at h
            split at h
            · cases h
            · next hwrite =>
              rw [hwrite, h]

theorem createTree_ok {paths : List Path}
    (h : (createTree root dump noise).runIn w = (.ok paths, w')) :
    w.disk.isPresent root = .ok false ∧ ∃ d, makeFolders root initialFolders w.disk = (.ok (), d) ∧
      (paths = [] ∧ w' = { w with disk := d } ∨ ∃ split, checkNames split = .ok () ∧
        (writeDump split root).runIn { w with disk := d } = (.ok paths, w')) := by
  obtain ⟨habsent, d, hmake, ⟨_, hnothing⟩ | ⟨split, hsplit, hwrite⟩⟩ := createTree_wrote h
  · exact ⟨habsent, d, hmake, .inl hnothing⟩
  · exact ⟨habsent, d, hmake, .inr ⟨split, checkNames_of_splitFor hsplit, hwrite⟩⟩

/-- Where a run that fails stops: at a folder, or at a file. -/
inductive StoppedAt (root : Path) (dump : Option Text) (noise : List Text) (w : World)
    (err : Error) : Disk → Prop
  | folder {fault : PathFault} {d : Disk} :
      makeFolders root initialFolders w.disk = (.error fault, d) →
      err = fault.reported (fun cause => .file (.uncreatable root cause)) →
      StoppedAt root dump noise w err d
  | file {d : Disk} {split : Dump.Split} {left : World} :
      makeFolders root initialFolders w.disk = (.ok (), d) →
      splitFor dump noise = .ok (some split) →
      (writeDump split root).runIn { w with disk := d } = (.error err, left) →
      StoppedAt root dump noise w err left.disk

/-- A run that fails has changed nothing, or a failure is undone where it stopped. -/
theorem createTree_error (h : (createTree root dump noise).runIn w = (.error err, w')) :
    w' = w ∧ ¬ IsUncreatable root err ∧ ¬ IsUnwritable err ∨
      w.disk.isPresent root = .ok false ∧
        ∃ left, StoppedAt root dump noise w err left ∧ w'.disk = leftAfter root err left := by
  rw [runIn_createTree] at h
  cases hpresent : w.disk.isPresent root with
  | error fault =>
    rw [hpresent] at h
    cases h
    exact .inl ⟨rfl, nofun, nofun⟩
  | ok present =>
    rw [hpresent] at h
    cases present with
    | true =>
      cases h
      exact .inl ⟨rfl, nofun, nofun⟩
    | false =>
      cases hsplit : splitFor dump noise with
      | error e =>
        rw [hsplit] at h
        cases h
        exact .inl ⟨rfl, early_of_splitFor hsplit⟩
      | ok split =>
        refine .inr ⟨rfl, ?_⟩
        rw [hsplit] at h
        simp only at h
        split at h
        · next fault d hmake =>
          cases h
          exact ⟨d, .folder hmake rfl, rfl⟩
        · next d hmake =>
          cases split with
          | none => cases h
          | some split =>
            simp only [Act.runIn_onFailure] at h
            split at h
            · next f left hwrite =>
              cases h
              exact ⟨left.disk, .file hmake hsplit hwrite, rfl⟩
            · next r left hother hwrite =>
              cases h
              cases err with
              | failure f => exact absurd rfl (hother f)
              | fault f => exact ⟨w'.disk, .file hmake hsplit hwrite, rfl⟩

/-! ## What is left -/

/-- Folders that are all there are ready to be filled. -/
theorem filling_of_makeFolders {made : Location × Entry → Prop}
    (habsent : d.isPresent root = .ok false)
    (h : makeFolders root initialFolders d = (.ok (), e)) (hmade : d.Grows e made) :
    ∃ place, Filling d made root place [] e := by
  obtain ⟨_, hfolders⟩ := makeFolders_grows h
  have hmigrations := hfolders rfl _ migrations_mem_initialFolders
  obtain ⟨place, hplace⟩ := locate_root_of_isFolder (short_of_absent habsent) hmigrations
  refine ⟨place, hplace, hfolders rfl, hmade.mono fun _ _ => .inl, ?_⟩
  intro path hpath
  cases hpath

/-- On a route only folders above the root and things inside it are made. -/
theorem makeFolders_on_route {r : Except PathFault Unit} (route : d.Route root)
    (habsent : d.isPresent root = .ok false) (h : makeFolders root initialFolders d = (r, e)) :
    d.Grows e fun x => x.2 = .folder ∧ route.Above x.1 ∨
      x.2 ≠ .sealed ∧ route.place <:+ x.1 ∧ e.find root = .ok .folder := by
  by_cases husable : root.text.unusable? = none
  case neg =>
    rw [Text.unusable?_eq_none] at husable
    obtain ⟨reason, hmake⟩ := makeFolders_of_unusable d (List.cons_ne_nil _ _) husable
    rw [initialFolders, hmake] at h
    cases h
    exact .refl _ _
  have htaken : TakenPath root := takenPath_iff.2 ⟨husable, short_of_absent habsent⟩
  obtain ⟨hgrows, _⟩ := makeFolders_grows h
  refine hgrows.present.mono fun x hnone hx => ?_
  obtain ⟨⟨hfolder, folder, hmem, hlead⟩, hthere⟩ := hx
  rcases route.of_leadsThrough hgrows.keeps (initialFolders_onward folder hmem)
    htaken hlead hnone with habove | ⟨hinside, hlocate⟩
  · exact .inl ⟨hfolder, habove⟩
  · refine .inr ⟨by rw [hfolder]; exact nofun, hinside, find_eq_ok.2 ⟨_, hlocate, ?_⟩⟩
    by_cases heq : route.place = x.1
    · rw [heq, hthere, hfolder]
    · exact Tree.folder_of_suffix hinside heq hthere

end Artifact
end SchemaLedger
