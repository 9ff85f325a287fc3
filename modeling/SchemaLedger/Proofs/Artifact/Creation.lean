import SchemaLedger.Proofs.Artifact.NewTree

/-!
# Creating a tree, and undoing it

A new tree is new: nothing that was on the disk changes.  A tree that fails is
taken back, but for the folders above its root.  Both hold while the root stays
what it was when it was looked for.
-/

namespace SchemaLedger

namespace Disk

variable {d : Disk} {p : Path} {place : Location} {fault : PathFault}

/-- What bars a path bars the way into it. -/
theorem locate_child_of_barred (name : Text) (hshort : ShortPath p)
    (h : d.locate p = .error fault) (hfault : fault ≠ refused p .noEntry) :
    ∃ fault, d.locate (p.child name) = .error fault ∧
      fault ≠ refused (p.child name) .noEntry := by
  cases hchild : (p.child name).text.unusable? with
  | some reason => exact ⟨_, locate_of_unusable hchild, nofun⟩
  | none =>
    have husable := (Path.usable_child.1 (Text.unusable?_eq_none.1 hchild)).1
    rcases locate_fault h with ⟨reason, rfl⟩ | ⟨r, rfl⟩
    · exact absurd husable (not_usable_of_locate h)
    · have htaken := takenPath_iff.2 ⟨Text.unusable?_eq_none.2 husable, hshort⟩
      have hwalk : walk d.tree (d.start p) p.names = .error r := by
        cases hwalk : walk d.tree (d.start p) p.names with
        | ok place =>
          rw [locate_eq_ok.2 ⟨htaken, hwalk⟩] at h
          cases h
        | error r' =>
          rw [locate_of_taken htaken, hwalk] at h
          cases h
          rfl
      by_cases hlong : (Utf8.encode (p.child name).text).length > pathLimit
      · refine ⟨refused (p.child name) .nameTooLong, ?_, nofun⟩
        rw [locate, hchild]
        exact if_pos hlong
      · refine ⟨refused (p.child name) r, ?_, fun heq => hfault ?_⟩
        · have hlonger : walk d.tree (d.start p) (p.names ++ [name]) = .error r := by
            rw [walk_append, hwalk]
            rfl
          have hstart : d.start (p.child name) = d.start p := rfl
          rw [locate_of_taken ⟨hchild, Nat.not_lt.1 hlong⟩, hstart, Path.child, hlonger]
          rfl
        · simp only [refused, PathFault.refused.injEq, SystemFault.mk.injEq] at heq
          rw [heq.1]

/-- A path that leads to nothing while its parent is there has a route on which
nothing is missing above. -/
theorem exists_route_of_locate (hworking : d.tree.at? d.working = some .folder)
    (h : d.locate p = .ok place) (hnone : d.tree.at? place = none) :
    ∃ route : d.Route p, ∀ other, route.Above other → d.tree.at? other = some .folder := by
  have hstart : d.tree.at? (d.start p) = some .folder := by
    unfold start
    cases p.anchor with
    | relative => exact hworking
    | top => rfl
    | secondTop => rfl
  obtain ⟨_, hwalk⟩ := locate_eq_ok.1 h
  rcases List.eq_nil_or_concat' p.names with hnil | ⟨front, last, hnames⟩
  · rw [hnil] at hwalk
    cases hwalk
    rw [hstart] at hnone
    cases hnone
  · rw [hnames] at hwalk
    obtain ⟨above, habove, hfolder, _, rfl⟩ := walk_concat.1 hwalk
    have hlast : last ≠ [.char '.', .char '.'] := by
      rintro rfl
      have hup : stepTo above [.char '.', .char '.'] = above.tail := if_pos rfl
      rw [hup] at hnone
      have hinside := Tree.at?_eq_none_of_suffix (List.tail_suffix above) hnone
      rw [hfolder] at hinside
      cases hinside
    have honward : [.char '.', .char '.'] ∉ [last] := fun hmem =>
        hlast (List.mem_singleton.1 hmem).symm
    refine ⟨⟨front, [last], above, hnames, habove, hfolder, honward⟩, ?_⟩
    rintro other ⟨names, hfront, hne, rfl⟩
    -- a proper front of one name is empty
    rcases List.prefix_concat_iff.1 (show names <+: [] ++ [last] from hfront) with heq | hnil
    · exact absurd heq hne
    · rw [List.prefix_nil.1 hnil]
      exact hfolder

end Disk

namespace Artifact

open Disk

variable {root : Path} {dump : Option Text} {noise : List Text} {d : Disk} {w w' : World}
variable {paths : List Path} {err : Error}

/-! ## Failure -/

/-- A folder that something bars stops the making of folders before the first. -/
theorem makeFolders_of_barred {fault : PathFault} (habsent : d.isPresent root = .ok false)
    (h : d.locate root = .error fault) (hfault : fault ≠ refused root .noEntry) :
    ∃ fault, makeFolders root initialFolders d = (.error fault, d) := by
  obtain ⟨fault', hchild, hfault'⟩ :=
    locate_child_of_barred Layout.migrations (short_of_absent habsent) h hfault
  obtain ⟨fault, hensure⟩ := ensureFolders_of_barred hchild hfault'
  refine ⟨fault, ?_⟩
  rw [initialFolders, makeFolders, hensure]

/-- A run stops, on a route, with no more made than folders above the root and
what is inside it. -/
theorem StoppedAt.grows (route : w.disk.Route root) (habsent : w.disk.isPresent root = .ok false)
    (h : StoppedAt root dump noise w err d) :
    w.disk.Grows d fun x => x.2 = .folder ∧ route.Above x.1 ∨
      x.2 ≠ .sealed ∧ route.place <:+ x.1 ∧ d.find root = .ok .folder := by
  cases h with
  | folder hmake _ => exact makeFolders_on_route route habsent hmake
  | file hmake hsplit hwrite =>
    have hmade := makeFolders_on_route route habsent hmake
    obtain ⟨place, hfilling⟩ := filling_of_makeFolders habsent hmake hmade
    obtain rfl := route.eq_place_of_locate hmade.keeps hfilling.located
    have hnone := route.at?_place_of_absent hmade.keeps hfilling.located habsent
    rcases writeDump_run hfilling hnone (checkNames_of_splitFor hsplit) hwrite with
      ⟨_, hok, _⟩ | ⟨_, paths, hleft⟩
    · cases hok
    · have hfind := find_eq_ok.2 ⟨_, hleft.located, hleft.isFolder⟩
      refine hleft.grows.mono fun x _ hx => ?_
      rcases hx with (habove | ⟨hopen, hinside, _⟩) | ⟨hfile, path, hpath, hlocate⟩
      · exact .inl habove
      · exact .inr ⟨hopen, hinside, hfind⟩
      · obtain ⟨target, _, htarget, _, hinside⟩ := hleft.files path hpath
        obtain rfl : target = x.1 := Except.ok.inj (htarget.symm.trans hlocate)
        have hopen : x.2 ≠ .sealed := fun hsealed => by
          rw [hsealed] at hfile
          cases hfile
        exact .inr ⟨hopen, hinside, hfind⟩

/-- With files that can be named and written, a run stops with a failure or
before anything is made. -/
theorem StoppedAt.failure (h : StoppedAt root dump noise w err d)
    (hdump : root.text.Usable → ∀ split, splitFor dump noise = .ok (some split) → Storable split) :
    (∃ failure, err = .failure failure) ∨ d = w.disk := by
  cases h with
  | @folder fault d hmake herr =>
    cases fault with
    | refused fault => exact .inl ⟨_, herr⟩
    | unusable reason =>
      have hroot := not_usable_of_makeFolders initialFolders_usable hmake
      obtain ⟨_, hnothing⟩ := makeFolders_of_unusable w.disk (List.cons_ne_nil _ _) hroot
      exact .inr (congrArg Prod.snd (hmake.symm.trans hnothing))
  | file hmake hsplit hwrite =>
    by_cases hroot : root.text.Usable
    · exact .inl (failure_of_writeDump hroot (hdump hroot _ hsplit) (checkNames_of_splitFor hsplit)
        hwrite)
    · obtain ⟨_, hnothing⟩ := makeFolders_of_unusable w.disk (List.cons_ne_nil _ _) hroot
      have hmade := hmake.symm.trans hnothing
      cases congrArg Prod.fst hmade

/-- The errors of a run that are undone: the failures, and all of them when the
files of the dump can be named and written. -/
def IsUndone (root : Path) (dump : Option Text) (noise : List Text) (err : Error) : Prop :=
  (∃ failure, err = .failure failure) ∨
    (root.text.Usable → ∀ split, splitFor dump noise = .ok (some split) → Storable split)

/-- A run that is undone leaves, of all that it made on a route, folders above the
root. -/
theorem grows_of_createTree_error (route : w.disk.Route root)
    (hundone : IsUndone root dump noise err)
    (h : (createTree root dump noise).runIn w = (.error err, w')) :
    w.disk.Grows w'.disk fun x => x.2 = .folder ∧ route.Above x.1 := by
  rcases createTree_error h with ⟨rfl, _⟩ | ⟨habsent, left, hstopped, hdisk⟩
  · exact .refl _ _
  rw [hdisk]
  rcases hundone.elim .inl hstopped.failure with ⟨failure, rfl⟩ | rfl
  · exact route.grows_removeAll habsent (hstopped.grows route habsent)
  · cases err with
    | failure _ => exact route.grows_removeAll habsent (.refl _ _)
    | fault _ => exact .refl _ _

/-- A run that is undone below a folder that is there, or behind something that
bars the way, leaves nothing. -/
theorem disk_of_createTree_error (hworking : w.disk.tree.at? w.disk.working = some .folder)
    (hparent : w.disk.locate root ≠ .error (refused root .noEntry))
    (hundone : IsUndone root dump noise err)
    (h : (createTree root dump noise).runIn w = (.error err, w')) : w'.disk = w.disk := by
  rcases createTree_error h with ⟨rfl, _⟩ | ⟨habsent, left, hstopped, hdisk⟩
  · rfl
  · cases hlocate : w.disk.locate root with
    | ok place =>
      have hnone : w.disk.tree.at? place = none := by
        cases hplace : w.disk.tree.at? place with
        | none => rfl
        | some entry =>
          exact absurd (find_eq_ok.2 ⟨_, hlocate, hplace⟩) (not_find_of_absent habsent)
      obtain ⟨route, hthere⟩ := exists_route_of_locate hworking hlocate hnone
      refine Grows.eq_of_nothing
        ((grows_of_createTree_error route hundone h).mono fun x hnew hx => ?_)
      rw [hthere x.1 hx.2] at hnew
      cases hnew
    | error fault =>
      have hfault : fault ≠ refused root .noEntry := by
        rintro rfl
        exact hparent hlocate
      obtain ⟨_, hbarred⟩ := makeFolders_of_barred habsent hlocate hfault
      have hleft : left = w.disk := by
        cases hstopped with
        | folder hmake _ => exact congrArg Prod.snd (hmake.symm.trans hbarred)
        | file hmake _ _ => cases congrArg Prod.fst (hmake.symm.trans hbarred)
      rw [hdisk, hleft]
      cases err with
      | failure _ => exact removeAll_of_absent (not_find_of_absent habsent)
      | fault _ => rfl

/-- A failed run is taken back: wholly when it fails before anything is made, or
when what holds the root is there; otherwise, if no missing name of the root is
followed by a step up, all but folders above the root.  Only a failure undoes
what was made.  A file that cannot be named, or a text that cannot be encoded, is
none, and then what was made inside the root stays as well. -/
theorem createTree_undone (h : (createTree root dump noise).runIn w = (.error err, w')) :
    (¬ IsUncreatable root err → ¬ IsUnwritable err → w'.disk = w.disk) ∧
      (IsUndone root dump noise err →
        (w.disk.tree.at? w.disk.working = some .folder →
          w.disk.locate root ≠ .error (refused root .noEntry) → w'.disk = w.disk) ∧
        ∀ route : w.disk.Route root,
          w.disk.Grows w'.disk fun x => x.2 = .folder ∧ route.Above x.1) ∧
      ∀ route : w.disk.Route root,
        w.disk.Grows w'.disk fun x => x.2 = .folder ∧ route.Above x.1 ∨ route.place <:+ x.1 := by
  refine ⟨fun hmade hwritten => ?_, fun hundone => ⟨fun hworking hparent => ?_, fun route => ?_⟩,
    fun route => ?_⟩
  · rcases createTree_error h with ⟨rfl, _⟩ | ⟨_, _, hstopped, _⟩
    · rfl
    · cases hstopped with
      | @folder fault _ _ herr =>
        cases fault with
        | refused fault => exact absurd ⟨fault, herr⟩ hmade
        | unusable reason => exact absurd (.inr ⟨reason, herr⟩) hwritten
      | file _ hsplit hwrite =>
        exact absurd (isUnwritable_of_writeDump (checkNames_of_splitFor hsplit) hwrite) hwritten
  · exact disk_of_createTree_error hworking hparent hundone h
  · exact grows_of_createTree_error route hundone h
  · cases err with
    | failure failure =>
      refine (grows_of_createTree_error route (.inl ⟨failure, rfl⟩) h).mono fun x _ hx => ?_
      exact .inl hx
    | fault fault =>
      rcases createTree_error h with ⟨rfl, _⟩ | ⟨habsent, left, hstopped, hdisk⟩
      · exact .refl _ _
      · rw [hdisk]
        exact (hstopped.grows route habsent).mono fun x _ hx => hx.imp id fun hx => hx.2.1

def oneFile : Disk :=
  ⟨Tree.empty.insertNew [] "views".name (.file [1]) rfl rfl, []⟩

/-- A name too long for a file system, in a folder that is not there. -/
def tooLong : Path := ⟨.relative, ["a".text, List.replicate 256 'x']⟩

def tooLongRoute : oneFile.Route tooLong :=
  .ofOnward rfl (by decide +kernel)

/-- The folder above the name that cannot be made is what is left. -/
theorem createTree_undone_too_long :
    ((createTree tooLong none []).runIn { disk := oneFile }).2.disk.tree.at? ["a".name] =
        some .folder ∧
      oneFile.Grows ((createTree tooLong none []).runIn { disk := oneFile }).2.disk
        fun x => x.2 = .folder ∧ tooLongRoute.Above x.1 := by
  have herr : ((createTree tooLong none []).runIn { disk := oneFile }).1 =
      .error (.failure (.file (.uncreatable tooLong ⟨.nameTooLong, tooLong.text⟩))) := by
    decide +kernel
  have hleft : ((createTree tooLong none []).runIn { disk := oneFile }).2.disk.tree.at? ["a".name] =
      some .folder := by
    decide +kernel
  obtain ⟨_, hundone, _⟩ := createTree_undone (Act.runIn_eq_of_fst herr)
  exact ⟨hleft, (hundone (.inl ⟨_, rfl⟩)).2 tooLongRoute⟩

/-- The working folder, written as the parent of a folder that is not there. -/
def hereAgain : Path := ⟨.relative, ["new".text, "..".text]⟩

/-- Once the missing folder is made, the root is a folder with a file in it; the
run fails at the file and removes it. -/
theorem createTree_undone_removes_file :
    ((createTree hereAgain none []).runIn { disk := oneFile }).1 =
        .error (.failure (.file (.uncreatable hereAgain
          ⟨.exists, (hereAgain.child "views".text).text⟩))) ∧
      oneFile.tree.at? ["views".name] = some (.file [1]) ∧
      ((createTree hereAgain none []).runIn { disk := oneFile }).2.disk.tree.at?
        ["views".name] = none := by
  decide +kernel

def below : Path := ⟨.relative, ["a".text, "b".text]⟩

/-- A name with a null in it is no file name, and no failure either: what was made
before it stays. -/
example :
    let dump := "CREATE VIEW a\x00b AS SELECT 1;\n".text
    let left := ((createTree below (some dump) []).runIn { disk := oneFile }).2.disk
    left.tree.at? ["views".name, "b".name, "a".name] = some .folder := by
  decide +kernel

/-! ## Success -/

/-- A run that ends well: the root is a folder afterwards.  It is a new one if
no missing name of the root was followed by a step up; and if it is a new one,
what was there is there as it was, and the new files are the answer. -/
theorem createTree_new (h : (createTree root dump noise).runIn w = (.ok paths, w')) :
    ∃ place, w'.disk.locate root = .ok place ∧ w'.disk.tree.at? place = some .folder ∧
      (Nonempty (w.disk.Route root) → w.disk.tree.at? place = none) ∧
      (w.disk.tree.at? place = none →
        (∀ other entry, w.disk.tree.at? other = some entry →
          w'.disk.tree.at? other = some entry) ∧
        ∀ other, (w.disk.tree.at? other = none ∧
          ∃ data, w'.disk.tree.at? other = some (.file data)) ↔
          ∃ path ∈ paths, w'.disk.locate path = .ok other) := by
  obtain ⟨habsent, d, hmake, hwritten⟩ := createTree_ok h
  obtain ⟨hgrows, _⟩ := makeFolders_grows hmake
  have hmade : w.disk.Grows d fun x => x.2 = .folder := hgrows.mono fun x _ hx => hx.1
  obtain ⟨place, hfilling⟩ := filling_of_makeFolders habsent hmake hmade
  have hkeeps : d.Keeps w'.disk := by
    rcases hwritten with ⟨_, rfl⟩ | ⟨split, _, hwrite⟩
    · exact .refl d
    · exact keeps_of_writeDump hwrite
  refine ⟨place, hkeeps.locate hfilling.located, hkeeps.folder place _ hfilling.isFolder rfl,
    fun ⟨route⟩ => ?_, fun hnone => ?_⟩
  · obtain rfl := route.eq_place_of_locate hmade.keeps hfilling.located
    exact route.at?_place_of_absent hmade.keeps hfilling.located habsent
  · have hfilled : Filling w.disk (fun x => x.2 = .folder) root place paths w'.disk := by
      rcases hwritten with ⟨rfl, rfl⟩ | ⟨split, hnames, hwrite⟩
      · exact hfilling
      · rcases writeDump_run hfilling hnone hnames hwrite with
          ⟨written, hok, hfull⟩ | ⟨⟨_, herr⟩, _⟩
        · cases hok
          exact hfull
        · cases herr
    refine ⟨fun other entry hentry => hfilled.grows.tree.at?_of_some hentry, fun other => ?_⟩
    constructor
    · rintro ⟨habove, data, hfile⟩
      rcases hfilled.grows.tree.eq_or_new hfile with hold | ⟨_, hfolder | ⟨_, hnew⟩⟩
      · rw [habove] at hold
        cases hold
      · cases hfolder
      · exact hnew
    · rintro ⟨path, hpath, hlocate⟩
      obtain ⟨target, data, htarget, hfile, hinside⟩ := hfilled.files path hpath
      obtain rfl : target = other := Except.ok.inj (htarget.symm.trans hlocate)
      exact ⟨Tree.at?_eq_none_of_suffix hinside hnone, data, hfile⟩

/-- A tree below a folder that is not there, beside a file. -/
theorem createTree_new_below :
    ((createTree below (some "CREATE VIEW v AS SELECT 1;\n".text) []).runIn
        { disk := oneFile }).1 =
          .ok [(below.child "views".text).child "v.sql".text, bootstrapPath below] ∧
      oneFile.tree.at? ["b".name, "a".name] = none ∧
      ((createTree below (some "CREATE VIEW v AS SELECT 1;\n".text) []).runIn
        { disk := oneFile }).2.disk.tree.at? ["views".name] = some (.file [1]) := by
  have hpaths : ((createTree below (some "CREATE VIEW v AS SELECT 1;\n".text) []).runIn
      { disk := oneFile }).1 =
        .ok [(below.child "views".text).child "v.sql".text, bootstrapPath below] := by
    decide +kernel
  have hplace : ((createTree below (some "CREATE VIEW v AS SELECT 1;\n".text) []).runIn
      { disk := oneFile }).2.disk.locate below = .ok ["b".name, "a".name] := by
    decide +kernel
  obtain ⟨place, hlocate, _, _, hnew⟩ := createTree_new (Act.runIn_eq_of_fst hpaths)
  obtain rfl : place = ["b".name, "a".name] := Except.ok.inj (hlocate.symm.trans hplace)
  obtain ⟨hkept, _⟩ := hnew rfl
  exact ⟨hpaths, rfl, hkept ["views".name] (.file [1]) rfl⟩

def bootstrapped : Disk :=
  ⟨(Tree.empty.insertNew [] "migrations".name .folder rfl rfl).insertNew ["migrations".name]
    "00000.sql".name (.file [1]) (by decide +kernel) (by decide +kernel), []⟩

/-- Once the missing folder is made, the root is a folder with a bootstrap
migration in it, which is written anew. -/
theorem createTree_new_overwrites :
    ((createTree hereAgain (some []) []).runIn { disk := bootstrapped }).1 =
        .ok [bootstrapPath hereAgain] ∧
      bootstrapped.tree.at? ["00000.sql".name, "migrations".name] = some (.file [1]) ∧
      ((createTree hereAgain (some []) []).runIn { disk := bootstrapped }).2.disk.tree.at?
        ["00000.sql".name, "migrations".name] = some (.file []) := by
  decide +kernel

end Artifact
end SchemaLedger
