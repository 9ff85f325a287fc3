import SchemaLedger.Proofs.Artifact.Fresh

/-!
# The list behind a new file

A folder is listed as the files of SQL in it.  A new file comes to those that were
listed before and takes none of them away, so a new numbered file stands behind the
numbers that are counted.
-/

namespace SchemaLedger
namespace Artifact

open Disk

variable {d e : Disk} {root folder path : Path} {top inner : Location} {kind name : Text}
variable {paths : List Path} {w w' : World}

/-! ## Listing -/

/-- A folder is listed as the files of SQL in it. -/
theorem mem_list_iff (hlist : list d folder = .ok paths) : path ∈ paths ↔
    ∃ name : Name, path = folder.child name.text ∧ path.suffix = Layout.suffix ∧
      d.isFile path = .ok true := by
  constructor
  · intro hmem
    obtain ⟨hlisted, hfile⟩ := (mem_list hlist).1 hmem
    obtain ⟨_, name, _, hpath⟩ := hlisted.exists_name
    exact ⟨name, hpath, hlisted.1, hfile⟩
  · rintro ⟨name, rfl, hsuffix, hfile⟩
    exact mem_list_of_isFile hlist (onward_of_suffix hsuffix) hsuffix hfile

/-- A look into a folder is answered for a name that is short enough only. -/
theorem shortName_of_isFile_child {name : Text} {b : Bool} (hfolder : d.locate folder = .ok inner)
    (hinner : d.tree.at? inner = some .folder) (htaken : TakenPath (folder.child name))
    (h : d.isFile (folder.child name) = .ok b) : ShortName name := by
  by_contra hlong
  have hwalk : walk d.tree (d.start folder) (folder.names ++ [name]) = .error .nameTooLong := by
    rw [walk_append, walk_of_locate hfolder]
    simp only [Except.bind, walk, hinner, if_pos (Nat.not_le.1 hlong)]
  have hlocate : d.locate (folder.child name) =
      .error (refused (folder.child name) .nameTooLong) := by
    rw [locate_of_taken htaken]
    exact congrArg _ hwalk
  rw [isFile, find?, find, hlocate] at h
  cases h

/-- What is in a folder is found, if its path can be looked at at all. -/
theorem exists_find_of_mem_names {name : Name} {b : Bool} (hfolder : d.locate folder = .ok inner)
    (hname : name ∈ d.tree.names inner) (h : d.isFile (folder.child name.text) = .ok b) :
    ∃ entry, d.find (folder.child name.text) = .ok entry := by
  obtain ⟨entry, hentry⟩ := Option.ne_none_iff_exists'.1 (Tree.mem_names.1 hname)
  have hinner := Tree.folder_of_inside hentry
  have htaken := takenPath_child hfolder name.usable_text (shortPath_of_isFile h)
  have hshort := shortName_of_isFile_child hfolder hinner htaken h
  have hlocate : d.locate (folder.child name.text) = .ok (stepTo inner name.text) :=
    locate_eq_ok.2 ⟨htaken, walk_concat.2 ⟨inner, walk_of_locate hfolder, hinner, hshort, rfl⟩⟩
  by_cases hup : name.text = [.char '.', .char '.']
  · rw [stepTo, if_pos hup] at hlocate
    refine ⟨.folder, find_eq_ok.2 ⟨_, hlocate, ?_⟩⟩
    cases inner with
    | nil => rfl
    | cons _ above => exact Tree.folder_of_inside hinner
  · rw [stepTo, if_neg hup, Name.ofText_text] at hlocate
    exact ⟨entry, find_eq_ok.2 ⟨_, hlocate, hentry⟩⟩

/-- A file that is new in the folder of its kind, and where the root is that the
folder is in. -/
structure AddedAt (d e : Disk) (root : Path) (kind name : Text) (top : Location) : Prop where
  rootLocated : d.locate root = .ok top
  isFolder : d.tree.at? top = some .folder
  onward : kind ≠ [.char '.', .char '.']
  nameOnward : name ≠ [.char '.', .char '.']
  plain : name.Plain
  located : e.locate ((root.child kind).child name) = .ok (.ofText name :: .ofText kind :: top)
  file : ∃ data, e.tree.at? (.ofText name :: .ofText kind :: top) = some (.file data)
  grows : d.Grows e fun x => ∀ other, x.1 = other :: .ofText kind :: top → other = .ofText name

theorem exists_addedAt (hroot : d.find root = .ok .folder) (hkind : kind ≠ [.char '.', .char '.'])
    (hname : name ≠ [.char '.', .char '.']) (hplain : name.Plain)
    (h : Adds d ((root.child kind).child name) e) :
    ∃ top, AddedAt d e root kind name top := by
  obtain ⟨data, last, above, hlocate, _, hfile, hgrows⟩ := h
  obtain ⟨route, top, hfound, hplace⟩ := exists_route_of_root hroot hkind hname
  obtain ⟨rfl, rfl⟩ := List.cons.inj ((route.eq_place_of_locate hgrows.keeps hlocate).trans hplace)
  obtain ⟨place, hlocated, hfolder⟩ := find_eq_ok.1 hroot
  obtain rfl : top = place := Except.ok.inj (hfound.symm.trans hlocated)
  refine ⟨top, hfound, hfolder, hkind, hname, hplain, hlocate, ⟨data, hfile⟩, hgrows.mono ?_⟩
  rintro x - (rfl | rfl) other hother
  · exact (List.cons.inj hother).1.symm
  · -- the folder is not inside itself
    have := congrArg List.length hother
    simp at this

/-- A root in which something was added is not sealed. -/
theorem find_of_adds (hroot : d.isFolder root = .ok true)
    (h : Adds d ((root.child kind).child name) e) : d.find root = .ok .folder := by
  obtain ⟨_, _, _, hlocate, _, _, hgrows⟩ := h
  obtain ⟨entry, hfind, hentry⟩ := isFolder_eq_true.1 hroot
  cases entry with
  | file data => cases hentry
  | locked => cases hentry
  | folder => exact hfind
  | sealed =>
    have hshut := shut_child_of_sealed (hgrows.find hfind) kind
    exact absurd (hshut.child name) (not_shut_of_locate hlocate)

namespace AddedAt

variable (h : AddedAt d e root kind name top)

include h

/-- Whatever else is in the folder was there. -/
theorem at?_other {other : Name} {entry : Entry} (hne : other ≠ .ofText name)
    (hentry : e.tree.at? (other :: .ofText kind :: top) = some entry) :
    d.tree.at? (other :: .ofText kind :: top) = some entry := by
  rcases h.grows.tree.eq_or_new hentry with hthere | ⟨_, hnew⟩
  · exact hthere
  · exact absurd (hnew other rfl) hne

theorem find_other {other : Text} {entry : Entry} (hne : Name.ofText other ≠ .ofText name)
    (hother : other ≠ [.char '.', .char '.'])
    (hfind : e.find ((root.child kind).child other) = .ok entry) :
    d.find ((root.child kind).child other) = .ok entry := by
  have hroot : d.find root = .ok .folder := find_eq_ok.2 ⟨top, h.rootLocated, h.isFolder⟩
  obtain ⟨route, place, hplace, hroute⟩ := exists_route_of_root hroot h.onward hother
  obtain rfl : top = place := Except.ok.inj (h.rootLocated.symm.trans hplace)
  obtain ⟨target, htarget, hentry⟩ := find_eq_ok.1 hfind
  rw [route.eq_place_of_locate h.grows.keeps htarget, hroute] at hentry
  have hthere := h.at?_other hne hentry
  rw [← hroute] at hthere
  exact find_eq_ok.2 ⟨_, route.locate_of_at? h.grows.keeps htarget hthere, hthere⟩

theorem locate_folder (hshort : ShortPath (root.child kind)) :
    e.locate (root.child kind) = .ok (.ofText kind :: top) := by
  obtain ⟨⟨husable, _⟩, hwalk⟩ := locate_eq_ok.1 h.located
  obtain ⟨inner, hinner, _, _, hlast⟩ := walk_concat.1 hwalk
  rw [stepTo, if_neg h.nameOnward] at hlast
  rw [(List.cons.inj hlast).2]
  have hparent := (Path.usable_child.1 (Text.unusable?_eq_none.1 husable)).1
  exact locate_eq_ok.2 ⟨takenPath_iff.2 ⟨Text.unusable?_eq_none.2 hparent, hshort⟩, hinner⟩

/-- A folder that could be listed can be listed with the new file in it. -/
theorem exists_list (hlist : list d (root.child kind) = .ok paths) :
    ∃ more, list e (root.child kind) = .ok more := by
  obtain ⟨data, hfile⟩ := h.file
  have hparent := h.locate_folder (shortPath_of_list hlist)
  have hnames := Disk.list_eq_ok.2 ⟨_, hparent, Tree.folder_of_inside hfile, rfl⟩
  refine exists_list_iff.2 (.inr ⟨_, hnames, fun _ hlisted => ?_⟩)
  obtain ⟨other, hmem, rfl⟩ := List.mem_map.1 hlisted
  by_cases hne : other = .ofText name
  · rw [hne, text_ofText_of_locate h.plain h.located]
    exact ⟨true, isFile_eq_true.2 ⟨_, find_eq_ok.2 ⟨_, h.located, hfile⟩, rfl⟩⟩
  · obtain ⟨entry, hentry⟩ := Option.ne_none_iff_exists'.1 (Tree.mem_names.1 hmem)
    have hthere := h.at?_other hne hentry
    have hinside := Tree.folder_of_inside hthere
    have honward : [.char '.', .char '.'] ∉ [kind] :=
      fun hup => h.onward (List.mem_singleton.1 hup).symm
    have hbefore : d.locate (root.child kind) = .ok (.ofText kind :: top) :=
      (routeFrom h.rootLocated h.isFolder [kind] honward).locate_of_at? h.grows.keeps hparent
        hinside
    have hnamed : other ∈ d.tree.names (.ofText kind :: top) := by
      rw [Tree.mem_names, hthere]
      exact Option.some_ne_none _
    have hlisted := Disk.list_eq_ok.2 ⟨_, hbefore, hinside, rfl⟩
    obtain ⟨b, hb⟩ := isFile_of_exists_list ⟨paths, hlist⟩ hlisted _ (List.mem_map_of_mem hnamed)
    obtain ⟨found, hfind⟩ := exists_find_of_mem_names hbefore hnamed hb
    exact ⟨_, Outcome.map_eq_ok.2 ⟨_, find?_eq_ok_some.2 (h.grows.find hfind), rfl⟩⟩

end AddedAt

/-- A new file of SQL below a root is listed with what was listed before. -/
theorem exists_list_of_adds (hroot : d.find root = .ok .folder)
    (hkind : kind ≠ [.char '.', .char '.']) (hplain : name.Plain)
    (hsuffix : ((root.child kind).child name).suffix = Layout.suffix)
    (hlist : list d (root.child kind) = .ok paths)
    (h : Adds d ((root.child kind).child name) e) :
    ∃ more, list e (root.child kind) = .ok more ∧
      ∀ path, path ∈ more ↔ path = (root.child kind).child name ∨ path ∈ paths := by
  obtain ⟨top, hadded⟩ := exists_addedAt hroot hkind (onward_of_suffix hsuffix) hplain h
  obtain ⟨more, hmore⟩ := hadded.exists_list hlist
  obtain ⟨data, hfile⟩ := hadded.file
  have hsame := text_ofText_of_locate hplain hadded.located
  refine ⟨more, hmore, fun path => ?_⟩
  rw [mem_list_iff hmore, mem_list_iff hlist]
  constructor
  · rintro ⟨other, rfl, hsql, hthere⟩
    obtain ⟨entry, hfind, hentry⟩ := isFile_eq_true.1 hthere
    by_cases hne : other = .ofText name
    · exact .inl (by rw [hne, hsame])
    · rw [← Name.ofText_text other] at hne
      have hbefore := hadded.find_other hne (onward_of_suffix hsql) hfind
      exact .inr ⟨other, rfl, hsql, isFile_eq_true.2 ⟨entry, hbefore, hentry⟩⟩
  · rintro (rfl | ⟨other, rfl, hsql, hthere⟩)
    · exact ⟨.ofText name, by rw [hsame], hsuffix,
        isFile_eq_true.2 ⟨_, find_eq_ok.2 ⟨_, hadded.located, hfile⟩, rfl⟩⟩
    · obtain ⟨entry, hfind, hentry⟩ := isFile_eq_true.1 hthere
      exact ⟨other, rfl, hsql, isFile_eq_true.2 ⟨entry, hadded.grows.find hfind, hentry⟩⟩

/-! ## A new number -/

theorem createNumbered_ok {folder : Text} (hfolder : folder ≠ [.char '.', .char '.'])
    (h : (createNumbered root folder).runIn w = (.ok path, w')) :
    ∃ paths highest, Counted w.disk (root.child folder) paths highest ∧
      path = (root.child folder).child (Layout.fileName (numeral (highest + 1))) ∧
      ∃ more, list w'.disk (root.child folder) = .ok more ∧
        ∀ other, other ∈ more ↔ other = path ∨ other ∈ paths := by
  have hadds := (writes_createNumbered hfolder h).adds
  unfold createNumbered at h
  obtain ⟨_, _, hroot, hnumbered⟩ := Act.bind_eq_ok.1 h
  obtain ⟨name, _, hname, hwritten⟩ := Act.bind_eq_ok.1 hnumbered
  obtain ⟨_, _, _, hpath⟩ := Act.bind_eq_ok.1 hwritten
  rw [Act.runIn_look] at hroot hname
  obtain ⟨hfound, rfl⟩ := Prod.mk.inj hroot
  obtain ⟨hnext, rfl⟩ := Prod.mk.inj hname
  obtain rfl := Except.ok.inj (congrArg Prod.fst hpath)
  obtain ⟨paths, highest, hcounted, rfl⟩ := exists_counted_of_nextName hnext
  refine ⟨paths, highest, hcounted, rfl, ?_⟩
  exact exists_list_of_adds (find_of_adds (requireRoot_eq_ok.1 hfound) hadds) hfolder
    (plain_fileName_numeral _) (suffix_fileName (numeral_ne_nil _) _) hcounted.listed hadds

/-! ## One migration -/

/-- The file of a migration below the working folder. -/
def workingMigration (name : String) : Path :=
  (workingPath.child Layout.migrations).child name.text

/-- A working folder with one migration, which is empty. -/
def onlyMigration (name : Name) : Disk where
  tree :=
    { entries := [(["migrations".name], .folder), ([name, "migrations".name], .file [])]
      distinct := by simp
      closed := fun other place hplace => by
        simp only [List.map_cons, List.map_nil, List.mem_cons, List.cons.injEq, List.not_mem_nil,
          or_false] at hplace
        rcases hplace with ⟨_, rfl⟩ | ⟨_, rfl⟩
        · exact .inl rfl
        · exact .inr List.mem_cons_self }
  working := []

def diskOfSeven : Disk := onlyMigration "00007.sql".name

end Artifact
end SchemaLedger
