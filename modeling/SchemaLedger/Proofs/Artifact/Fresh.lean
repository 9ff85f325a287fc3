import SchemaLedger.Proofs.Artifact.Creation
import SchemaLedger.Proofs.Artifact.Number

/-!
# New artifacts

A call that makes an artifact adds its file and at most the folder of its kind,
and leaves everything else on the disk as it is.  That the file is new is asked
for an object, and follows for a numbered artifact: a file of SQL in the folder
is listed, and the next number is that of no file in the list.  A call that fails
may leave the file too, empty, when its text has no bytes.
-/

namespace SchemaLedger

namespace Disk

variable {d e : Disk} {root : Path} {top place : Location} {folder name : Text}
variable {r : Except PathFault Unit}

/-- The way of a path that goes on from a folder that is there. -/
def routeFrom (hlocate : d.locate root = .ok top) (hfolder : d.tree.at? top = some .folder)
    (behind : List Text) (honward : [.char '.', .char '.'] ∉ behind) :
    d.Route ⟨root.anchor, root.names ++ behind⟩ :=
  ⟨root.names, behind, top, rfl, (locate_eq_ok.1 hlocate).2, hfolder, honward⟩

/-- Inside a folder that is there, only the folder asked for can be new. -/
theorem grows_of_ensureFolders_child (hlocate : d.locate root = .ok top)
    (hfolder : d.tree.at? top = some .folder) (hup : folder ≠ [.char '.', .char '.'])
    (h : d.ensureFolders (root.child folder) = (r, e)) :
    d.Grows e (· = (.ofText folder :: top, .folder)) := by
  have honward : [.char '.', .char '.'] ∉ [folder] :=
    fun hmem => hup (List.mem_singleton.1 hmem).symm
  let route : d.Route (root.child folder) := routeFrom hlocate hfolder [folder] honward
  obtain ⟨hgrows, _⟩ := ensureFolders_grows h
  have hkeeps := hgrows.keeps
  refine hgrows.mono fun x hnew hx => ?_
  obtain ⟨hentry, names, hnames, hlead⟩ := hx
  rcases List.prefix_concat_iff.1 hnames with rfl | hfound
  · exact Prod.ext (route.eq_place_of_locate hkeeps hlead) hentry
  · -- on the way to the folder that is there nothing is made
    have hwalk : walk e.tree (d.start root) names = .ok x.1 := by
      rw [← hkeeps.start root]
      exact (locate_eq_ok.1 hlead).2
    exact absurd hnew (route.at?_of_found hkeeps hfound hwalk)

end Disk

namespace Artifact

open Disk

variable {d e : Disk} {root folder path : Path} {top place : Location} {kind name : Text}
variable {paths : List Path} {w w' : World} {content : Text} {r : Except Error Path}

/-- The path leads to a file with these bytes that is new, and nothing else is new
but maybe the folder around it. -/
def AddsFile (d : Disk) (path : Path) (data : Bytes) (e : Disk) : Prop :=
  ∃ name folder, e.locate path = .ok (name :: folder) ∧
    d.tree.at? (name :: folder) = none ∧ e.tree.at? (name :: folder) = some (.file data) ∧
    d.Grows e fun x => x = (name :: folder, .file data) ∨ x = (folder, .folder)

def Adds (d : Disk) (path : Path) (e : Disk) : Prop :=
  ∃ data, AddsFile d path data e

/-- The path leads to no file that is there, whatever is made on the way. -/
def IsFree (d : Disk) (path : Path) : Prop :=
  ∀ e place data, d.Keeps e → e.locate path = .ok place → d.tree.at? place ≠ some (.file data)

/-! ## Free names -/

theorem requireRoot_eq_ok : requireRoot d root = .ok () ↔ d.isFolder root = .ok true := by
  rw [requireRoot, Outcome.bind_eq_ok]
  simp only [unreported_eq_ok]
  constructor
  · rintro ⟨isFolder, hfolder, h⟩
    cases isFolder with
    | false => cases h
    | true => exact hfolder
  · exact fun h => ⟨true, h, rfl⟩

theorem shortPath_of_list (h : list d folder = .ok paths) : ShortPath folder := by
  rcases list_eq_ok.1 h with ⟨hfolder, _⟩ | ⟨names, _, hnames, _⟩
  · obtain ⟨_, hfound, _⟩ := Outcome.map_eq_ok.1 hfolder
    exact shortPath_of_find? hfound
  · obtain ⟨_, hlocate, _⟩ := Disk.list_eq_ok.1 hnames
    exact (takenPath_iff.1 (locate_eq_ok.1 hlocate).1).2

/-- Every file of SQL in a folder is listed. -/
theorem mem_list_of_isFile {name : Name} (hlist : list d folder = .ok paths)
    (hname : name.text ≠ [.char '.', .char '.'])
    (hsuffix : (folder.child name.text).suffix = Layout.suffix)
    (hfile : d.isFile (folder.child name.text) = .ok true) : folder.child name.text ∈ paths := by
  obtain ⟨entry, hfind, _⟩ := isFile_eq_true.1 hfile
  obtain ⟨place, hlocate, hentry⟩ := find_eq_ok.1 hfind
  obtain ⟨⟨husable, _⟩, hwalk⟩ := locate_eq_ok.1 hlocate
  obtain ⟨hparent, _⟩ := Path.usable_child.1 (Text.unusable?_eq_none.1 husable)
  obtain ⟨inner, hinner, hfolder, _, rfl⟩ := walk_concat.1 hwalk
  have hparent : d.locate folder = .ok inner := locate_eq_ok.2
    ⟨takenPath_iff.2 ⟨Text.unusable?_eq_none.2 hparent, shortPath_of_list hlist⟩, hinner⟩
  rw [stepTo, if_neg hname, Name.ofText_text] at hentry
  have hthere : d.tree.at? (name :: inner) ≠ none := by
    rw [hentry]
    exact Option.some_ne_none _
  have hnames := Disk.list_eq_ok.2 ⟨inner, hparent, hfolder, rfl⟩
  have hlisted : IsListed d folder (folder.child name.text) :=
    ⟨hsuffix, _, hnames, name.text, List.mem_map_of_mem (Tree.mem_names.2 hthere), rfl⟩
  exact (mem_list hlist).2 ⟨hlisted, hfile⟩

/-- A plain name is listed as it is asked for. -/
theorem text_ofText_of_locate (hplain : name.Plain)
    (h : d.locate (folder.child name) = .ok place) : (Name.ofText name).text = name := by
  have husable := Text.unusable?_eq_none.1 (locate_eq_ok.1 h).1.1
  exact Name.text_ofText hplain fun hnull => ((Path.usable_child.1 husable).2 _ hnull).2 rfl

section

variable (hroot : d.find root = .ok .folder) (hkind : kind ≠ [.char '.', .char '.'])
  (hname : name ≠ [.char '.', .char '.'])

include hroot hkind hname

/-- A path two names down from a root has one place only, before and after
folders are made. -/
theorem exists_route_of_root : ∃ route : d.Route ((root.child kind).child name), ∃ top,
    d.locate root = .ok top ∧ route.place = .ofText name :: .ofText kind :: top := by
  obtain ⟨top, hlocate, hfolder⟩ := find_eq_ok.1 hroot
  have honward : [.char '.', .char '.'] ∉ [kind, name] := by
    simp [hkind.symm, hname.symm]
  have hpath : (root.child kind).child name = ⟨root.anchor, root.names ++ [kind, name]⟩ := by
    simp [Path.child]
  rw [hpath]
  exact ⟨routeFrom hlocate hfolder [kind, name] honward, top, hlocate, rfl⟩

theorem isFree_of_absent (h : d.isPresent ((root.child kind).child name) = .ok false) :
    IsFree d ((root.child kind).child name) := by
  obtain ⟨route, _⟩ := exists_route_of_root hroot hkind hname
  intro e place data hkeeps hlocate hfile
  rw [route.eq_place_of_locate hkeeps hlocate, route.at?_place_of_absent hkeeps hlocate h] at hfile
  cases hfile

theorem isFree_of_notMem (hlist : list d (root.child kind) = .ok paths) (hplain : name.Plain)
    (hsuffix : ((root.child kind).child name).suffix = Layout.suffix)
    (h : (root.child kind).child name ∉ paths) : IsFree d ((root.child kind).child name) := by
  obtain ⟨route, _⟩ := exists_route_of_root hroot hkind hname
  intro e place data hkeeps hlocate hfile
  rw [route.eq_place_of_locate hkeeps hlocate] at hfile
  have hfind : d.find ((root.child kind).child name) = .ok (.file data) :=
    find_eq_ok.2 ⟨_, route.locate_of_at? hkeeps hlocate hfile, hfile⟩
  have hsame := text_ofText_of_locate hplain hlocate
  rw [← hsame] at h hname hsuffix hfind
  exact h (mem_list_of_isFile hlist hname hsuffix (isFile_eq_true.2 ⟨_, hfind, rfl⟩))

end

theorem isFree_of_nextName (hroot : d.find root = .ok .folder)
    (hkind : kind ≠ [.char '.', .char '.'])
    (h : nextName d (root.child kind) = .ok name) : IsFree d ((root.child kind).child name) := by
  obtain ⟨paths, highest, hcounted, rfl⟩ := exists_counted_of_nextName h
  exact isFree_of_notMem hroot hkind (fileName_onward _) hcounted.listed
    (plain_fileName_numeral _) (suffix_fileName (numeral_ne_nil _) _) hcounted.fresh

/-! ## One write -/

/-- A write that ends in an error has written nothing, or the text has no bytes and
the file is empty. -/
theorem writeText_error {err : Error} (h : (writeText path content).runIn w = (.error err, w')) :
    (∃ r, w.disk.ensureFolders path.parent = (r, w'.disk)) ∨
      ∃ fault d, err = .unencodable fault ∧ w.disk.ensureFolders path.parent = (.ok (), d) ∧
        d.write path [] = .ok w'.disk := by
  unfold writeText at h
  rcases Act.bind_eq_error.1 h with h | ⟨_, middle, hfolders, hwrite⟩
  · exact .inl ⟨_, Prod.ext rfl (Act.disk_of_change h).symm⟩
  · obtain ⟨d, hd, rfl⟩ := Act.change_eq_ok.1 hfolders
    have hcontent := contentRun_writeContent path content { w with disk := d }
    rw [hwrite] at hcontent
    cases hcontent with
    | failed _ => exact .inl ⟨_, hd⟩
    | emptied _ hempty => exact .inr ⟨_, d, rfl, hd, hempty⟩

/-- Nothing is written below a sealed root. -/
theorem writeText_of_sealed (hsealed : w.disk.find root = .ok .sealed) (kind name content : Text) :
    ∃ err, (writeText ((root.child kind).child name) content).runIn w = (.error err, w) := by
  obtain ⟨fault, hlocate, hfault⟩ := locate_child_of_sealed kind hsealed
  obtain ⟨fault, hfolders⟩ := ensureFolders_of_barred hlocate hfault
  rw [← Path.parent_child (root.child kind) name] at hfolders
  unfold writeText
  rw [Act.runIn_bind, Act.runIn_change (f := (·.ensureFolders _)) hfolders]
  exact ⟨_, rfl⟩

/-- A refused write leaves at most the folder that it made. -/
theorem grows_of_ensureFolders_kind (hroot : d.find root = .ok .folder)
    (hkind : kind ≠ [.char '.', .char '.']) {r : Except PathFault Unit}
    (h : d.ensureFolders ((root.child kind).child name).parent = (r, e)) :
    ∃ folder, d.Grows e (· = (folder, .folder)) := by
  obtain ⟨top, hlocate, hfolder⟩ := find_eq_ok.1 hroot
  rw [Path.parent_child] at h
  exact ⟨_, grows_of_ensureFolders_child hlocate hfolder hkind h⟩

theorem addsFile_of_write {m : Disk} {data : Bytes} (hroot : d.find root = .ok .folder)
    (hkind : kind ≠ [.char '.', .char '.']) (hname : name ≠ [.char '.', .char '.'])
    (hfree : IsFree d ((root.child kind).child name))
    (hensure : d.ensureFolders ((root.child kind).child name).parent = (.ok (), m))
    (hwrite : m.write ((root.child kind).child name) data = .ok e) :
    AddsFile d ((root.child kind).child name) data e := by
  obtain ⟨route, top, hlocate, hplace⟩ := exists_route_of_root hroot hkind hname
  have hfolder : d.tree.at? top = some .folder := by
    obtain ⟨place, hfound, hentry⟩ := find_eq_ok.1 hroot
    rwa [Except.ok.inj (hfound.symm.trans hlocate)] at hentry
  rw [Path.parent_child] at hensure
  have hgrows := grows_of_ensureFolders_child hlocate hfolder hkind hensure
  obtain ⟨last, above, hwritten, hfile, _⟩ := locate_of_write hwrite
  have hsame : last :: above = .ofText name :: .ofText kind :: top :=
    (route.eq_place_of_locate hgrows.keeps hwritten).trans hplace
  rw [hsame] at hwritten hfile
  have hnone : d.tree.at? (.ofText name :: .ofText kind :: top) = none := by
    cases hentry : d.tree.at? (.ofText name :: .ofText kind :: top) with
    | none => rfl
    | some entry =>
      obtain ⟨old, rfl⟩ := hfile entry (hgrows.tree.at?_of_some hentry)
      exact absurd hentry (hfree m _ old hgrows.keeps hwritten)
  refine ⟨.ofText name, .ofText kind :: top, (keeps_of_write hwrite).locate hwritten, hnone,
    (at?_of_write hwrite hwritten).1, ?_⟩
  exact (hgrows.mono fun x _ hx => .inr hx).write hwrite hwritten hnone (.inl rfl)

/-! ## One call -/

/-- How a call ends that makes an artifact: before anything is written, or with
the write of a file below its root that is not there. -/
def Writes (w : World) (r : Except Error Path) (w' : World) : Prop :=
  (∃ err, r = .error err ∧ w' = w) ∨
    ∃ root kind name content u, w.disk.find root = .ok .folder ∧ kind ≠ [.char '.', .char '.'] ∧
      name ≠ [.char '.', .char '.'] ∧ IsFree w.disk ((root.child kind).child name) ∧
      (writeText ((root.child kind).child name) content).runIn w = (u, w') ∧
      r = u.map fun _ => (root.child kind).child name

theorem Writes.of_writeText (hroot : w.disk.isFolder root = .ok true)
    (hkind : kind ≠ [.char '.', .char '.']) (hname : name ≠ [.char '.', .char '.'])
    (hfree : w.disk.find root = .ok .folder → IsFree w.disk ((root.child kind).child name))
    (h : (do writeText ((root.child kind).child name) content
             return (root.child kind).child name : Act Path).runIn w = (r, w')) :
    Writes w r w' := by
  rw [Act.runIn_bind] at h
  rcases hrun : (writeText ((root.child kind).child name) content).runIn w with ⟨u, middle⟩
  rw [hrun] at h
  obtain ⟨entry, hfind, hentry⟩ := isFolder_eq_true.1 hroot
  cases entry with
  | file data => cases hentry
  | locked => cases hentry
  | sealed =>
    obtain ⟨err, hsealed⟩ := writeText_of_sealed hfind kind name content
    rw [hsealed] at hrun
    cases hrun
    cases h
    exact .inl ⟨err, rfl, rfl⟩
  | folder =>
    refine .inr ⟨root, kind, name, content, u, hfind, hkind, hname, hfree hfind, ?_⟩
    cases u with
    | error err =>
      cases h
      exact ⟨hrun, rfl⟩
    | ok _ =>
      cases h
      exact ⟨hrun, rfl⟩

theorem writes_createNumbered {folder : Text} (hfolder : folder ≠ [.char '.', .char '.'])
    (h : (createNumbered root folder).runIn w = (r, w')) : Writes w r w' := by
  unfold createNumbered at h
  rw [Act.runIn_bind, Act.runIn_look] at h
  cases hroot : requireRoot w.disk root with
  | error err =>
    rw [hroot] at h
    cases h
    exact .inl ⟨err, rfl, rfl⟩
  | ok u =>
    rw [hroot] at h
    simp only at h
    rw [Act.runIn_bind, Act.runIn_look] at h
    cases hnext : nextName w.disk (root.child folder) with
    | error err =>
      rw [hnext] at h
      cases h
      exact .inl ⟨err, rfl, rfl⟩
    | ok name =>
      rw [hnext] at h
      have hfound := requireRoot_eq_ok.1 hroot
      have hname : name ≠ [.char '.', .char '.'] := by
        obtain ⟨_, _, rfl⟩ := exists_number_of_nextName hnext
        exact fileName_onward _
      exact .of_writeText hfound hfolder hname
        (fun hfolderRoot => isFree_of_nextName hfolderRoot hfolder hnext) h

theorem writes_createObject {kindName : Text}
    (h : (createObject root kindName name false).runIn w = (r, w')) : Writes w r w' := by
  unfold createObject at h
  rw [Act.runIn_bind, Act.runIn_look] at h
  cases hroot : requireRoot w.disk root with
  | error err =>
    rw [hroot] at h
    cases h
    exact .inl ⟨err, rfl, rfl⟩
  | ok u =>
    rw [hroot] at h
    simp only at h
    split at h
    · cases h
      exact .inl ⟨_, rfl, rfl⟩
    · next kind _ =>
      split at h
      · cases h
        exact .inl ⟨_, rfl, rfl⟩
      · rw [Act.runIn_bind, Act.runIn_look] at h
        cases hpresent : w.disk.isPresent (objectPath root kind name) with
        | error fault =>
          rw [hpresent] at h
          cases h
          exact .inl ⟨_, rfl, rfl⟩
        | ok present =>
          rw [hpresent] at h
          cases present with
          | true =>
            cases h
            exact .inl ⟨_, rfl, rfl⟩
          | false =>
            refine .of_writeText (requireRoot_eq_ok.1 hroot) (folder_onward kind)
              (fileName_onward name) (fun hfolder => ?_) h
            exact isFree_of_absent hfolder (folder_onward kind) (fileName_onward name) hpresent

namespace Writes

theorem adds (h : Writes w (.ok path) w') : Adds w.disk path w'.disk := by
  rcases h with ⟨_, hr, _⟩ | ⟨root, kind, name, content, u, hroot, hkind, hname, hfree, hrun, hr⟩
  · cases hr
  · obtain ⟨_, rfl, rfl⟩ := Outcome.map_eq_ok.1 hr.symm
    obtain ⟨d, e, hensure, _, hwrite, rfl⟩ := writeText_ok hrun
    exact ⟨_, addsFile_of_write hroot hkind hname hfree hensure hwrite⟩

theorem of_error {err : Error} (h : Writes w (.error err) w') :
    (∃ folder, w.disk.Grows w'.disk (· = (folder, .folder))) ∨
      ∃ fault path, err = .unencodable fault ∧ AddsFile w.disk path [] w'.disk := by
  rcases h with ⟨_, _, rfl⟩ | ⟨root, kind, name, content, u, hroot, hkind, hname, hfree, hrun, hr⟩
  · exact .inl ⟨[], .refl _ _⟩
  · cases u with
    | ok _ => cases hr
    | error err =>
      cases hr
      rcases writeText_error hrun with ⟨r, hensure⟩ | ⟨fault, d, rfl, hensure, hwrite⟩
      · exact .inl (grows_of_ensureFolders_kind hroot hkind hensure)
      · exact .inr ⟨fault, _, rfl, addsFile_of_write hroot hkind hname hfree hensure hwrite⟩

end Writes

/-! ## Runs of calls -/

/-- A call that makes an artifact and resets none. -/
inductive Creation
  | object (root : Path) (kindName name : Text)
  | migration (root : Path)
  | seed (root : Path)

namespace Creation

def act : Creation → Act Path
  | object root kindName name => createObject root kindName name false
  | migration root => createMigration root
  | seed root => createSeed root

def answer (w : World) (call : Creation) : Except Error Path :=
  (call.act.runIn w).1

/-- The world behind a call, whether it ended well or failed. -/
def after (w : World) (call : Creation) : World :=
  (call.act.runIn w).2

def run (w : World) (calls : List Creation) : World :=
  calls.foldl after w

/-- The paths that the calls of a run return, one after the other. -/
def made (w : World) : List Creation → List Path
  | [] => []
  | call :: rest => (answer w call).toOption.toList ++ made (after w call) rest

theorem writes (w : World) (call : Creation) : Writes w (call.answer w) (call.after w) := by
  cases call with
  | object root kindName name => exact writes_createObject rfl
  | migration root => exact writes_createNumbered (by decide) rfl
  | seed root => exact writes_createNumbered (by decide) rfl

theorem grows_after (w : World) (call : Creation) :
    w.disk.Grows (call.after w).disk fun _ => True := by
  have h := call.writes w
  cases hanswer : call.answer w with
  | ok path =>
    rw [hanswer] at h
    obtain ⟨_, _, _, _, _, _, hgrows⟩ := h.adds
    exact hgrows.mono fun _ _ _ => trivial
  | error err =>
    rw [hanswer] at h
    rcases h.of_error with ⟨_, hgrows⟩ | ⟨_, _, _, _, _, _, _, _, hgrows⟩
    · exact hgrows.mono fun _ _ _ => trivial
    · exact hgrows.mono fun _ _ _ => trivial

theorem grows_run (w : World) (calls : List Creation) :
    w.disk.Grows (run w calls).disk fun _ => True := by
  induction calls generalizing w with
  | nil => exact .refl _ _
  | cons call rest ih => exact (grows_after w call).trans (ih (after w call))

theorem run_append (w : World) (earlier later : List Creation) :
    run w (earlier ++ later) = run (run w earlier) later :=
  List.foldl_append

/-- A path that a run returns leads to nothing that was there before the run. -/
theorem fresh_of_made {calls : List Creation} (h : path ∈ made w calls)
    (hlocate : w.disk.locate path = .ok place) : w.disk.tree.at? place = none := by
  induction calls generalizing w with
  | nil => cases h
  | cons call rest ih =>
    have hgrows := grows_after w call
    rcases List.mem_append.1 h with hfirst | hlater
    · have hanswer : call.answer w = .ok path := by
        cases hcall : call.answer w with
        | error err =>
          rw [hcall] at hfirst
          cases hfirst
        | ok other =>
          rw [hcall] at hfirst
          rw [List.mem_singleton.1 hfirst]
      have hwrites := call.writes w
      rw [hanswer] at hwrites
      obtain ⟨_, _, _, hnew, hnone, _⟩ := hwrites.adds
      rwa [Except.ok.inj ((hgrows.keeps.locate hlocate).symm.trans hnew)]
    · have hnone := ih hlater (hgrows.keeps.locate hlocate)
      cases hentry : w.disk.tree.at? place with
      | none => rfl
      | some entry =>
        rw [hgrows.tree.at?_of_some hentry] at hnone
        cases hnone

/-- No path is returned twice: what a call made is there, and later calls make
what is not. -/
theorem made_nodup (w : World) (calls : List Creation) : (made w calls).Nodup := by
  induction calls generalizing w with
  | nil => exact List.nodup_nil
  | cons call rest ih =>
    have hwrites := call.writes w
    rw [made]
    cases hanswer : call.answer w with
    | error err => exact ih (after w call)
    | ok path =>
      rw [hanswer] at hwrites
      obtain ⟨_, _, _, hlocate, _, hfile, _⟩ := hwrites.adds
      refine List.nodup_cons.2 ⟨fun hmem => ?_, ih (after w call)⟩
      have hnone := fresh_of_made hmem hlocate
      rw [hfile] at hnone
      cases hnone

end Creation

open Creation in
/-- Making artifacts destroys none.  At any two points of a run, what was there
at the earlier one is there at the later one as it was; a call that ends well
adds one file, which is new, and at most the folder around it; a call that fails
adds at most a folder, or its file is there, empty, because its text has no bytes;
and no path is returned twice. -/
theorem creations_keep (w : World) (calls : List Creation) :
    (∀ earlier between later, calls = earlier ++ between ++ later → ∀ place entry,
      (run w earlier).disk.tree.at? place = some entry →
        (run w (earlier ++ between)).disk.tree.at? place = some entry) ∧
    (∀ earlier call later, calls = earlier ++ call :: later →
      match call.answer (run w earlier) with
      | .ok path => Adds (run w earlier).disk path (run w (earlier ++ [call])).disk
      | .error err =>
        (∃ folder, (run w earlier).disk.Grows (run w (earlier ++ [call])).disk
          (· = (folder, .folder))) ∨
        ∃ fault path, err = .unencodable fault ∧
          AddsFile (run w earlier).disk path [] (run w (earlier ++ [call])).disk) ∧
    (made w calls).Nodup := by
  refine ⟨fun earlier between later _ place entry hentry => ?_,
    fun earlier call later _ => ?_, made_nodup w calls⟩
  · rw [run_append]
    exact (grows_run (run w earlier) between).tree.at?_of_some hentry
  · rw [run_append]
    have hwrites := call.writes (run w earlier)
    cases hanswer : call.answer (run w earlier) with
    | ok path =>
      rw [hanswer] at hwrites
      exact hwrites.adds
    | error err =>
      rw [hanswer] at hwrites
      exact hwrites.of_error

def workingPath : Path := ⟨.relative, []⟩

/-- Two migrations and a seed, and a view where a file is in the way. -/
def fourCalls : List Creation :=
  [.migration workingPath, .migration workingPath, .seed workingPath,
    .object workingPath "view".text [.char 'v']]

open Creation in
theorem creations_keep_fourCalls :
    made { disk := oneFile } fourCalls =
        [(workingPath.child Layout.migrations).child "00001.sql".text,
          (workingPath.child Layout.migrations).child "00002.sql".text,
          (workingPath.child Layout.seeds).child "00001.sql".text] ∧
      (run { disk := oneFile } fourCalls).disk.tree.at? ["views".name] = some (.file [1]) ∧
      (made { disk := oneFile } fourCalls).Nodup := by
  have hmade : made { disk := oneFile } fourCalls =
      [(workingPath.child Layout.migrations).child "00001.sql".text,
        (workingPath.child Layout.migrations).child "00002.sql".text,
        (workingPath.child Layout.seeds).child "00001.sql".text] := by
    decide +kernel
  obtain ⟨hkept, _, hnodup⟩ := creations_keep { disk := oneFile } fourCalls
  exact ⟨hmade, hkept [] fourCalls [] (List.append_nil _).symm _ _ rfl, hnodup⟩

end Artifact
end SchemaLedger
