import SchemaLedger.Proofs.Dump.Kind
import SchemaLedger.Proofs.Script.Complete

/-!
# Trees made by the program

Whatever the program is asked to make, in any order and with failures on the
way, the trees that it leaves can be compiled.  A tree made from a dump holds
exactly the statements of the dump, and its script runs them.
-/

namespace SchemaLedger

namespace Artifact

open Disk

variable {root : Path} {dump : Text} {noise : List Text} {w w' : World} {paths : List Path}
variable {kind : ObjectKind}

/-! ## The files of a new tree -/

/-- The folder of a kind holds the statements of that kind in a split dump. -/
structure Holds (d : Disk) (root : Path) (split : Dump.Split) : Prop where
  storable : checkNames split = .ok ()
  plain : ∀ s ∈ split.statements, s.name.Plain ∧ (stored s).Plain
  isFolder : d.isFolder root = .ok true
  folders : ∀ folder ∈ initialFolders, d.find (root.child folder) = .ok .folder
  file : ∀ kind name s, (name, s) ∈ split.ofKind kind →
    d.find (objectPath root kind name) = .ok (.file (Utf8.encode (stored s)))
  statement : ∀ kind : ObjectKind, ∀ file data, file ≠ [.char '.', .char '.'] →
    d.find ((root.child kind.folder).child file) = .ok (.file data) →
    ∃ name s, Name.ofText file = .ofText (Layout.fileName name) ∧ (name, s) ∈ split.ofKind kind

theorem find?_reverse_pathOf {split : Dump.Split} {name : Text} {s : Dump.Statement} :
    (name, s) ∈ split.ofKind kind ↔
      split.statements.reverse.find? (pathOf root · = objectPath root kind name) = some s := by
  rw [Dump.Split.mem_ofKind]
  have hsame : (fun t : Dump.Statement => decide (pathOf root t = objectPath root kind name)) =
      fun t => decide (t.kind = kind ∧ t.name = name) :=
    funext fun t => decide_eq_decide.2 objectPath_eq_iff
  rw [hsame]

theorem split_of_splitFor {split : Dump.Split} (h : splitFor (some dump) noise = .ok (some split)) :
    Dump.split dump noise = .ok split := by
  unfold splitFor at h
  simp only at h
  split at h
  · cases h
  · next found hfound =>
    obtain ⟨_, _, heq⟩ := Outcome.map_eq_ok.1 h
    cases heq
    exact hfound

theorem splitFor_ne_none : splitFor (some dump) noise ≠ .ok none := by
  intro h
  unfold splitFor at h
  simp only at h
  split at h
  · cases h
  · obtain ⟨_, _, heq⟩ := Outcome.map_eq_ok.1 h
    cases heq

/-- A file that was written into the folder of a kind is one of the kind. -/
theorem exists_statement_of_locate {split : Dump.Split} {d : Disk} {top : Location} {path : Path}
    {file : Name} (hpath : path ∈ split.statements.map (pathOf root) ∨ path = bootstrapPath root)
    (hlocate : d.locate path = .ok (file :: .ofText kind.folder :: top)) :
    ∃ name s, file = .ofText (Layout.fileName name) ∧ (name, s) ∈ split.ofKind kind := by
  rcases hpath with hpath | rfl
  · obtain ⟨s, hs, rfl⟩ := List.mem_map.1 hpath
    obtain ⟨other, _, heq⟩ :=
      exists_top_of_locate (folder_onward s.kind) (fileName_onward s.name) hlocate
    obtain ⟨hfile, hrest⟩ := List.cons.inj heq
    obtain ⟨hfolder, _⟩ := List.cons.inj hrest
    have hkind : s.kind = kind := ofText_folder_injective hfolder.symm
    cases hlast : split.statements.reverse.find?
        (pathOf root · = objectPath root kind s.name) with
    | none =>
      have := List.find?_eq_none.1 hlast s (List.mem_reverse.2 hs)
      exact absurd (decide_eq_true (objectPath_eq_iff.2 ⟨hkind, rfl⟩)) this
    | some last => exact ⟨s.name, last, hfile, find?_reverse_pathOf.2 hlast⟩
  · obtain ⟨other, _, heq⟩ := exists_top_of_locate (by decide) (by decide) hlocate
    obtain ⟨_, hrest⟩ := List.cons.inj heq
    exact absurd (List.cons.inj hrest).1 (ofText_folder_ne_migrations kind)

/-- A tree that is made from a dump where nothing was holds its statements. -/
theorem holds_of_createTree (h : (createTree root (some dump) noise).runIn w = (.ok paths, w'))
    (hfresh : ∀ place, w'.disk.locate root = .ok place → w.disk.tree.at? place = none) :
    ∃ split, Dump.split dump noise = .ok split ∧ Holds w'.disk root split := by
  obtain ⟨habsent, d, hmake, ⟨hnone, _⟩ | ⟨split, hsplit, hwrite⟩⟩ := createTree_wrote h
  · exact absurd hnone splitFor_ne_none
  have hnames := checkNames_of_splitFor hsplit
  obtain ⟨hgrows, _⟩ := makeFolders_grows hmake
  have hmade : w.disk.Grows d fun x => x.2 = .folder := hgrows.mono fun x _ hx => hx.1
  obtain ⟨place, hfilling⟩ := filling_of_makeFolders habsent hmake hmade
  have hnone : w.disk.tree.at? place = none :=
    hfresh place ((keeps_of_writeDump hwrite).locate hfilling.located)
  obtain ⟨written, hok, hfilled⟩ | ⟨⟨_, herr⟩, _⟩ := writeDump_run hfilling hnone hnames hwrite
  swap
  · cases herr
  cases hok
  have hroot : w'.disk.isFolder root = .ok true :=
    isFolder_of_find (find_eq_ok.2 ⟨place, hfilled.located, hfilled.isFolder⟩)
  have hsame := split_of_splitFor hsplit
  have hplain := plain_names_of_writeDump hsame hwrite
  obtain ⟨_, hstatements, _⟩ := writeDump_ok hwrite
  refine ⟨split, hsame, hnames,
    fun s hs => ⟨hplain s hs, (storable_of_writeStatements hstatements s hs).2⟩, hroot,
    fun _ => hfilled.find_folder hnone, fun kind name s hs => ?_,
    fun kind file data hfile hfind => ?_⟩
  · exact find_of_writeDump hplain hwrite (find?_reverse_pathOf.1 hs)
  · obtain ⟨target, htarget, hthere⟩ := find_eq_ok.1 hfind
    obtain ⟨top, htop, rfl⟩ := exists_top_of_locate (folder_onward kind) hfile htarget
    obtain rfl : top = place :=
      Except.ok.inj (htop.symm.trans (locate_eq_ok.1 hfilled.located).2)
    have hinside : top <:+ Name.ofText file :: .ofText kind.folder :: top :=
      ⟨[.ofText file, .ofText kind.folder], rfl⟩
    rcases hfilled.grows.tree.eq_or_new hthere with hold | ⟨_, hfolder | ⟨_, path, hpath, hlocate⟩⟩
    · rw [Tree.at?_eq_none_of_suffix hinside hnone] at hold
      cases hold
    · cases hfolder
    · obtain ⟨_, _, _, rfl⟩ := writeDump_ok hwrite
      rw [List.mem_append, List.mem_mergeSort, List.mem_eraseDups, List.mem_reverse,
        List.mem_singleton] at hpath
      exact exists_statement_of_locate hpath hlocate

namespace Holds

variable {d : Disk} {split : Dump.Split}

theorem exists_mem_of_ofKind {name : Text} {s : Dump.Statement}
    (hs : (name, s) ∈ split.ofKind kind) : s ∈ split.statements ∧ s.name = name := by
  have hfind := Dump.Split.mem_ofKind.1 hs
  have hboth : s.kind = kind ∧ s.name = name := by simpa using List.find?_some hfind
  exact ⟨List.mem_reverse.1 (List.mem_of_find?_eq_some hfind), hboth.2⟩

theorem usable (h : Holds d root split) {name : Text} {s : Dump.Statement}
    (hs : (name, s) ∈ split.ofKind kind) : Recordable name := by
  obtain ⟨hmem, rfl⟩ := exists_mem_of_ofKind hs
  exact recordable_of_isStorable (isStorable_of_checkNames h.storable hmem)

/-- The name of a file tells the name of its statement. -/
theorem text_fileName (h : Holds d root split) {name : Text} {s : Dump.Statement}
    (hs : (name, s) ∈ split.ofKind kind) :
    (Name.ofText (Layout.fileName name)).text = Layout.fileName name := by
  obtain ⟨hmem, rfl⟩ := exists_mem_of_ofKind hs
  obtain ⟨_, hlocate, _⟩ := find_eq_ok.1 (h.file _ _ _ hs)
  have husable := (Path.usable_child.1 (Text.unusable?_eq_none.1 (locate_eq_ok.1 hlocate).1.1)).2
  exact Name.text_ofText (Text.plain_append.2 ⟨(h.plain s hmem).1, by decide⟩)
    fun hnull => (husable _ hnull).2 rfl

/-- What stands in the folder of a kind is its statements under their names. -/
theorem standsOn_iff (h : Holds d root split) {name body : Text} :
    (∃ file, (IsListed d (root.child kind.folder) file.path ∧ StandsOn d file) ∧
      (file.name, file.body) = (name, body)) ↔
        ∃ e ∈ split.ofKind kind, (e.1, stored e.2) = (name, body) := by
  constructor
  · rintro ⟨file, ⟨⟨hsuffix, _, hnames, base, hbase, hpath⟩, data, hdata, hname, hbody, _⟩, heq⟩
    rw [hpath] at hsuffix hdata hname
    have hfind := Disk.read_eq_ok.1 hdata
    obtain ⟨other, s, hsame, hs⟩ := h.statement kind base data (onward_of_suffix hsuffix) hfind
    obtain ⟨_, _, _, rfl⟩ := Disk.list_eq_ok.1 hnames
    obtain ⟨_, _, rfl⟩ := List.mem_map.1 hbase
    rw [Name.ofText_text] at hsame
    rw [hsame, h.text_fileName hs] at hname hfind
    refine ⟨(other, s), hs, ?_⟩
    rw [stem_fileName (h.usable hs).ne_nil] at hname
    cases hfind.symm.trans (h.file kind other s hs)
    rw [Utf8.decode_encode (h.plain s (exists_mem_of_ofKind hs).1).2] at hbody
    rw [← heq, hname, Except.ok.inj hbody]
  · rintro ⟨⟨other, s⟩, hs, heq⟩
    have husable := h.usable hs
    have hfind := h.file kind other s hs
    obtain ⟨target, htarget, hthere⟩ := find_eq_ok.1 hfind
    obtain ⟨place, hplace, hfolder⟩ := find_eq_ok.1 (h.folders _ (folder_mem_initialFolders kind))
    obtain ⟨_, hstep⟩ := eq_stepTo_of_locate_child hplace htarget
    rw [stepTo, if_neg (fileName_onward other)] at hstep
    have hmem : Name.ofText (Layout.fileName other) ∈ d.tree.names place :=
      Tree.mem_names.2 (by rw [← hstep, hthere]; simp)
    have hmem := List.mem_map_of_mem (f := Name.text) hmem
    rw [h.text_fileName hs] at hmem
    refine ⟨⟨objectPath root kind other, other, stored s, Md5.hexDigest (Utf8.encode (stored s))⟩,
      ⟨⟨suffix_fileName husable.ne_nil _, _, Disk.list_eq_ok.2 ⟨place, hplace, hfolder, rfl⟩,
        _, hmem,
        rfl⟩, _, Disk.read_eq_ok.2 hfind, (stem_fileName husable.ne_nil _).symm,
        Utf8.decode_encode (h.plain s (exists_mem_of_ofKind hs).1).2, rfl⟩, heq⟩

end Holds

end Artifact

namespace Script

open Disk Artifact

variable {d : Disk} {root : Path} {kind : ObjectKind}

/-! ## The fragments of a kind -/

/-- The stages that run the objects of a kind. -/
def stagesOf : ObjectKind → List Stage
  | .function => [.functionsUnchecked, .functionsChecked]
  | .trigger => [.triggersUnchecked, .triggersChecked]
  | .view => [.views]

namespace Contents

theorem filter_fragments (c : Contents) {stage : Stage} (h : stage ∈ stagesOf kind) :
    ∃ records, c.fragments.filter (·.stage = stage) = c.pass kind records stage := by
  have hfilter := filter_stage stage c.stage_of_mem_parts
  cases kind with
  | function =>
    simp only [stagesOf, List.mem_cons, List.not_mem_nil, or_false] at h
    rcases h with rfl | rfl
    · exact ⟨false, hfilter.trans (List.append_nil _)⟩
    · exact ⟨true, hfilter.trans (List.append_nil _)⟩
  | trigger =>
    simp only [stagesOf, List.mem_cons, List.not_mem_nil, or_false] at h
    rcases h with rfl | rfl
    · exact ⟨false, hfilter.trans (List.append_nil _)⟩
    · exact ⟨true, hfilter.trans (List.append_nil _)⟩
  | view =>
    obtain rfl := List.mem_singleton.1 h
    exact ⟨true, hfilter.trans (List.append_nil _)⟩

/-- The fragments of a kind run the statements of that kind. -/
theorem perm_of_holds {c : Contents} (hc : c.OfTree d root) {split : Dump.Split}
    (h : Holds d root split) {stage : Stage} (hstage : stage ∈ stagesOf kind) :
    ((c.fragments.filter (·.stage = stage)).map fun f => (f.source, f.body)).Perm
      ((split.ofKind kind).map fun e =>
        (some (sourceOf kind.folder e.1), .plain (stored e.2))) := by
  have hobjects : ((c.objects kind).map fun file => (file.name, file.body)).Perm
      ((split.ofKind kind).map fun e => (e.1, stored e.2)) := by
    refine (List.perm_ext_iff_of_nodup (.of_map Prod.fst ?_) (.of_map Prod.fst ?_)).2 ?_
    · rw [List.map_map]
      exact c.objects_nodup kind
    · rw [List.map_map]
      exact Dump.Split.names_ofKind_nodup
    · rintro ⟨name, body⟩
      simp only [List.mem_map, hc.objects kind]
      exact h.standsOn_iff
  obtain ⟨records, hpass⟩ := c.filter_fragments hstage
  have hmap := hobjects.map fun x => (some (sourceOf kind.folder x.1), Sql.Command.plain x.2)
  rw [List.map_map, List.map_map] at hmap
  rw [hpass, pass, List.map_map]
  exact hmap

end Contents

/-! ## Runs -/

/-- A tree that was made from a dump where nothing was has a script if its paths are
short enough, and that runs the statements of the dump. -/
theorem scripts_of_createTree {w w' : World} {dump : Text} {noise : List Text} {paths : List Path}
    (hshort : ShortNamed w.disk) (h : (createTree root (some dump) noise).runIn w = (.ok paths, w'))
    (hfresh : ∀ top, w'.disk.locate root = .ok top → w.disk.tree.at? top = none) :
    ((∃ s, assemble w'.disk root = .ok s) ↔ Fits w'.disk root) ∧
      ∃ split, Dump.split dump noise = .ok split ∧
        ∀ s, assemble w'.disk root = .ok s → ∀ kind, ∀ stage ∈ stagesOf kind,
          ((s.fragments.filter (·.stage = stage)).map fun f => (f.source, f.body)).Perm
            ((split.ofKind kind).map fun e =>
              (some (sourceOf kind.folder e.1), .plain (stored e.2))) := by
  obtain ⟨split, hsplit, hholds⟩ := holds_of_createTree h hfresh
  refine ⟨?_, split, hsplit, fun s hs kind stage hstage => ?_⟩
  · have htidy := tidy_createTree root (some dump) noise w hshort.tidy
    rw [h] at htidy
    exact (Contents.exists_scripts_iff_fits htidy hholds.isFolder fun top htop =>
      vacant_of_absent (hfresh top htop)).1
  · obtain ⟨c, hc, rfl⟩ := Contents.exists_of_assemble hs
    exact Contents.perm_of_holds hc.ofTree hholds hstage

/-- After any requests, failed ones included, a tree whose files are all the
program's can be compiled exactly when the paths in it are short enough; an accepted name is
the name of its file; and a tree that was made from a dump where nothing was is compiled into
the statements of the dump. -/
theorem exists_scripts_of_run {w : World} (hshort : ShortNamed w.disk) (requests : List Request) :
    (∀ root, (Request.run w requests).disk.isFolder root = .ok true →
      (∀ top, (Request.run w requests).disk.locate root = .ok top → Vacant w.disk.tree top) →
      ((∃ s, assemble (Request.run w requests).disk root = .ok s) ↔
        Fits (Request.run w requests).disk root) ∧
      ((∃ s, assembleRecording (Request.run w requests).disk root = .ok s) ↔
        Fits (Request.run w requests).disk root)) ∧
    (∀ root kindName name force path w',
      (createObject root kindName name force).runIn (Request.run w requests) = (.ok path, w') →
        nameOf path = .ok name) ∧
    (∀ split root, checkNames split = .ok () → ∀ s ∈ split.statements,
      nameOf (pathOf root s) = .ok s.name) ∧
    (∀ root dump noise paths w',
      (createTree root (some dump) noise).runIn (Request.run w requests) = (.ok paths, w') →
      (∀ top, w'.disk.locate root = .ok top →
        (Request.run w requests).disk.tree.at? top = none) →
      ((∃ s, assemble w'.disk root = .ok s) ↔ Fits w'.disk root) ∧
      ∃ split, Dump.split dump noise = .ok split ∧
        ∀ s, assemble w'.disk root = .ok s → ∀ kind, ∀ stage ∈ stagesOf kind,
          ((s.fragments.filter (·.stage = stage)).map fun f => (f.source, f.body)).Perm
            ((split.ofKind kind).map fun e =>
              (some (sourceOf kind.folder e.1), .plain (stored e.2)))) := by
  have hafter := (Request.tidy_run hshort.tidy requests).shortNamed
  refine ⟨fun root hroot hvacant => ?_, fun root kindName name force path w' hcreate => ?_,
    fun split root hnames s hs => ?_, fun root dump noise paths w' hcreate hfresh => ?_⟩
  · exact Contents.exists_scripts_iff_fits (Request.tidy_run hshort.tidy requests) hroot hvacant
  · obtain ⟨hstorable, kind, rfl⟩ := createObject_ok hcreate
    exact nameOf_fileName (recordable_of_isStorable hstorable) _
  · exact nameOf_fileName (recordable_of_isStorable (isStorable_of_checkNames hnames hs)) _
  · exact scripts_of_createTree hafter hcreate hfresh

/-! ## One tree -/

def emptyWorld : World :=
  { disk := ⟨Tree.empty, []⟩ }

theorem shortNamed_emptyWorld : ShortNamed emptyWorld.disk := by
  refine ⟨nofun, fun place entry hentry => ?_⟩
  cases place with
  | nil => exact nofun
  | cons name above => cases hentry

def viewRoot : Path := ⟨.relative, [[.char 'a']]⟩

def viewDump : Text := "CREATE VIEW v AS SELECT 1;\n".text

/-- A seed that cannot be made, because its tree is not there, and then the tree. -/
theorem exists_scripts_of_run_view :
    ((createSeed viewRoot).runIn emptyWorld).1 = .error (.failure (.file (.missingRoot viewRoot))) ∧
      ∃ s, assemble ((createTree viewRoot (some viewDump) []).runIn
          (Request.run emptyWorld [.seed viewRoot])).2.disk viewRoot = .ok s ∧
        (s.fragments.filter (·.stage = .views)).map (fun f => (f.source, f.body)) =
          [(some "views/v".text, .plain "CREATE OR REPLACE VIEW v AS SELECT 1;\n".text)] := by
  have hok : ((createTree viewRoot (some viewDump) []).runIn
      (Request.run emptyWorld [.seed viewRoot])).1 =
      .ok [objectPath viewRoot .view [.char 'v'], bootstrapPath viewRoot] := by
    decide +kernel
  have hplace : ((createTree viewRoot (some viewDump) []).runIn
      (Request.run emptyWorld [.seed viewRoot])).2.disk.locate viewRoot = .ok ["a".name] := by
    decide +kernel
  have hfits : Fits ((createTree viewRoot (some viewDump) []).runIn
      (Request.run emptyWorld [.seed viewRoot])).2.disk viewRoot := by
    decide +kernel
  have hsplit : Dump.split viewDump [] =
      .ok ⟨[⟨.view, [.char 'v'], "CREATE OR REPLACE VIEW v AS SELECT 1;\n".text, 1⟩], []⟩ := by
    decide +kernel
  obtain ⟨_, _, _, hfresh⟩ := exists_scripts_of_run shortNamed_emptyWorld [.seed viewRoot]
  obtain ⟨hassemble, split, hsame, hfragments⟩ := hfresh viewRoot viewDump [] _ _
    (Act.runIn_eq_of_fst hok) fun top htop => by
      obtain rfl := Except.ok.inj (hplace.symm.trans htop)
      decide +kernel
  obtain ⟨s, hs⟩ := hassemble.2 hfits
  obtain rfl := Except.ok.inj (hsplit.symm.trans hsame)
  have hperm := hfragments s hs .view .views (by decide)
  exact ⟨by decide +kernel, s, hs, List.perm_singleton.1 hperm⟩

/-- The working folder of `viewRoot`, at the end of a path that is nearly too long. -/
def longWay : Path :=
  ⟨.relative, [.char 'a'] :: (List.replicate 818 [[.char '.', .char '.'], [.char 'a']]).flatten⟩

/-- The path leads to a tree that the program made, and no path in it can be looked at. -/
theorem not_assemble_longWay :
    (Request.run emptyWorld [.tree viewRoot none []]).disk.isFolder longWay = .ok true ∧
      ¬ ∃ s, assemble (Request.run emptyWorld [.tree viewRoot none []]).disk longWay = .ok s := by
  refine ⟨by decide +kernel, fun hs => ?_⟩
  obtain ⟨c, hc⟩ := Contents.exists_assemble_iff.1 hs
  have hlong : ¬ Fits (Request.run emptyWorld [.tree viewRoot none []]).disk longWay := by
      decide +kernel
  exact hlong hc.fits

end Script
end SchemaLedger
