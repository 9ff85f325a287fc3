import SchemaLedger.Proofs.Artifact.Name
import SchemaLedger.Proofs.Artifact.NewTree

/-!
# Tidy disks

On a tidy disk everything but the folders is as it was or a file of the program:
it has a name that it can be recorded under and holds a text.  Every request of
the program keeps a disk tidy, however it ends: folders are made with names that
the file system takes, files are written under accepted names only, and removing
leaves no more than was there.
-/

namespace SchemaLedger

namespace Tree

variable {t : Tree} {place other : Location} {entry : Entry}

theorem at?_of_removeWhere {gone : Location → Bool}
    {down : ∀ name place, gone place = true → gone (name :: place) = true}
    (h : (t.removeWhere gone down).at? place = some entry) : t.at? place = some entry := by
  by_cases hnil : place = []
  · subst hnil
    exact h
  · rw [at?_removeWhere hnil] at h
    split at h
    · cases h
    · exact h

theorem at?_of_clear (h : (t.clear other).at? place = some entry) : t.at? place = some entry :=
  at?_of_removeWhere h

theorem at?_of_remove (h : (t.remove other).at? place = some entry) : t.at? place = some entry :=
  at?_of_removeWhere h

end Tree

namespace Disk

variable {d e : Disk} {p : Path} {place : Location}

def ShortPlace (place : Location) : Prop :=
  ∀ name ∈ place, name.bytes.length ≤ nameLimit

theorem shortName_text {name : Name} (h : name.bytes.length ≤ nameLimit) : ShortName name.text := by
  rwa [ShortName, Name.text, Utf8.encode_readName]

theorem shortPlace_of_walk {t : Tree} {start : Location} {names : List Text}
    (hstart : ShortPlace start) (h : walk t start names = .ok place) : ShortPlace place := by
  induction names using List.reverseRecOn generalizing place with
  | nil =>
    cases h
    exact hstart
  | append_singleton names name ih =>
    obtain ⟨above, habove, _, hshort, rfl⟩ := walk_concat.1 h
    have hplace := ih habove
    unfold stepTo
    split
    · exact fun n hn => hplace n (List.mem_of_mem_tail hn)
    · exact List.forall_mem_cons.2 ⟨(List.length_filter_le _ _).trans hshort, hplace⟩

theorem shortPlace_of_locate (hworking : ShortPlace d.working) (h : d.locate p = .ok place) :
    ShortPlace place := by
  refine shortPlace_of_walk ?_ (locate_eq_ok.1 h).2
  unfold start
  cases p.anchor with
  | relative => exact hworking
  | top => exact nofun
  | secondTop => exact nofun

/-- What is there after removing was there before. -/
theorem at?_of_removeAll {entry : Entry} (h : (d.removeAll p).tree.at? place = some entry) :
    d.tree.at? place = some entry := by
  unfold removeAll at h
  split at h
  · exact h
  · split at h
    · simp only at h
      split at h
      · exact Tree.at?_of_clear h
      · split at h
        · split at h
          · exact Tree.at?_of_clear (Tree.at?_of_remove h)
          · exact Tree.at?_of_clear h
        · exact Tree.at?_of_clear h
    · exact h

theorem working_of_removeAll : (d.removeAll p).working = d.working := by
  unfold removeAll
  split
  · rfl
  · split
    · simp only
      split
      · rfl
      · split
        · split <;> rfl
        · rfl
    · rfl

end Disk

namespace Act

variable {α β : Type} {P : Disk → Prop} {act : Act α} {next : α → Act β}

/-- However the run ends, the disk satisfies `P` if it did before. -/
def Preserves (P : Disk → Prop) (act : Act α) : Prop :=
  ∀ w, P w.disk → P (act.runIn w).2.disk

theorem preserves_pure (a : α) : Preserves P (pure a) := fun _ h => h

theorem preserves_look (f : Disk → Except Error α) : Preserves P (look f) := fun _ h => h

theorem preserves_fail (f : Failure) : Preserves P (fail f : Act α) := fun _ h => h

theorem preserves_bind (hact : Preserves P act) (hnext : ∀ a, Preserves P (next a)) :
    Preserves P (act >>= next) := by
  intro w h
  have hmiddle := hact w h
  rw [runIn_bind]
  rcases hrun : act.runIn w with ⟨e | a, middle⟩
  · rwa [hrun] at hmiddle
  · rw [hrun] at hmiddle
    exact hnext a middle hmiddle

/-- What was seen on the disk may be relied on. -/
theorem preserves_look_bind {f : Disk → Except Error α}
    (hnext : ∀ d a, f d = .ok a → Preserves P (next a)) : Preserves P (look f >>= next) := by
  intro w h
  rw [runIn_bind, runIn_look]
  cases hlook : f w.disk with
  | error e => exact h
  | ok a => exact hnext w.disk a hlook w h

theorem preserves_change {f : Disk → Except PathFault Unit × Disk}
    (report : SystemFault → Failure) (hf : ∀ d, P d → P (f d).2) :
    Preserves P (change f report) := by
  intro w h
  rw [disk_of_change (runIn_eq_of_fst rfl)]
  exact hf w.disk h

theorem preserves_onFailure {f : Disk → Disk} (hact : Preserves P act) (hf : ∀ d, P d → P (f d)) :
    Preserves P (act.onFailure (changeAnyway f)) := by
  intro w h
  have hmiddle := hact w h
  rw [runIn_onFailure]
  rcases hrun : act.runIn w with ⟨(e | e) | a, middle⟩
  · rw [hrun] at hmiddle
    exact hf _ hmiddle
  · rwa [hrun] at hmiddle
  · rwa [hrun] at hmiddle

end Act

namespace Artifact

open Disk

variable {old : Tree} {d e : Disk} {root : Path}

/-- What may be at a place of a tidy disk. -/
structure Proper (old : Tree) (place : Location) (entry : Entry) : Prop where
  short : ShortPlace place
  own : entry ≠ .folder → old.at? place = some entry ∨ ∃ stem above content,
    place = .ofText (Layout.fileName stem) :: above ∧ Recordable stem ∧ stem.Usable ∧
      entry = .file (Utf8.encode content) ∧ content.Plain

/-- Everything that is not as it was could be the program's. -/
structure Tidy (old : Tree) (d : Disk) : Prop where
  working : ShortPlace d.working
  proper : ∀ place entry, d.tree.at? place = some entry → Proper old place entry

/-- Every name on the disk is one that the file system takes. -/
structure ShortNamed (d : Disk) : Prop where
  working : ShortPlace d.working
  places : ∀ place entry, d.tree.at? place = some entry → ShortPlace place

/-- To begin with, everything is as it was. -/
theorem ShortNamed.tidy (h : ShortNamed d) : Tidy d.tree d :=
  ⟨h.working, fun place entry hentry => ⟨h.places place entry hentry, fun _ => .inl hentry⟩⟩

namespace Tidy

theorem shortNamed (h : Tidy old d) : ShortNamed d :=
  ⟨h.working, fun place entry hentry => (h.proper place entry hentry).short⟩

/-- The program seals nothing. -/
theorem at?_sealed (h : Tidy old d) {place : Location} (hsealed : d.tree.at? place = some .sealed) :
    old.at? place = some .sealed := by
  rcases (h.proper place .sealed hsealed).own nofun with hold | ⟨_, _, _, _, _, _, hfile, _⟩
  · exact hold
  · cases hfile

theorem grows {new : Location × Entry → Prop} (h : Tidy old d) (hgrows : d.Grows e new)
    (hnew : ∀ x, new x → Proper old x.1 x.2) : Tidy old e := by
  refine ⟨hgrows.working ▸ h.working, fun place entry hentry => ?_⟩
  rcases hgrows.tree.eq_or_new hentry with hold | ⟨_, hx⟩
  · exact h.proper place entry hold
  · exact hnew _ hx

theorem proper_folder (hworking : ShortPlace d.working) {p : Path} {x : Location × Entry}
    (hfolder : x.2 = .folder) (hlead : d.LeadsThrough p x.1) : Proper old x.1 x.2 := by
  obtain ⟨names, _, hlocate⟩ := hlead
  exact ⟨shortPlace_of_locate hworking hlocate, fun hother => absurd hfolder hother⟩

theorem ensureFolders (h : Tidy old d) (p : Path) : Tidy old (d.ensureFolders p).2 := by
  obtain ⟨hgrows, _⟩ := ensureFolders_grows (d := d) (p := p) rfl
  have hworking := h.working
  rw [← hgrows.working] at hworking
  exact h.grows hgrows fun x hx => proper_folder hworking hx.1 hx.2

theorem makeFolders (h : Tidy old d) (root : Path) (folders : List Text) :
    Tidy old (Artifact.makeFolders root folders d).2 := by
  have hmake : Artifact.makeFolders root folders d =
      ((Artifact.makeFolders root folders d).1, (Artifact.makeFolders root folders d).2) := rfl
  obtain ⟨hgrows, _⟩ := makeFolders_grows hmake
  have hworking := h.working
  rw [← hgrows.working] at hworking
  refine h.grows hgrows fun x hx => ?_
  obtain ⟨hfolder, _, _, hlead⟩ := hx
  exact proper_folder hworking hfolder hlead

theorem write (h : Tidy old d) {p : Path} {stem content : Text} (hstem : Recordable stem)
    (hcontent : content.Plain)
    (hwrite : d.write (p.child (Layout.fileName stem)) (Utf8.encode content) = .ok e) :
    Tidy old e := by
  obtain ⟨_, _, hplace, _, hworking⟩ := locate_of_write hwrite
  have hshort := shortPlace_of_locate h.working hplace
  obtain ⟨hself, hother⟩ := at?_of_write hwrite hplace
  obtain ⟨⟨husable, _⟩, hwalk⟩ := locate_eq_ok.1 hplace
  have hfile := (Path.usable_child.1 (Text.unusable?_eq_none.1 husable)).2
  obtain ⟨above, _, _, _, hlast⟩ := walk_concat.1 hwalk
  rw [stepTo, if_neg (fileName_onward stem)] at hlast
  rw [hlast] at hself hother hshort
  refine ⟨hworking ▸ h.working, fun place entry hentry => ?_⟩
  by_cases heq : place = .ofText (Layout.fileName stem) :: above
  · subst heq
    obtain rfl := Option.some.inj (hself.symm.trans hentry)
    exact ⟨hshort, fun _ => .inr ⟨stem, above, content, rfl, hstem,
      (Text.usable_append.1 hfile).1, rfl, hcontent⟩⟩
  · rw [hother place heq] at hentry
    exact h.proper place entry hentry

theorem removeAll (h : Tidy old d) (p : Path) : Tidy old (d.removeAll p) := by
  refine ⟨?_, fun place entry hentry => h.proper place entry (at?_of_removeAll hentry)⟩
  rw [working_of_removeAll]
  exact h.working

end Tidy

/-! ## Parts of the program -/

theorem tidy_writeText {p : Path} {stem : Text} (hstem : Recordable stem) (content : Text) :
    (writeText (p.child (Layout.fileName stem)) content).Preserves (Tidy old) := by
  unfold writeText
  refine Act.preserves_bind ?_ fun _ => ?_
  · exact Act.preserves_change _ fun d h => h.ensureFolders _
  · intro w h
    have hran := contentRun_writeContent (p.child (Layout.fileName stem)) content w
    generalize (writeContent (p.child (Layout.fileName stem)) content).runIn w = ended at hran ⊢
    obtain ⟨r, w'⟩ := ended
    cases hran with
    | written hplain hwrite => exact h.write hstem hplain hwrite
    | failed _ => exact h
    | emptied _ hwrite => exact h.write hstem Text.plain_nil hwrite

theorem tidy_createObject (root : Path) (kindName name : Text) (force : Bool) :
    (createObject root kindName name force).Preserves (Tidy old) := by
  unfold createObject
  refine Act.preserves_bind (Act.preserves_look _) fun _ => ?_
  split
  · exact Act.preserves_fail _
  · next kind _ =>
    split
    · exact Act.preserves_fail _
    · next hname =>
      have husable : Recordable name := recordable_of_isStorable (by simpa using hname)
      refine Act.preserves_bind (Act.preserves_look _) fun present => ?_
      split
      · exact Act.preserves_fail _
      · exact Act.preserves_bind (tidy_writeText husable _) fun _ => Act.preserves_pure _

theorem tidy_createNumbered (root : Path) (folder : Text) :
    (createNumbered root folder).Preserves (Tidy old) := by
  unfold createNumbered
  refine Act.preserves_bind (Act.preserves_look _) fun _ => ?_
  refine Act.preserves_look_bind fun d name hname => ?_
  obtain ⟨stem, hstem, rfl⟩ := exists_number_of_nextName hname
  exact Act.preserves_bind (tidy_writeText hstem _) fun _ => Act.preserves_pure _

theorem tidy_writeStatements {statements : List Dump.Statement}
    (h : ∀ s ∈ statements, isStorable s.name = true) (done : Written) :
    (writeStatements root done statements).Preserves (Tidy old) := by
  induction statements generalizing done with
  | nil => exact Act.preserves_pure _
  | cons s rest ih =>
    intro w hw
    rw [runIn_writeStatements_cons]
    have husable := recordable_of_isStorable (h s List.mem_cons_self)
    have hfirst : (writeText (objectPath root s.kind s.name) (stored s)).Preserves (Tidy old) :=
      tidy_writeText husable (stored s)
    have hrest := ih fun t ht => h t (List.mem_cons_of_mem _ ht)
    exact Act.preserves_bind hfirst (fun _ => hrest _) _ hw

theorem tidy_writeDump (split : Dump.Split) (root : Path) :
    (writeDump split root).Preserves (Tidy old) := by
  unfold writeDump
  refine Act.preserves_look_bind fun d _ hnames => ?_
  refine Act.preserves_bind
    (tidy_writeStatements (fun s hs => isStorable_of_checkNames hnames hs) _) fun written => ?_
  exact Act.preserves_bind (tidy_writeText recordable_bootstrap _) fun _ => Act.preserves_pure _

theorem tidy_createTree (root : Path) (dump : Option Text) (noise : List Text) :
    (createTree root dump noise).Preserves (Tidy old) := by
  rw [createTree_eq]
  have hundo : ∀ d, Tidy old d → Tidy old (d.removeAll root) := fun d h => h.removeAll root
  refine Act.preserves_bind (Act.preserves_look _) fun present => ?_
  split
  · exact Act.preserves_fail _
  · refine Act.preserves_bind (Act.preserves_look _) fun split => ?_
    refine Act.preserves_bind (Act.preserves_onFailure ?_ hundo) fun _ => ?_
    · exact Act.preserves_change _ fun d h => h.makeFolders root _
    · cases split with
      | none => exact Act.preserves_pure _
      | some split => exact Act.preserves_onFailure (tidy_writeDump split root) hundo

/-! ## Runs -/

/-- A call that changes a tree. -/
inductive Request
  | tree (root : Path) (dump : Option Text) (noise : List Text)
  | object (root : Path) (kindName name : Text) (force : Bool)
  | migration (root : Path)
  | seed (root : Path)

namespace Request

/-- The world behind a request, whether it ended well or failed. -/
def after (w : World) : Request → World
  | tree root dump noise => ((createTree root dump noise).runIn w).2
  | object root kindName name force => ((createObject root kindName name force).runIn w).2
  | migration root => ((createMigration root).runIn w).2
  | seed root => ((createSeed root).runIn w).2

def run (w : World) (requests : List Request) : World :=
  requests.foldl after w

theorem tidy_after {w : World} (h : Tidy old w.disk) (request : Request) :
    Tidy old (request.after w).disk := by
  cases request with
  | tree root dump noise => exact tidy_createTree root dump noise w h
  | object root kindName name force => exact tidy_createObject root kindName name force w h
  | migration root => exact tidy_createNumbered root _ w h
  | seed root => exact tidy_createNumbered root _ w h

theorem tidy_run {w : World} (h : Tidy old w.disk) (requests : List Request) :
    Tidy old (run w requests).disk := by
  induction requests generalizing w with
  | nil => exact h
  | cons request rest ih => exact ih (tidy_after h request)

end Request

end Artifact
end SchemaLedger
