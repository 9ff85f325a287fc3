import SchemaLedger.Proofs.Tree.Change

/-!
# Routes

A path may name folders that are not there yet.  While none of the names behind
the last folder that is there leads up, the place of the path is fixed before
any of them is made; a step up behind a missing folder leads to a place that
depends on what is made on the way.
-/

namespace SchemaLedger
namespace Disk

variable {d e : Disk} {p : Path} {target : Location} {entry : Entry}

theorem find?_eq_ok_none : d.find? p = .ok none ↔
    (∃ reason, d.find p = .error (.unusable reason)) ∨
      ∃ fault, d.find p = .error (.refused fault) ∧
        (fault.refusal = .noEntry ∨ fault.refusal = .notFolder) := by
  unfold find?
  split
  · simp_all
  · simp_all
  · split <;> simp_all

theorem isPresent_eq_false : d.isPresent p = .ok false ↔ d.find? p = .ok none := by
  unfold isPresent
  rw [Outcome.map_eq_ok]
  constructor
  · rintro ⟨found, hfound, h⟩
    cases found with
    | none => exact hfound
    | some entry => cases h
  · exact fun h => ⟨none, h, rfl⟩

theorem not_find_of_absent (h : d.isPresent p = .ok false) : d.find p ≠ .ok entry := by
  intro hfind
  rw [isPresent_eq_false, find?_eq_ok_some.2 hfind] at h
  cases h

/-- A path that is short enough to be looked at.  The length of a path that is
none does not matter. -/
def ShortPath (p : Path) : Prop :=
  p.text.unusable? = none → (Utf8.encode p.text).length ≤ pathLimit

instance (p : Path) : Decidable (ShortPath p) :=
  inferInstanceAs (Decidable (_ → _))

theorem takenPath_iff : TakenPath p ↔ p.text.unusable? = none ∧ ShortPath p :=
  ⟨fun h => ⟨h.1, fun _ => h.2⟩, fun h => ⟨h.1, h.2 h.1⟩⟩

theorem shortPath_of_find? {found : Option Entry} (h : d.find? p = .ok found) : ShortPath p := by
  intro husable
  by_contra hlong
  have hlocate : d.locate p = .error (refused p .nameTooLong) := by
    rw [locate, husable]
    exact if_pos (Nat.not_le.1 hlong)
  have hfind : d.find p = .error (refused p .nameTooLong) := by
    rw [find, hlocate]
    rfl
  rw [find?, hfind] at h
  cases h

theorem shortPath_of_isFolder {isFolder : Bool} (h : d.isFolder p = .ok isFolder) :
    ShortPath p := by
  obtain ⟨_, hfound, _⟩ := Outcome.map_eq_ok.1 h
  exact shortPath_of_find? hfound

theorem shortPath_of_isFile {isFile : Bool} (h : d.isFile p = .ok isFile) : ShortPath p := by
  obtain ⟨_, hfound, _⟩ := Outcome.map_eq_ok.1 h
  exact shortPath_of_find? hfound

theorem short_of_absent (h : d.isPresent p = .ok false) : ShortPath p := by
  obtain ⟨_, hfound, _⟩ := Outcome.map_eq_ok.1 h
  exact shortPath_of_find? hfound

/-- The way of a path: `found` leads to a folder that is there, and none of the
names behind it leads up. -/
structure Route (d : Disk) (p : Path) where
  found : List Text
  behind : List Text
  base : Location
  names : p.names = found ++ behind
  leads : walk d.tree (d.start p) found = .ok base
  isFolder : d.tree.at? base = some .folder
  ahead : [.char '.', .char '.'] ∉ behind

namespace Route

/-- A path that never leads up has a route. -/
def ofOnward (hstart : d.tree.at? (d.start p) = some .folder)
    (h : [.char '.', .char '.'] ∉ p.names) : d.Route p :=
  ⟨[], p.names, d.start p, rfl, rfl, hstart, h⟩

variable (r : d.Route p)

/-- Where the path leads once all its folders are there. -/
def place : Location :=
  onward r.base r.behind

/-- Places between the folder that is there and the place of the path. -/
def Above (other : Location) : Prop :=
  ∃ front, front <+: r.behind ∧ front ≠ r.behind ∧ other = onward r.base front

theorem not_inside_of_above {other : Location} (h : r.Above other) : ¬ r.place <:+ other := by
  intro hinside
  obtain ⟨front, hfront, hne, rfl⟩ := h
  have hlen := hinside.length_le
  have hshorter : front.length < r.behind.length := by
    refine Nat.lt_of_le_of_ne hfront.length_le fun heq => hne ?_
    exact hfront.eq_of_length heq
  rw [place, length_onward, length_onward] at hlen
  omega

theorem locate_eq_ok (hkeeps : d.Keeps e) :
    e.locate p = .ok target ↔ TakenPath p ∧ walk e.tree r.base r.behind = .ok target := by
  rw [Disk.locate_eq_ok, hkeeps.start, r.names, walk_append, hkeeps.walk r.leads]
  rfl

/-- Whatever is made, the path can lead to one place only. -/
theorem eq_place_of_locate (hkeeps : d.Keeps e) (h : e.locate p = .ok target) :
    target = r.place :=
  ((walk_onward r.ahead).1 ((r.locate_eq_ok hkeeps).1 h).2).1

/-- A path that leads somewhere leads there already when something is there. -/
theorem locate_of_at? (hkeeps : d.Keeps e) (hlocate : e.locate p = .ok target)
    (hplace : d.tree.at? r.place = some entry) : d.locate p = .ok r.place := by
  obtain ⟨htaken, hwalk⟩ := (r.locate_eq_ok hkeeps).1 hlocate
  obtain ⟨_, hnames, _⟩ := (walk_onward r.ahead).1 hwalk
  have hfolders : ∀ front, front <+: r.behind → front ≠ r.behind →
      d.tree.at? (onward r.base front) = some .folder := by
    intro front hfront hne
    obtain ⟨more, hmore⟩ := hfront
    have hsuffix : onward r.base front <:+ r.place := by
      rw [place, ← hmore, onward_append]
      exact onward_suffix _ _
    have habove : r.Above (onward r.base front) := ⟨front, ⟨more, hmore⟩, hne, rfl⟩
    refine Tree.folder_of_suffix hsuffix (fun heq => ?_) hplace
    exact r.not_inside_of_above habove (heq ▸ List.suffix_refl _)
  exact (r.locate_eq_ok (.refl d)).2 ⟨htaken, (walk_onward r.ahead).2 ⟨rfl, hnames, hfolders⟩⟩

/-- What a path led to before, it leads to again. -/
theorem at?_place_of_absent (hkeeps : d.Keeps e) (hlocate : e.locate p = .ok target)
    (habsent : d.isPresent p = .ok false) : d.tree.at? r.place = none := by
  cases hplace : d.tree.at? r.place with
  | none => rfl
  | some entry =>
    have hfind : d.find p = .ok entry :=
      find_eq_ok.2 ⟨_, r.locate_of_at? hkeeps hlocate hplace, hplace⟩
    exact absurd hfind (not_find_of_absent habsent)

/-- On the way to the folder that is there nothing is new. -/
theorem at?_of_found {names : List Text} {other : Location} (hkeeps : d.Keeps e)
    (hfound : names <+: r.found) (hwalk : walk e.tree (d.start p) names = .ok other) :
    d.tree.at? other ≠ none := by
  intro hnew
  obtain ⟨more, hmore⟩ := hfound
  have hleads := r.leads
  rw [← hmore, walk_append] at hleads
  obtain ⟨middle, hmiddle, hrest⟩ := Outcome.bind_eq_ok.1 hleads
  have hsame : other = middle := Except.ok.inj (hwalk.symm.trans (hkeeps.walk hmiddle))
  subst hsame
  cases more with
  | nil =>
    cases hrest
    rw [r.isFolder] at hnew
    cases hnew
  | cons next more =>
    rw [walk, hnew] at hrest
    cases hrest

/-- A new place on the way of a path into a folder is above the folder or
inside it, and then the folder is reached. -/
theorem of_leadsThrough {name : Text} {other : Location} (hkeeps : d.Keeps e)
    (hname : name ≠ [.char '.', .char '.']) (htaken : TakenPath p)
    (hlead : e.LeadsThrough (p.child name) other) (hnew : d.tree.at? other = none) :
    r.Above other ∨ r.place <:+ other ∧ e.locate p = .ok r.place := by
  obtain ⟨names, hpre, hlocate⟩ := hlead
  have hwalk : walk e.tree (d.start p) names = .ok other := by
    have hstart : e.start ⟨p.anchor, names⟩ = d.start p := hkeeps.start _
    rw [← hstart]
    exact (Disk.locate_eq_ok.1 hlocate).2
  have hall : names <+: r.found ++ (r.behind ++ [name]) := by
    have hnames : (p.child name).names = r.found ++ (r.behind ++ [name]) := by
      rw [Path.child, r.names, List.append_assoc]
    rwa [hnames] at hpre
  rcases List.prefix_or_prefix_of_prefix hall (List.prefix_append r.found _) with
    hfound | ⟨front, rfl⟩
  · exact absurd hnew (r.at?_of_found hkeeps hfound hwalk)
  · have hfront : front <+: r.behind ++ [name] := (List.prefix_append_right_inj _).1 hall
    rw [walk_append, hkeeps.walk r.leads] at hwalk
    replace hwalk : walk e.tree r.base front = .ok other := hwalk
    have honward : [.char '.', .char '.'] ∉ r.behind ++ [name] := by
      intro hmem
      rcases List.mem_append.1 hmem with hmem | hmem
      · exact r.ahead hmem
      · exact hname (List.mem_singleton.1 hmem).symm
    have hfrontOnward : [.char '.', .char '.'] ∉ front := fun hmem => honward (hfront.subset hmem)
    have hother := ((walk_onward hfrontOnward).1 hwalk).1
    by_cases hproper : front <+: r.behind ∧ front ≠ r.behind
    · exact .inl ⟨front, hproper.1, hproper.2, hother⟩
    · -- the names reach the end of the path, maybe with the name behind it
      obtain ⟨more, rfl⟩ : ∃ more, front = r.behind ++ more := by
        rcases List.prefix_concat_iff.1 hfront with heq | hfront
        · exact ⟨[name], heq⟩
        · refine ⟨[], ?_⟩
          rw [List.append_nil]
          by_contra hne
          exact hproper ⟨hfront, hne⟩
      refine .inr ⟨?_, (r.locate_eq_ok hkeeps).2 ⟨htaken, ?_⟩⟩
      · rw [hother, place, onward_append]
        exact onward_suffix _ _
      · rw [walk_append] at hwalk
        obtain ⟨middle, hmiddle, _⟩ := Outcome.bind_eq_ok.1 hwalk
        rw [hmiddle, ((walk_onward r.ahead).1 hmiddle).1]
        rfl

/-- Removing what the path leads to leaves of all that is new only the folders
above it. -/
theorem grows_removeAll (habsent : d.isPresent p = .ok false)
    (hgrows : d.Grows e fun x => x.2 = .folder ∧ r.Above x.1 ∨
      x.2 ≠ .sealed ∧ r.place <:+ x.1 ∧ e.find p = .ok .folder) :
    d.Grows (e.removeAll p) fun x => x.2 = .folder ∧ r.Above x.1 := by
  have hkeeps := hgrows.keeps
  by_cases hfind : e.find p = .ok .folder
  · obtain ⟨target, hlocate, hfolder⟩ := find_eq_ok.1 hfind
    obtain rfl := r.eq_place_of_locate hkeeps hlocate
    have hnone := r.at?_place_of_absent hkeeps hlocate habsent
    obtain ⟨htaken, hwalk⟩ := (r.locate_eq_ok hkeeps).1 hlocate
    obtain ⟨_, hnames, hfolders⟩ := (walk_onward r.ahead).1 hwalk
    have hbehind : r.behind ≠ [] := by
      intro hnil
      have hplace : r.place = r.base := by rw [place, hnil, onward_nil]
      rw [hplace, r.isFolder] at hnone
      cases hnone
    have hname : p.name ≠ [.char '.', .char '.'] := by
      intro hup
      have hlast : p.names.getLast? = r.behind.getLast? := by
        rw [r.names, List.getLast?_append_of_ne_nil _ hbehind]
      rw [Path.name, List.getLastD_eq_getLast?, hlast,
        List.getLast?_eq_getLast_of_ne_nil hbehind] at hup
      exact r.ahead (hup ▸ List.getLast_mem hbehind)
    have hne : p.names ≠ [] := by
      rw [r.names]
      simp [hbehind]
    have hcleared : d.Keeps { e with tree := e.tree.clear r.place } := by
      refine ⟨hkeeps.working, fun other entry hother hentry => ?_⟩
      have hout : ¬ r.place <:+ other := fun hinside => by
        rw [Tree.at?_eq_none_of_suffix hinside hnone] at hother
        cases hother
      rw [← hkeeps.folder other entry hother hentry]
      exact at?_clear_of_not_inside fun hinside => absurd hinside hout
    refine (hgrows.removeAll hnone ?_ hlocate hfolder hname hne ?_).mono ?_
    · rintro x - (⟨hx, _⟩ | ⟨hx, _⟩)
      · rw [hx]
        exact nofun
      · exact hx
    · refine (r.locate_eq_ok hcleared).2 ⟨htaken, (walk_onward r.ahead).2 ⟨rfl, hnames, ?_⟩⟩
      intro front hfront hlonger
      rw [← hfolders front hfront hlonger]
      refine at?_clear_of_not_inside fun hinside => ?_
      exact absurd hinside (r.not_inside_of_above ⟨front, hfront, hlonger, rfl⟩)
    · rintro x - ⟨hx | ⟨_, hinside, _⟩, hout⟩
      · exact hx
      · exact absurd hinside hout
  · rw [removeAll_of_absent hfind]
    refine hgrows.mono fun x _ hx => ?_
    rcases hx with hx | ⟨_, _, hfound⟩
    · exact hx
    · exact absurd hfound hfind

end Route

end Disk
end SchemaLedger
