import SchemaLedger.Proofs.Outcome
import SchemaLedger.Settings.Load

/-!
# Settings as they are given

Every setting has a default and one entry of the document that may stand over it.  Which
settings a document gives, what is misshapen in it and what of it counts at all is said
entry by entry, and what loading does is measured by that.

A tool, the part about dumps and the noise lines count as missing when they are null.  A
path, a command and arguments do not: the text of null is then the setting, and null is no
list.
-/

namespace SchemaLedger

namespace Yaml

/-- The entry of a mapping under a key.  What is no mapping has none. -/
def Document.under? (d : Document) (v : Value) (key : Text) : Option Value :=
  (d.entries? v).bind (Value.lookup · key)

/-- A part of a document, which is null if it is missing. -/
def Document.part (d : Document) (key : Text) : Value :=
  (d.under? d.root key).getD .null

namespace Document

variable {d : Document} {v : Value}

theorem under?_of_entries {entries : List (Value × Value)} (h : d.entries? v = some entries)
    (key : Text) : d.under? v key = Value.lookup entries key := by
  rw [under?, h, Option.bind_some]

theorem under?_of_not_mapping (h : d.entries? v = none) (key : Text) : d.under? v key = none := by
  rw [under?, h, Option.bind_none]

/-- What counts as nothing has no entries: of the mappings it is the empty one. -/
theorem under?_of_isNothing (h : d.isNothing v = true) (key : Text) : d.under? v key = none := by
  cases v with
  | collection id =>
    cases hcontent : d.collection id with
    | list items | set items => simp [under?, entries?, hcontent]
    | map entries =>
      have hempty : entries = [] := by simpa [isNothing, hcontent] using h
      simp [under?, entries?, hcontent, hempty, Value.lookup]
  | _ => rfl

end Document
end Yaml

namespace Settings

open Outcome Yaml

variable {d d' : Document} {v v' : Value} {v? : Option Value} {path : Path}

/-! ## What is given -/

/-- A text is given: the entry is missing and it is the default, or it is the text of the
entry, whatever the entry is. -/
def TextGiven (d : Document) (default : Text) : Option Value → Text → Prop
  | none, t => t = default
  | some v, t => d.text v = .ok t

/-- Texts are given: the entry is missing and they are the defaults, or the entry is a list
and they are the texts of its items. -/
def TextsGiven (d : Document) (default : List Text) : Option Value → List Text → Prop
  | none, ts => ts = default
  | some v, ts => ∃ items, d.items? v = some items ∧
      List.Forall₂ (fun item t => d.text item = .ok t) items ts

/-- An entry, which is missing if it is null. -/
def present? : Option Value → Option Value
  | some .null => none
  | v? => v?

/-- `v` gives the command and the arguments of a tool. -/
structure ToolGiven (d : Document) (v : Value) (default tool : ToolCommand) : Prop where
  command : TextGiven d default.command (d.under? v "command".text) tool.command
  arguments : TextsGiven d default.arguments (d.under? v "args".text) tool.arguments

/-- The settings that a document gives, every one by an entry of its own. -/
structure Given (d : Document) (s : Settings) : Prop where
  path : TextGiven d ({} : Settings).path (d.under? d.root "path".text) s.path
  runner : ToolGiven d (d.part "psql".text) ({} : Settings).runner s.runner
  dumper : ToolGiven d (d.part "pg_dump".text) ({} : Settings).dumper s.dumper
  noise : TextsGiven d ({} : Settings).noise
    (present? (d.under? (d.part "dump".text) "noise_lines".text)) s.noise

/-! ## What is misshapen -/

/-- What can be wrong with the shape of an entry about a tool.  Arguments that are null
are no list. -/
inductive ToolMisshapen (d : Document) (v : Value) (key : Text) : SettingsFailure → Prop
  | mapping : v ≠ .null → d.entries? v = none → ToolMisshapen d v key (.keyNotMapping key)
  | arguments {given : Value} : d.under? v "args".text = some given → d.items? given = none →
      ToolMisshapen d v key (.keyNotList (key ++ ".args".text))

/-- What can be wrong with the shape of the entry about dumps.  Whatever is empty counts
as missing. -/
inductive DumpMisshapen (d : Document) (v : Value) : SettingsFailure → Prop
  | mapping : d.isNothing v = false → d.entries? v = none →
      DumpMisshapen d v (.keyNotMapping "dump".text)
  | lines {given : Value} : d.under? v "noise_lines".text = some given → given ≠ .null →
      d.items? given = none → DumpMisshapen d v (.keyNotList "dump.noise_lines".text)

inductive Misshapen (d : Document) : SettingsFailure → Prop
  | runner {flaw : SettingsFailure} :
      ToolMisshapen d (d.part "psql".text) "psql".text flaw → Misshapen d flaw
  | dumper {flaw : SettingsFailure} :
      ToolMisshapen d (d.part "pg_dump".text) "pg_dump".text flaw → Misshapen d flaw
  | dump {flaw : SettingsFailure} :
      DumpMisshapen d (d.part "dump".text) flaw → Misshapen d flaw

/-! ## Whose text is asked for -/

inductive Item (d : Document) : Option Value → Value → Prop
  | mk {v item : Value} {items : List Value} : d.items? v = some items → item ∈ items →
      Item d (some v) item

inductive ToolUses (d : Document) (v : Value) : Value → Prop
  | command {used : Value} : d.under? v "command".text = some used → ToolUses d v used
  | argument {used : Value} : Item d (d.under? v "args".text) used → ToolUses d v used

/-- The values of a document that become texts of settings. -/
inductive Uses (d : Document) : Value → Prop
  | path {used : Value} : d.under? d.root "path".text = some used → Uses d used
  | runner {used : Value} : ToolUses d (d.part "psql".text) used → Uses d used
  | dumper {used : Value} : ToolUses d (d.part "pg_dump".text) used → Uses d used
  | line {used : Value} :
      Item d (d.under? (d.part "dump".text) "noise_lines".text) used → Uses d used

/-! ## The steps of loading -/

/-- The items of an entry that has to be a list if it is there. -/
def itemsOf (d : Document) (flaw : SettingsFailure) :
    Option Value → Except Error (Option (List Value))
  | none => .ok none
  | some v =>
    match d.items? v with
    | some items => .ok (some items)
    | none => .error (settingsError flaw)

def textsOr (d : Document) (default : List Text) : Option (List Value) → Except Error (List Text)
  | none => .ok default
  | some items => items.mapM (settingText d)

theorem argumentItems_eq (key : Text) (v? : Option Value) :
    ToolCommand.argumentItems d key v? = itemsOf d (.keyNotList (key ++ ".args".text)) v? := by
  cases v? with
  | none => rfl
  | some v => rfl

theorem ofValue_null (default : ToolCommand) (key : Text) :
    ToolCommand.ofValue d .null default key = .ok default := rfl

theorem ofValue_of_not_mapping (hv : v ≠ .null) (h : d.entries? v = none) (default : ToolCommand)
    (key : Text) :
    ToolCommand.ofValue d v default key = .error (settingsError (.keyNotMapping key)) := by
  unfold ToolCommand.ofValue
  split
  · exact absurd rfl hv
  · rfl
  · next hentries => cases h.symm.trans hentries

theorem ofValue_of_entries {entries : List (Value × Value)} (h : d.entries? v = some entries)
    (default : ToolCommand) (key : Text) :
    ToolCommand.ofValue d v default key = (do
      let items ← itemsOf d (.keyNotList (key ++ ".args".text)) (d.under? v "args".text)
      let command ← settingTextOr d default.command (d.under? v "command".text)
      let arguments ← textsOr d default.arguments items
      return ⟨command, arguments⟩) := by
  rw [Document.under?_of_entries h, Document.under?_of_entries h, ← argumentItems_eq]
  unfold ToolCommand.ofValue
  split
  · cases h
  · next hnone => cases h.symm.trans hnone
  · next found hfound =>
    cases h.symm.trans hfound
    refine bind_congr fun items => bind_congr fun command => ?_
    cases items with
    | none => rfl
    | some items => rfl

theorem readable_or_not_mapping (d : Document) (v : Value) :
    (d.isNothing v = true ∨ d.entries? v ≠ none) ∨
      (d.isNothing v = false ∧ d.entries? v = none) := by
  by_cases h : d.isNothing v = true ∨ d.entries? v ≠ none
  · exact .inl h
  · exact .inr (by simpa using h)

theorem noiseOf_of_not_mapping (hv : d.isNothing v = false) (h : d.entries? v = none)
    (default : List Text) :
    noiseOf d default v = .error (settingsError (.keyNotMapping "dump".text)) := by
  unfold noiseOf
  rw [hv, h]
  rfl

theorem noiseOf_of_entries (h : d.isNothing v = true ∨ d.entries? v ≠ none)
    (default : List Text) :
    noiseOf d default v =
      itemsOf d (.keyNotList "dump.noise_lines".text)
        (present? (d.under? v "noise_lines".text)) >>= textsOr d default := by
  unfold noiseOf
  by_cases hv : d.isNothing v = true
  · rw [if_pos hv, Document.under?_of_isNothing hv]
    rfl
  · rw [if_neg hv]
    cases hentries : d.entries? v with
    | none => exact absurd hentries (h.resolve_left hv)
    | some entries =>
      rw [Document.under?_of_entries hentries]
      dsimp only
      split
      · next hmissing =>
        rw [hmissing]
        rfl
      · next hnull =>
        rw [hnull]
        rfl
      · next given hnot hgiven =>
        rw [hgiven]
        have hpresent : present? (some given) = some given := by
          cases given with
          | null => exact absurd rfl hnot
          | _ => rfl
        rw [hpresent]
        dsimp only [itemsOf]
        cases d.items? given with
        | none => rfl
        | some items => rfl

theorem ofDocument_of_entries {entries : List (Value × Value)}
    (h : d.entries? d.root = some entries) (path : Path) :
    ofDocument path d = (do
      let location ← settingTextOr d ({} : Settings).path (d.under? d.root "path".text)
      let runner ← ToolCommand.ofValue d (d.part "psql".text) ({} : Settings).runner "psql".text
      let dumper ←
        ToolCommand.ofValue d (d.part "pg_dump".text) ({} : Settings).dumper "pg_dump".text
      let noise ← noiseOf d ({} : Settings).noise (d.part "dump".text)
      return ⟨location, runner, dumper, noise⟩) := by
  unfold Document.part
  simp only [Document.under?_of_entries h]
  unfold ofDocument
  split
  · next hnull =>
    rw [hnull] at h
    cases h
  · next hfound _ =>
    cases h.symm.trans hfound
    rfl
  · next hnone _ => cases h.symm.trans hnone

/-! ## What loading yields -/

theorem settingText_eq_ok {t : Text} : settingText d v = .ok t ↔ d.text v = .ok t := by
  unfold settingText
  cases d.text v with
  | ok found => simp [Except.mapError]
  | error fault => exact iff_of_false nofun nofun

theorem settingTextOr_eq_ok {default t : Text} :
    settingTextOr d default v? = .ok t ↔ TextGiven d default v? t := by
  cases v? with
  | none => simp [settingTextOr, TextGiven, eq_comm]
  | some v => exact settingText_eq_ok

/-- Texts are given if the items of an entry are found and have them. -/
theorem textsGiven_iff {default ts : List Text} (flaw : SettingsFailure) :
    TextsGiven d default v? ts ↔
      ∃ items, itemsOf d flaw v? = .ok items ∧ textsOr d default items = .ok ts := by
  cases v? with
  | none => simp [itemsOf, textsOr, TextsGiven, eq_comm]
  | some v =>
    cases hitems : d.items? v with
    | none => simp [itemsOf, TextsGiven, hitems]
    | some items =>
      simp [itemsOf, textsOr, TextsGiven, hitems, mapM_eq_ok, settingText_eq_ok]

theorem TextsGiven.isList {default ts : List Text} {given : Value}
    (h : TextsGiven d default v? ts) (hgiven : v? = some given) : d.items? given ≠ none := by
  subst hgiven
  obtain ⟨items, hitems, -⟩ := h
  rw [hitems]
  nofun

theorem ofValue_eq_ok {default tool : ToolCommand} {key : Text} :
    ToolCommand.ofValue d v default key = .ok tool ↔
      (∀ flaw, ¬ToolMisshapen d v key flaw) ∧ ToolGiven d v default tool := by
  cases hentries : d.entries? v with
  | none =>
    have hunder := Document.under?_of_not_mapping hentries
    by_cases hv : v = .null
    · subst hv
      rw [ofValue_null, Except.ok.injEq]
      constructor
      · rintro rfl
        refine ⟨?_, ?_, ?_⟩
        · rintro _ (⟨hnull, _⟩ | ⟨hgiven, _⟩)
          · exact hnull rfl
          · cases hgiven
        · rw [hunder]
          rfl
        · rw [hunder]
          rfl
      · rintro ⟨-, hcommand, harguments⟩
        cases tool
        cases default
        exact congrArg₂ ToolCommand.mk hcommand.symm harguments.symm
    · rw [ofValue_of_not_mapping hv hentries]
      exact iff_of_false nofun fun h => h.1 _ (.mapping hv hentries)
  | some entries =>
    rw [ofValue_of_entries hentries, bind_eq_ok]
    constructor
    · rintro ⟨items, hitems, h⟩
      obtain ⟨command, hcommand, h⟩ := bind_eq_ok.1 h
      obtain ⟨arguments, htexts, h⟩ := bind_eq_ok.1 h
      obtain rfl : ToolCommand.mk command arguments = tool := pure_eq_ok.1 h
      have harguments := (textsGiven_iff _).2 ⟨items, hitems, htexts⟩
      refine ⟨?_, settingTextOr_eq_ok.1 hcommand, harguments⟩
      rintro _ (⟨_, hnone⟩ | ⟨hgiven, hnone⟩)
      · cases hentries.symm.trans hnone
      · exact harguments.isList hgiven hnone
    · rintro ⟨-, hcommand, harguments⟩
      obtain ⟨items, hitems, htexts⟩ :=
        (textsGiven_iff (.keyNotList (key ++ ".args".text))).1 harguments
      exact ⟨items, hitems, bind_eq_ok.2 ⟨_, settingTextOr_eq_ok.2 hcommand,
        bind_eq_ok.2 ⟨_, htexts, rfl⟩⟩⟩

theorem present?_eq_some {given : Value} :
    present? v? = some given ↔ v? = some given ∧ given ≠ .null := by
  unfold present?
  split
  · exact iff_of_false nofun fun ⟨h, hne⟩ => hne (Option.some.inj h).symm
  · next hnot =>
    refine ⟨fun h => ⟨h, ?_⟩, And.left⟩
    rintro rfl
    exact hnot h

theorem noiseOf_eq_ok {default ts : List Text} :
    noiseOf d default v = .ok ts ↔
      (∀ flaw, ¬DumpMisshapen d v flaw) ∧
        TextsGiven d default (present? (d.under? v "noise_lines".text)) ts := by
  rcases readable_or_not_mapping d v with hshape | ⟨hnothing, hnone⟩
  · rw [noiseOf_of_entries hshape, bind_eq_ok, ← textsGiven_iff]
    refine ⟨fun h => ⟨?_, h⟩, And.right⟩
    rintro _ (⟨hnothing, hnone⟩ | ⟨hgiven, hnull, hnone⟩)
    · rcases hshape with hshape | hshape
      · exact Bool.false_ne_true (hnothing.symm.trans hshape)
      · exact hshape hnone
    · exact h.isList (present?_eq_some.2 ⟨hgiven, hnull⟩) hnone
  · rw [noiseOf_of_not_mapping hnothing hnone]
    exact iff_of_false nofun fun h => h.1 _ (.mapping hnothing hnone)

theorem ofDocument_eq_ok {entries : List (Value × Value)} (h : d.entries? d.root = some entries)
    {s : Settings} :
    ofDocument path d = .ok s ↔ (∀ flaw, ¬Misshapen d flaw) ∧ Given d s := by
  rw [ofDocument_of_entries h]
  constructor
  · intro hs
    obtain ⟨location, hlocation, hs⟩ := bind_eq_ok.1 hs
    obtain ⟨runner, hrunner, hs⟩ := bind_eq_ok.1 hs
    obtain ⟨dumper, hdumper, hs⟩ := bind_eq_ok.1 hs
    obtain ⟨noise, hnoise, hs⟩ := bind_eq_ok.1 hs
    obtain rfl := pure_eq_ok.1 hs
    obtain ⟨hrunnerShape, hrunner⟩ := ofValue_eq_ok.1 hrunner
    obtain ⟨hdumperShape, hdumper⟩ := ofValue_eq_ok.1 hdumper
    obtain ⟨hnoiseShape, hnoise⟩ := noiseOf_eq_ok.1 hnoise
    refine ⟨?_, settingTextOr_eq_ok.1 hlocation, hrunner, hdumper, hnoise⟩
    rintro flaw (hflaw | hflaw | hflaw)
    · exact hrunnerShape flaw hflaw
    · exact hdumperShape flaw hflaw
    · exact hnoiseShape flaw hflaw
  · rintro ⟨hshape, hgiven⟩
    have hrunner := ofValue_eq_ok.2 ⟨fun flaw h => hshape flaw (.runner h), hgiven.runner⟩
    have hdumper := ofValue_eq_ok.2 ⟨fun flaw h => hshape flaw (.dumper h), hgiven.dumper⟩
    have hnoise := noiseOf_eq_ok.2 ⟨fun flaw h => hshape flaw (.dump h), hgiven.noise⟩
    rw [bind_of_ok (settingTextOr_eq_ok.2 hgiven.path), bind_of_ok hrunner, bind_of_ok hdumper,
      bind_of_ok hnoise]
    rfl

/-! ## What is wrong when loading fails -/

/-- Something is misshapen, or a value whose text is asked for has none. -/
inductive Explained (d : Document) (flaws : SettingsFailure → Prop) (used : Value → Prop) :
    Error → Prop
  | shape {flaw : SettingsFailure} : flaws flaw → Explained d flaws used (settingsError flaw)
  | text {v : Value} {fault : Scalar.Fault} : used v → d.text v = .error fault →
      Explained d flaws used (.fault (.scalar fault))

theorem Explained.mono {flaws flaws' : SettingsFailure → Prop} {used used' : Value → Prop}
    {e : Error} (h : Explained d flaws used e) (hflaws : ∀ flaw, flaws flaw → flaws' flaw)
    (hused : ∀ v, used v → used' v) : Explained d flaws' used' e := by
  cases h with
  | shape hflaw => exact .shape (hflaws _ hflaw)
  | text hv htext => exact .text (hused _ hv) htext

theorem explained_settingText {flaws : SettingsFailure → Prop} {used : Value → Prop} {e : Error}
    (h : settingText d v = .error e) (hv : used v) : Explained d flaws used e := by
  unfold settingText at h
  cases htext : d.text v with
  | ok t =>
    rw [htext] at h
    cases h
  | error fault =>
    rw [htext] at h
    cases h
    exact .text hv htext

theorem explained_settingTextOr {flaws : SettingsFailure → Prop} {used : Value → Prop} {e : Error}
    {default : Text} (h : settingTextOr d default v? = .error e)
    (hused : ∀ v, v? = some v → used v) : Explained d flaws used e := by
  cases v? with
  | none => cases h
  | some v => exact explained_settingText h (hused v rfl)

theorem itemsOf_eq_error {flaw : SettingsFailure} {e : Error} (h : itemsOf d flaw v? = .error e) :
    e = settingsError flaw ∧ ∃ given, v? = some given ∧ d.items? given = none := by
  cases v? with
  | none => cases h
  | some given =>
    cases hitems : d.items? given with
    | none =>
      simp only [itemsOf, hitems] at h
      exact ⟨(Except.error.inj h).symm, given, rfl, hitems⟩
    | some items =>
      simp only [itemsOf, hitems] at h
      cases h

theorem item_of_itemsOf {flaw : SettingsFailure} {items : List Value}
    (h : itemsOf d flaw v? = .ok (some items)) {item : Value} (hitem : item ∈ items) :
    Item d v? item := by
  cases v? with
  | none => cases h
  | some given =>
    cases hitems : d.items? given with
    | none =>
      simp only [itemsOf, hitems] at h
      cases h
    | some found =>
      simp only [itemsOf, hitems] at h
      cases h
      exact .mk hitems hitem

theorem explained_textsOr {flaws : SettingsFailure → Prop} {flaw : SettingsFailure} {e : Error}
    {default : List Text} {items : Option (List Value)} (hitems : itemsOf d flaw v? = .ok items)
    (h : textsOr d default items = .error e) : Explained d flaws (Item d v?) e := by
  cases items with
  | none => cases h
  | some items =>
    obtain ⟨item, hitem, htext⟩ := exists_of_mapM_error h
    exact explained_settingText htext (item_of_itemsOf hitems hitem)

theorem explained_ofValue {default : ToolCommand} {key : Text} {e : Error}
    (h : ToolCommand.ofValue d v default key = .error e) :
    Explained d (ToolMisshapen d v key) (ToolUses d v) e := by
  cases hentries : d.entries? v with
  | none =>
    by_cases hv : v = .null
    · subst hv
      cases h
    · rw [ofValue_of_not_mapping hv hentries] at h
      cases h
      exact .shape (.mapping hv hentries)
  | some entries =>
    rw [ofValue_of_entries hentries] at h
    rcases bind_eq_error.1 h with h | ⟨items, hitems, h⟩
    · obtain ⟨rfl, given, hgiven, hnone⟩ := itemsOf_eq_error h
      exact .shape (.arguments hgiven hnone)
    rcases bind_eq_error.1 h with h | ⟨command, -, h⟩
    · exact explained_settingTextOr h fun _ => .command
    rcases bind_eq_error.1 h with h | ⟨arguments, -, h⟩
    · exact (explained_textsOr hitems h).mono (fun _ => id) fun _ => .argument
    · cases h

theorem explained_noiseOf {default : List Text} {e : Error} (h : noiseOf d default v = .error e) :
    Explained d (DumpMisshapen d v) (Item d (d.under? v "noise_lines".text)) e := by
  rcases readable_or_not_mapping d v with hshape | ⟨hnothing, hnone⟩
  · rw [noiseOf_of_entries hshape] at h
    rcases bind_eq_error.1 h with h | ⟨items, hitems, h⟩
    · obtain ⟨rfl, given, hgiven, hnone⟩ := itemsOf_eq_error h
      obtain ⟨hgiven, hnull⟩ := present?_eq_some.1 hgiven
      exact .shape (.lines hgiven hnull hnone)
    · refine (explained_textsOr hitems h).mono (fun _ => id) fun used hused => ?_
      generalize hpresent : present? (d.under? v "noise_lines".text) = given at hused
      cases hused with
      | mk hfound hmem =>
        rw [(present?_eq_some.1 hpresent).1]
        exact .mk hfound hmem
  · rw [noiseOf_of_not_mapping hnothing hnone] at h
    cases h
    exact .shape (.mapping hnothing hnone)

theorem explained_ofDocument {entries : List (Value × Value)}
    (hroot : d.entries? d.root = some entries) {e : Error} (h : ofDocument path d = .error e) :
    Explained d (Misshapen d) (Uses d) e := by
  rw [ofDocument_of_entries hroot] at h
  rcases bind_eq_error.1 h with h | ⟨_, -, h⟩
  · exact explained_settingTextOr h fun _ => .path
  rcases bind_eq_error.1 h with h | ⟨_, -, h⟩
  · exact (explained_ofValue h).mono (fun _ => .runner) fun _ => .runner
  rcases bind_eq_error.1 h with h | ⟨_, -, h⟩
  · exact (explained_ofValue h).mono (fun _ => .dumper) fun _ => .dumper
  rcases bind_eq_error.1 h with h | ⟨_, -, h⟩
  · exact (explained_noiseOf h).mono (fun _ => .dump) fun _ => .line
  · cases h

/-! ## What does not count -/

/-- Two values have the same text or the same fault. -/
def SameText (d d' : Document) (v v' : Value) : Prop :=
  d.text v = d'.text v'

/-- Two values are no lists, or lists of items with the same texts. -/
def SameItems (d d' : Document) (v v' : Value) : Prop :=
  Option.Rel (List.Forall₂ (SameText d d')) (d.items? v) (d'.items? v')

/-- Two values are alike as what a part of a document may be: null, a mapping, or
nothing. -/
structure SameShape (d d' : Document) (v v' : Value) : Prop where
  null : v = .null ↔ v' = .null
  mapping : d.entries? v = none ↔ d'.entries? v' = none
  nothing : d.entries? v = none → d.isNothing v = d'.isNothing v'

structure SameTool (d d' : Document) (v v' : Value) : Prop extends SameShape d d' v v' where
  command : Option.Rel (SameText d d') (d.under? v "command".text)
    (d'.under? v' "command".text)
  arguments : Option.Rel (SameItems d d') (d.under? v "args".text)
    (d'.under? v' "args".text)

structure SameDump (d d' : Document) (v v' : Value) : Prop extends SameShape d d' v v' where
  lines : Option.Rel (SameItems d d') (present? (d.under? v "noise_lines".text))
    (present? (d'.under? v' "noise_lines".text))

/-- Two documents agree on the entries that are settings.  What else they hold, in their
mappings or in those of their parts, may differ. -/
structure SameSettings (d d' : Document) : Prop where
  path : Option.Rel (SameText d d') (d.under? d.root "path".text)
    (d'.under? d'.root "path".text)
  runner : SameTool d d' (d.part "psql".text) (d'.part "psql".text)
  dumper : SameTool d d' (d.part "pg_dump".text) (d'.part "pg_dump".text)
  dump : SameDump d d' (d.part "dump".text) (d'.part "dump".text)

theorem settingText_congr (h : SameText d d' v v') : settingText d v = settingText d' v' :=
  congrArg (Except.mapError _) h

theorem settingTextOr_congr {v'? : Option Value} (h : Option.Rel (SameText d d') v? v'?)
    (default : Text) : settingTextOr d default v? = settingTextOr d' default v'? := by
  cases h with
  | none => rfl
  | some h => exact settingText_congr h

theorem mapM_settingText_congr {items items' : List Value}
    (h : List.Forall₂ (SameText d d') items items') :
    items.mapM (settingText d) = items'.mapM (settingText d') := by
  induction h with
  | nil => rfl
  | cons hitem _ ih => rw [List.mapM_cons, List.mapM_cons, settingText_congr hitem, ih]

/-- The items of an entry are found or not, and what is made of their texts is the same. -/
theorem itemsOf_bind_congr {α : Type} {v'? : Option Value}
    (h : Option.Rel (SameItems d d') v? v'?) (flaw : SettingsFailure) (default : List Text)
    (f : Except Error (List Text) → Except Error α) :
    (itemsOf d flaw v? >>= fun items => f (textsOr d default items)) =
      itemsOf d' flaw v'? >>= fun items => f (textsOr d' default items) := by
  cases h with
  | none => rfl
  | some h =>
    unfold SameItems at h
    simp only [itemsOf]
    generalize d.items? _ = items, d'.items? _ = items' at h
    cases h with
    | none => rfl
    | some h => exact congrArg f (mapM_settingText_congr h)

theorem ofValue_congr (h : SameTool d d' v v') (default : ToolCommand) (key : Text) :
    ToolCommand.ofValue d v default key = ToolCommand.ofValue d' v' default key := by
  cases hentries : d.entries? v with
  | none =>
    have hentries' := h.mapping.1 hentries
    by_cases hv : v = .null
    · rw [hv, h.null.1 hv, ofValue_null, ofValue_null]
    · rw [ofValue_of_not_mapping hv hentries,
        ofValue_of_not_mapping (fun hv' => hv (h.null.2 hv')) hentries']
  | some entries =>
    cases hentries' : d'.entries? v' with
    | none => cases (h.mapping.2 hentries').symm.trans hentries
    | some entries' =>
      rw [ofValue_of_entries hentries, ofValue_of_entries hentries',
        settingTextOr_congr h.command]
      exact itemsOf_bind_congr h.arguments _ default.arguments fun texts => do
        let command ← settingTextOr d' default.command (d'.under? v' "command".text)
        let arguments ← texts
        return (⟨command, arguments⟩ : ToolCommand)

theorem noiseOf_congr (h : SameDump d d' v v') (default : List Text) :
    noiseOf d default v = noiseOf d' default v' := by
  rcases readable_or_not_mapping d v with hshape | ⟨hnothing, hnone⟩
  · have hshape' : d'.isNothing v' = true ∨ d'.entries? v' ≠ none := by
      by_cases hentries : d.entries? v = none
      · exact .inl (h.nothing hentries ▸ hshape.resolve_right (absurd hentries))
      · exact .inr fun hentries' => hentries (h.mapping.2 hentries')
    rw [noiseOf_of_entries hshape, noiseOf_of_entries hshape']
    exact itemsOf_bind_congr h.lines _ default id
  · rw [noiseOf_of_not_mapping hnothing hnone,
      noiseOf_of_not_mapping (h.nothing hnone ▸ hnothing) (h.mapping.1 hnone)]

theorem ofDocument_congr {entries entries' : List (Value × Value)} {path' : Path}
    (hroot : d.entries? d.root = some entries) (hroot' : d'.entries? d'.root = some entries')
    (h : SameSettings d d') : ofDocument path d = ofDocument path' d' := by
  rw [ofDocument_of_entries hroot, ofDocument_of_entries hroot', settingTextOr_congr h.path,
    ofValue_congr h.runner, ofValue_congr h.dumper, noiseOf_congr h.dump]

end Settings
end SchemaLedger
