import SchemaLedger.Proofs.Fault
import SchemaLedger.Proofs.Settings.Given

/-!
# Loading the settings

A settings file that cannot be opened, or whose document is malformed or of the wrong
shape, is a failure.  A path that cannot be looked at or is none, bytes that are no text
and literals that stand for no value are not: they end the run with a fault.  A file that
holds a mapping gives the settings that its entries give, each over its own default.
-/

namespace SchemaLedger
namespace Settings

open Outcome Yaml

variable {d : Disk} {path : Path}

/-- What can be wrong with the settings document that no failure takes in: its path
cannot be looked at or is none, its bytes are no UTF-8, a literal in it cannot be read, or
a value of it has no text. -/
inductive Faulty (d : Disk) (path : Path) : Fault → Prop
  | unseen {fault : SystemFault} : Disk.Unseen d path fault → Faulty d path (.system fault)
  | noPath {reason : Unusable} : path.text.unusable? = some reason →
      Faulty d path (.unusable reason)
  | encoding {fault : Utf8.Fault} : d.readText path = .error (.encoding fault) →
      Faulty d path (.encoding fault)
  | literal {t : Text} {fault : Fault} : d.readText path = .ok t →
      Document.read t = .error fault → fault ≠ .document → Faulty d path fault
  | value {t : Text} {document : Document} {v : Value} {fault : Scalar.Fault} :
      d.readText path = .ok t → Document.read t = .ok document →
      document.text v = .error fault → Faulty d path (.scalar fault)

/-- The settings of a run are those of its disk, unless its document goes too deep. -/
theorem loadIn_cases (w : World) (named : Option Path) :
    (∃ t, w.disk.readText (sourceOf named) = .ok t ∧ w.overflows t = true ∧
      loadIn w named = .error (.fault (.scalar .endless))) ∨
    loadIn w named = load w.disk named := by
  unfold loadIn
  split
  · next t htext =>
    cases hdeep : w.overflows t with
    | true => exact .inl ⟨t, htext, hdeep, rfl⟩
    | false => exact .inr rfl
  · exact .inr rfl

theorem load_of_loadIn {w : World} {named : Option Path} {settings : Settings}
    (h : loadIn w named = .ok settings) : load w.disk named = .ok settings := by
  rcases loadIn_cases w named with ⟨_, _, _, hdeep⟩ | hload
  · cases hdeep.symm.trans h
  · exact hload ▸ h

theorem loadIn_of_quiet {w w' : World} (h : w.Quiet w') (named : Option Path) :
    loadIn w' named = loadIn w named := by
  unfold loadIn
  rw [h.disk, h.overflows]

/-! ## From the file to its entries -/

theorem load_of_read {named : Option Path} {t : Text} {document : Document}
    (htext : d.readText (sourceOf named) = .ok t) (hread : Document.read t = .ok document) :
    load d named = ofDocument (sourceOf named) document := by
  have hfile : ofFile d (sourceOf named) = ofDocument (sourceOf named) document := by
    unfold ofFile
    rw [htext]
    change ((Document.read t).mapError (documentError _) >>= ofDocument _) = _
    rw [hread]
    rfl
  cases named with
  | some path => exact hfile
  | none =>
    cases hdata : d.read defaultPath with
    | error refused =>
      rw [sourceOf, Option.getD_none, Disk.readText, hdata] at htext
      cases htext
    | ok data =>
      have hpresent : unreported (d.isPresent defaultPath) = .ok true :=
        unreported_eq_ok.2 (Disk.isPresent_of_read hdata)
      exact (bind_of_ok hpresent _).trans hfile

/-- Settings are defaults with the entries of a document over them.  Loading a file that
holds the document is loading the document.  It succeeds with the settings that are given,
if nothing is misshapen, and otherwise ends with what is misshapen or with a value that
has no text; where all that are asked for have one, it fails exactly if something is
misshapen.  Documents that agree on the entries that count have one outcome, whatever
else they hold. -/
theorem load_over_defaults {document : Document} {entries : List (Value × Value)}
    (hroot : document.entries? document.root = some entries) :
    (∀ d named t, d.readText (sourceOf named) = .ok t → Document.read t = .ok document →
      load d named = ofDocument (sourceOf named) document) ∧
    (∀ path s, ofDocument path document = .ok s ↔
      (∀ flaw, ¬Misshapen document flaw) ∧ Given document s) ∧
    (∀ path e, ofDocument path document = .error e →
      Explained document (Misshapen document) (Uses document) e) ∧
    ((∀ v, Uses document v → ∃ t, document.text v = .ok t) → ∀ path,
      ((∃ s, ofDocument path document = .ok s) ↔ ∀ flaw, ¬Misshapen document flaw) ∧
      ((∃ flaw, ofDocument path document = .error (settingsError flaw)) ↔
        ∃ flaw, Misshapen document flaw)) ∧
    ∀ other others, other.entries? other.root = some others → SameSettings document other →
      ∀ path path', ofDocument path document = ofDocument path' other := by
  refine ⟨fun d named t => load_of_read, fun path s => ofDocument_eq_ok hroot,
    fun path e => explained_ofDocument hroot, fun htexts path => ?_,
    fun other others hothers hsame path path' => ofDocument_congr hroot hothers hsame⟩
  -- With all texts there, what explains an error is something misshapen.
  have hfailed : ∀ e, ofDocument path document = .error e →
      ∃ flaw, e = settingsError flaw ∧ Misshapen document flaw := by
    intro e he
    cases explained_ofDocument hroot he with
    | shape hflaw => exact ⟨_, rfl, hflaw⟩
    | text hv hfault =>
      obtain ⟨t, ht⟩ := htexts _ hv
      cases ht.symm.trans hfault
  cases houtcome : ofDocument path document with
  | ok s =>
    have hshape := ((ofDocument_eq_ok hroot).1 houtcome).1
    exact ⟨iff_of_true ⟨s, rfl⟩ hshape,
      iff_of_false nofun fun ⟨flaw, hflaw⟩ => hshape flaw hflaw⟩
  | error e =>
    obtain ⟨flaw, rfl, hflaw⟩ := hfailed e houtcome
    exact ⟨iff_of_false nofun fun hshape => hshape flaw hflaw,
      iff_of_true ⟨flaw, rfl⟩ ⟨flaw, hflaw⟩⟩

/-- A path, arguments of one tool, null for the other, nothing about dumps, and two
entries that do not count. -/
def appDocument : Document where
  root := .collection 0
  collections := #[
    .map [(.text "path".text, .text "db".text), (.text "psql".text, .collection 1),
      (.text "pg_dump".text, .null), (.text "dump".text, .truth false),
      (.whole 7, .text "seven".text)],
    .map [(.text "args".text, .collection 2), (.text "note".text, .null)],
    .list [.text "-d".text, .text "app".text]]

theorem load_over_defaults_app :
    appDocument.entries? appDocument.root ≠ none ∧
    ofDocument defaultPath appDocument =
      .ok { path := "db".text, runner := ⟨"psql".text, ["-d".text, "app".text]⟩ } := by
  refine ⟨nofun, ((load_over_defaults rfl).2.1 _ _).2 ⟨?_, rfl, ⟨rfl, ?_⟩, ⟨rfl, rfl⟩, rfl⟩⟩
  · rintro flaw ((⟨_, hnone⟩ | ⟨hgiven, hnone⟩) | (⟨hnull, _⟩ | ⟨hgiven, _⟩) |
      (⟨hnothing, _⟩ | ⟨hgiven, _, _⟩))
    · cases hnone
    · cases hgiven
      cases hnone
    · exact hnull rfl
    · cases hgiven
    · cases hnothing
    · cases hgiven
  · exact ⟨_, rfl, .cons rfl (.cons rfl .nil)⟩

def settingsEntries (t : Text) : List (Location × Entry) :=
  [(["pgm.yaml".name], .file (Utf8.encode t))]

/-- A folder with nothing but a settings file. -/
def withSettings (t : Text) : Disk where
  tree :=
    { entries := settingsEntries t
      distinct := by simp [settingsEntries]
      closed := by simp [settingsEntries] }
  working := []

theorem exists_of_isNull (t : Text) (entry : Document → Option Value)
    (h : ((Document.read t).toOption.bind entry).any (· matches .null) = true) :
    ∃ document, Document.read t = .ok document ∧ entry document = some .null := by
  cases hread : Document.read t with
  | error fault =>
    rw [hread] at h
    cases h
  | ok document =>
    rw [hread] at h
    refine ⟨document, rfl, ?_⟩
    change (entry document).any (· matches .null) = true at h
    cases hentry : entry document with
    | none =>
      rw [hentry] at h
      cases h
    | some v =>
      rw [hentry] at h
      cases v with
      | null => rfl
      | _ => cases h

/-- A path that is null is no missing path, and arguments that are null are refused. -/
theorem load_null_kept :
    (∃ document, Document.read "path:\n".text = .ok document ∧
      document.under? document.root "path".text = some .null ∧
      ∃ s, load (withSettings "path:\n".text) none = .ok s ∧ s.path ≠ ({} : Settings).path) ∧
    ∃ document, Document.read "psql:\n  args:\n".text = .ok document ∧
      document.under? (document.part "psql".text) "args".text = some .null ∧
      load (withSettings "psql:\n  args:\n".text) none =
        .error (settingsError (.keyNotList "psql.args".text)) := by
  constructor
  · obtain ⟨document, hread, hnull⟩ := exists_of_isNull "path:\n".text
      (fun document => document.under? document.root "path".text) (by decide +kernel)
    exact ⟨document, hread, hnull, { path := "None".text }, by decide +kernel, by decide⟩
  · obtain ⟨document, hread, hnull⟩ := exists_of_isNull "psql:\n  args:\n".text
      (fun document => document.under? (document.part "psql".text) "args".text)
      (by decide +kernel)
    exact ⟨document, hread, hnull, by decide +kernel⟩

end Settings
end SchemaLedger
