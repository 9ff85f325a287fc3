import SchemaLedger.Proofs.Script.Variant
import SchemaLedger.Proofs.Text.Infix
import SchemaLedger.Proofs.Tree.Growth

/-!
# What a script takes from a tree

A script consists of texts that are the same for every tree, of bodies, and of what it
says about the files.  So a property of some line, if saying a name keeps it and no fixed
text has it, is one of the script exactly when it is one of a name or of a body that the
script is made of.  That a text has no bytes is such a property.
-/

namespace SchemaLedger
namespace Script

open Artifact (IsListed StandsOn)
open Text (eachLine)

variable {part t : Text} {d : Disk} {root path : Path} {variant : Variant} {s : Script}
variable {f : Fragment} {Q : Text → Prop}

/-- A part of one line that is not blank is in no text but in a line that is shown. -/
theorem infix_iff_exists_shown (hpart : Text.Unbroken part)
    (hblank : Text.isBlankText part = false) :
    part <:+: t ↔ ∃ line ∈ shown t, part <:+: line := by
  have hne : part ≠ [] := by
    rintro rfl
    cases hblank
  rw [Text.infix_iff_exists_line hne hpart]
  refine exists_congr fun line => ?_
  rw [shown, List.mem_filter, and_assoc]
  refine and_congr_right fun _ => (and_iff_right_of_imp fun hinside => ?_).symm
  rw [Bool.not_eq_true']
  refine Bool.eq_false_iff.2 fun hline => ?_
  have hall : Text.isBlankText part = true :=
    List.all_eq_true.2 fun c hc => List.all_eq_true.1 hline c (hinside.subset hc)
  rw [hblank] at hall
  cases hall

/-- The bodies of the fixed fragments hold neither dollar signs nor surrogates. -/
theorem ordinary_of_fixed :
    ∀ f ∈ fixed, ∀ body ∈ f.bodies, .char '$' ∉ body ∧ body.Plain := by
  have hopening : ∀ body ∈ Contents.opening.bodies, .char '$' ∉ body ∧ body.Plain := by
    decide +kernel
  have htables : .char '$' ∉ trackingTables ∧ trackingTables.Plain := by
    -- the parts of the text are evaluated faster than the whole
    unfold trackingTables
    simp only [String.text_append]
    decide +kernel
  have hcheck : ∀ body ∈ Contents.check.bodies, .char '$' ∉ body ∧ body.Plain := by
    decide +kernel
  have hseeds : ∀ body ∈ seedOpening.bodies, .char '$' ∉ body ∧ body.Plain := by
    decide +kernel
  intro f hf
  simp only [fixed, List.mem_cons, List.not_mem_nil, or_false] at hf
  rcases hf with rfl | rfl | rfl | rfl
  · exact hopening
  · exact fun body hbody => List.mem_singleton.1 hbody ▸ htables
  · exact hcheck
  · exact hseeds

/-- A property of texts that a script has only where a name or a body has it. -/
structure Carried (Q : Text → Prop) : Prop where
  lines : ∀ t, Q t ↔ ∃ line ∈ shown t, Q line
  spells : ∀ {name t}, Spells name t → (Q t ↔ Q name)
  frame : ∀ part ∈ Fragment.frame, ¬Q part
  fixed : ∀ f ∈ fixed, ∀ body ∈ f.bodies, ¬Q body

theorem said_of_fixed : ∀ f ∈ fixed, f.said = [] := by
  intro f hf
  simp only [fixed, List.mem_cons, List.not_mem_nil, or_false] at hf
  rcases hf with rfl | rfl | rfl | rfl <;> rfl

namespace Carried

/-- The lines of a fragment are those of what it says and of what it takes in. -/
theorem exists_line_iff (hQ : Carried Q) (f : Fragment) :
    (∃ line ∈ f.parts.flatMap shown, Q line) ↔
      (∃ text ∈ f.said, Q text) ∨ ∃ body ∈ f.bodies, Q body := by
  have hpart : (∃ line ∈ f.parts.flatMap shown, Q line) ↔ ∃ part ∈ f.parts, Q part := by
    constructor
    · rintro ⟨line, hline, hq⟩
      obtain ⟨part, hpart, hline⟩ := List.mem_flatMap.1 hline
      exact ⟨part, hpart, (hQ.lines part).2 ⟨line, hline, hq⟩⟩
    · rintro ⟨part, hpart, hq⟩
      obtain ⟨line, hline, hq⟩ := (hQ.lines part).1 hq
      exact ⟨line, List.mem_flatMap.2 ⟨part, hpart, hline⟩, hq⟩
  have hsame : ∀ {part text : Text}, shown part = shown text → (Q part ↔ Q text) :=
    fun hshown => by rw [hQ.lines, hshown, ← hQ.lines]
  rw [hpart]
  constructor
  · rintro ⟨part, hpart, hq⟩
    rcases Fragment.shown_of_mem_parts hpart with ⟨body, hbody, hshown⟩ | ⟨text, htext, hshown⟩ |
      hframe
    · exact .inr ⟨body, hbody, (hsame hshown).1 hq⟩
    · exact .inl ⟨text, htext, (hsame hshown).1 hq⟩
    · exact absurd hq (hQ.frame part hframe)
  · rintro (⟨text, htext, hq⟩ | ⟨body, hbody, hq⟩)
    · obtain ⟨part, hpart, hshown⟩ := Fragment.exists_part_of_said htext
      exact ⟨part, hpart, (hsame hshown).2 hq⟩
    · obtain ⟨part, hpart, hshown⟩ := Fragment.exists_part_of_bodies hbody
      exact ⟨part, hpart, (hsame hshown).2 hq⟩

theorem not_exists_line_of_fixed (hQ : Carried Q) (hf : f ∈ Script.fixed) :
    ¬∃ line ∈ f.parts.flatMap shown, Q line := by
  rw [hQ.exists_line_iff, said_of_fixed f hf]
  rintro (⟨_, htext, _⟩ | ⟨body, hbody, hq⟩)
  · cases htext
  · exact hQ.fixed f hf body hbody hq

theorem exists_line_iff_of_madeFor (hQ : Carried Q) (h : MadeFor d root path f) :
    (∃ line ∈ f.parts.flatMap shown, Q line) ↔ Q path.stem ∨ ∃ body ∈ f.bodies, Q body := by
  rw [hQ.exists_line_iff]
  refine or_congr_left ⟨?_, fun hname => ?_⟩
  · rintro ⟨text, htext, hq⟩
    exact (hQ.spells (h.tells.saidOf htext).spells).1 hq
  · obtain ⟨text, htext⟩ := h.exists_said
    exact ⟨text, htext, (hQ.spells (h.tells.saidOf htext).spells).2 hname⟩

/-- A line between the first and the last of a script has the property exactly when a name or
a body has it that the script is made of. -/
theorem exists_kept_iff (hQ : Carried Q) (h : ofTree d root variant = .ok s) :
    (∃ line ∈ kept s.inside false, Q line) ↔
      ∃ f ∈ s.fragments, ∃ path, MadeFor d root path f ∧
        (Q path.stem ∨ ∃ body ∈ f.bodies, Q body) := by
  constructor
  · rintro ⟨line, hline, hq⟩
    rw [kept_inside] at hline
    obtain ⟨f, hf, hline⟩ := List.mem_flatMap.1 hline
    rw [s.ordered_perm.mem_iff] at hf
    rcases madeFor_of_tree h hf with hfixed | ⟨path, hmade⟩
    · exact absurd ⟨line, hline, hq⟩ (hQ.not_exists_line_of_fixed hfixed)
    · exact ⟨f, hf, path, hmade, (hQ.exists_line_iff_of_madeFor hmade).1 ⟨line, hline, hq⟩⟩
  · rintro ⟨f, hf, path, hmade, hq⟩
    obtain ⟨line, hline, hq⟩ := (hQ.exists_line_iff_of_madeFor hmade).2 hq
    exact ⟨line, mem_kept_of_fragment hf hline, hq⟩

end Carried

/-! ## Names -/

theorem exists_entry_of_isListed {folder : Path} (h : IsListed d folder path) :
    ∃ name above entry, name.text = path.name ∧ (name :: above, entry) ∈ d.tree.entries := by
  obtain ⟨place, name, hname, rfl⟩ := h.exists_name
  obtain ⟨entry, hentry⟩ := Option.ne_none_iff_exists'.1 (Tree.mem_names.1 hname)
  rw [Path.name_child]
  exact ⟨name, place, entry, rfl, Tree.mem_of_at? (List.cons_ne_nil _ _) hentry⟩

/-- The name of a file that a script is made of is in the tree, or that of the bootstrap
migration. -/
theorem MadeFor.name_cases (h : MadeFor d root path f) :
    path.name = Layout.bootstrap ∨
      ∃ name above entry, name.text = path.name ∧ (name :: above, entry) ∈ d.tree.entries := by
  have hmigration : ∀ {path}, IsMigration d root path → path.name = Layout.bootstrap ∨
      ∃ name above entry, name.text = path.name ∧
        (name :: above, entry) ∈ d.tree.entries := by
    rintro path (rfl | hlisted)
    · exact .inl (Path.name_child _ _)
    · exact .inr (exists_entry_of_isListed hlisted)
  cases h with
  | migration _ hpath => exact hmigration hpath
  | object _ _ hlisted => exact .inr (exists_entry_of_isListed hlisted)
  | recordedMigration hpath => exact hmigration hpath
  | recordedObject _ hlisted => exact .inr (exists_entry_of_isListed hlisted)
  | seed hlisted => exact .inr (exists_entry_of_isListed hlisted)

/-! ## Scripts that have bytes -/

/-- A surrogate ends no line and is no blank, so some line has it that is shown. -/
theorem not_plain_iff_exists_shown (t : Text) :
    ¬t.Plain ↔ ∃ line ∈ shown t, ¬line.Plain := by
  have hmem : ∀ u : Text, ¬u.Plain ↔ ∃ c, c.isChar = false ∧ [c] <:+: u := fun u => by
    simp [Text.Plain, List.singleton_infix_iff, and_comm]
  have hline : ∀ c : CodePoint, c.isChar = false →
      ([c] <:+: t ↔ ∃ line ∈ shown t, [c] <:+: line) := by
    intro c hc
    have hblank : isBlank c = false :=
      Bool.eq_false_iff.2 fun h => by simp [Text.isChar_of_isBlank h] at hc
    have hbreak : isLineBreak c = false :=
      Bool.eq_false_iff.2 fun h => by simp [isBlank_of_isLineBreak h] at hblank
    refine infix_iff_exists_shown (List.forall_mem_singleton.2 hbreak) ?_
    rw [Text.isBlankText, List.all_cons, hblank, Bool.false_and]
  rw [hmem]
  constructor
  · rintro ⟨c, hc, hinside⟩
    obtain ⟨line, hshown, hinside⟩ := (hline c hc).1 hinside
    exact ⟨line, hshown, (hmem line).2 ⟨c, hc, hinside⟩⟩
  · rintro ⟨line, hshown, hplain⟩
    obtain ⟨c, hc, hinside⟩ := (hmem line).1 hplain
    exact ⟨c, hc, (hline c hc).2 ⟨line, hshown, hinside⟩⟩

theorem carried_not_plain : Carried fun t => ¬t.Plain where
  lines := not_plain_iff_exists_shown
  spells h := not_congr h.plain_iff
  frame := by decide
  fixed f hf body hbody := not_not_intro (ordinary_of_fixed f hf body hbody).2

/-- Bodies are read from files, so they have bytes. -/
theorem MadeFor.plain_of_mem_bodies (h : MadeFor d root path f) {body : Text}
    (hbody : body ∈ f.bodies) : body.Plain := by
  obtain ⟨file, _, ⟨data, _, _, hdecode, _⟩, rfl⟩ := h.mem_bodies hbody
  exact (Utf8.decode_eq_ok.1 hdecode).1

theorem plain_eachLine {lines : List Text} :
    (eachLine lines).Plain ↔ ∀ line ∈ lines, line.Plain := by
  have hnewline : Text.Plain [.char '\n'] := by decide
  rw [eachLine, Text.Plain, List.forall_mem_flatMap]
  exact forall₂_congr fun line _ => Text.plain_append.trans (and_iff_left hnewline)

theorem plain_render_iff_kept (htag : s.tag ∈ tags) (minify : Bool) :
    (s.render minify).Plain ↔ ∀ line ∈ kept s.inside minify, line.Plain := by
  have hplain : ∀ tag ∈ tags, (header ⟨tag, []⟩).Plain ∧ (footer ⟨tag, []⟩).Plain := by decide
  obtain ⟨hheader, hfooter⟩ := hplain s.tag htag
  have hends : Text.Plain [.char '\n'] := by decide
  rw [render_eq (unbroken_of_mem_tags htag), Text.plain_append, Text.plain_append,
    Text.plain_append, Text.plain_cons, plain_eachLine]
  exact ⟨fun h => h.1.1.2.2, fun h => ⟨⟨⟨hheader, rfl, h⟩, hfooter⟩, hends⟩⟩

/-- A script has bytes when the names in it are text, and if it is not minified only then. -/
theorem plain_render (h : ofTree d root variant = .ok s) :
    ((s.render false).Plain ↔
        ∀ f ∈ s.fragments, ∀ path, MadeFor d root path f → path.stem.Plain) ∧
      ((s.render false).Plain → (s.render true).Plain) := by
  have htag := tag_of_tree h
  rw [plain_render_iff_kept htag, plain_render_iff_kept htag]
  refine ⟨?_, fun hplain line hline => hplain line (kept_subset_shown _ true hline)⟩
  have hlines := not_congr (carried_not_plain.exists_kept_iff h)
  simp only [not_exists, not_and, not_or, not_not] at hlines
  rw [hlines]
  exact ⟨fun hnone f hf path hmade => (hnone f hf path hmade).1,
    fun hnames f hf path hmade => ⟨hnames f hf path hmade,
      fun _ hbody => hmade.plain_of_mem_bodies hbody⟩⟩

/-- Where all names in the tree are text, a script says only text. -/
theorem MadeFor.plain_stem (h : MadeFor d root path f)
    (hnames : ∀ name above entry, (name :: above, entry) ∈ d.tree.entries → name.text.Plain) :
    path.stem.Plain := by
  have hname : path.name.Plain := by
    rcases h.name_cases with hbootstrap | ⟨name, above, entry, hsame, hentry⟩
    · rw [hbootstrap]
      decide
    · rw [← hsame]
      exact hnames name above entry hentry
  rw [← Text.splitSuffix_append path.name] at hname
  exact (Text.plain_append.1 hname).1

/-! ## A name that is no text -/

/-- A name in Latin-1. -/
def latinName : Name :=
  ⟨Utf8.encode "caf".text ++ [0xe9] ++ Utf8.encode ".sql".text, by decide⟩

def latinEntries : List (Location × Entry) :=
  [(["r".name], .folder),
   (["functions".name, "r".name], .folder),
   ([latinName, "functions".name, "r".name], .file (Utf8.encode "SELECT 1;\n".text))]

/-- A tree with one function, whose name is no text. -/
def latinTree : Tree where
  entries := latinEntries
  distinct := by decide
  closed := by
    have h : ∀ place ∈ latinEntries.map (·.1),
        place.tail = [] ∨ (place.tail, Entry.folder) ∈ latinEntries := by decide
    exact fun name place hplace => h (name :: place) hplace

def latinRoot : Path := ⟨.relative, ["r".text]⟩

def latinFile : SqlFile where
  path := (latinRoot.child ObjectKind.function.folder).child latinName.text
  name := "caf".text ++ [CodePoint.escape 0xe9]
  body := "SELECT 1;\n".text
  digest := Md5.hexDigest (Utf8.encode "SELECT 1;\n".text)

/-- What is said when the function is applied. -/
def latinNotice : Sql.Command :=
  .notice ("Applied ".text ++ sourceOf ObjectKind.function.folder latinFile.name)

/-- The script that applies the tree has no bytes, though it is assembled. -/
theorem not_plain_latin :
    ∃ s, ofTree ⟨latinTree, []⟩ latinRoot .applying = .ok s ∧ ¬(s.render true).Plain := by
  obtain ⟨s, hs⟩ : ∃ s, ofTree ⟨latinTree, []⟩ latinRoot .applying = .ok s :=
    Outcome.exists_of_toBool (by decide +kernel)
  have hlisted : IsListed ⟨latinTree, []⟩ (latinRoot.child ObjectKind.function.folder)
      latinFile.path := ⟨by decide, _, rfl, latinName.text, by decide, rfl⟩
  have hstands : StandsOn ⟨latinTree, []⟩ latinFile :=
    ⟨_, rfl, by decide, Utf8.decode_encode_text _, by rw [latinFile]⟩
  have hfragment := mem_fragments_of_listed hs hlisted hstands (true, .functionsChecked) (by decide)
  have hcommand : latinNotice ∈ (objectFragment .functionsChecked ObjectKind.function.table
      ObjectKind.function.folder true latinFile).commands :=
    List.mem_cons_of_mem _ (List.mem_append_left _ (List.mem_cons_of_mem _ List.mem_cons_self))
  obtain ⟨part, hpart, hshown⟩ := Fragment.exists_part_of_command hcommand
  have hline : latinNotice.sql ∈ shown part := by
    rw [hshown]
    decide +kernel
  -- a notice is no comment, so minifying leaves it
  have hkept : latinNotice.sql ∈ kept s.inside true :=
    List.mem_filter.2 ⟨mem_kept_of_fragment hfragment (List.mem_flatMap.2 ⟨part, hpart, hline⟩),
      by decide +kernel⟩
  have hsurrogate : ¬latinNotice.sql.Plain := by decide +kernel
  exact ⟨s, hs, fun hplain =>
    hsurrogate ((plain_render_iff_kept (tag_of_tree hs) true).1 hplain _ hkept)⟩

end Script
end SchemaLedger
