import SchemaLedger.Proofs.Text.Line
import SchemaLedger.Script.Blocks

/-!
# Blocks of a rendered script

Rendering puts the lines of a fragment between markers, and reading finds them
there again.  A whole fragment takes the reading from one place between blocks
to the next, so the blocks of a script are those of its fragments, one after
the other.
-/

namespace SchemaLedger
namespace Script

/-! ## Lines that are shown -/

/-- The lines of a text that are not blank. -/
def shown (t : Text) : List Text :=
  (Text.lines t).filter fun line => !Text.isBlankText line

theorem shown_append_newline (t u : Text) : shown (t ++ .char '\n' :: u) = shown t ++ shown u :=
  Text.filter_lines_break (b := '\n') rfl t u (by decide) nofun

theorem shown_unlines (parts : List Text) : shown (Text.unlines parts) = parts.flatMap shown := by
  induction parts with
  | nil => rfl
  | cons part rest ih =>
    cases rest with
    | nil => rw [Text.unlines, Text.joined, List.intercalate_singleton, List.flatMap_singleton]
    | cons next more =>
      rw [Text.unlines, Text.joined_cons_cons, List.append_assoc, List.singleton_append,
        shown_append_newline, List.flatMap_cons, ← ih]
      rfl

theorem shown_dropEndWhile_newline (t : Text) :
    shown (Text.dropEndWhile (· == .char '\n') t) = shown t := by
  induction t using List.reverseRecOn with
  | nil => rfl
  | append_singleton front c ih =>
    by_cases hc : c = '\n'
    · subst hc
      have hdrop : Text.dropEndWhile (· == .char '\n') (front ++ [.char '\n']) =
          Text.dropEndWhile (· == .char '\n') front := by simp [Text.dropEndWhile]
      rw [hdrop, ih, shown_append_newline front []]
      exact (List.append_nil _).symm
    · have hdrop : Text.dropEndWhile (· == .char '\n') (front ++ [c]) = front ++ [c] := by
        simp [Text.dropEndWhile, hc]
      rw [hdrop]

theorem shown_of_unbroken {t : Text} (ht : Text.Unbroken t)
    (hblank : Text.isBlankText t = false) : shown t = [t] := by
  have hne : t ≠ [] := by
    rintro rfl
    cases hblank
  rw [shown, Text.lines_of_unbroken ht hne, List.filter_cons_of_pos (by simp [hblank]),
    List.filter_nil]

/-- A line made of a text and what is set around it. -/
theorem shown_bracketed {opening middle ending : Text} (hopening : Text.Unbroken opening)
    (hmiddle : Text.Unbroken middle) (hending : Text.Unbroken ending)
    (hblank : Text.isBlankText opening = false) :
    shown (opening ++ middle ++ ending) = [opening ++ middle ++ ending] := by
  refine shown_of_unbroken ?_ ?_
  · intro c hc
    rcases List.mem_append.1 hc with hc | hc
    · exact (List.mem_append.1 hc).elim (hopening c) (hmiddle c)
    · exact hending c hc
  · rw [Text.isBlankText, List.all_append, List.all_append]
    rw [Text.isBlankText] at hblank
    rw [hblank, Bool.false_and, Bool.false_and]

/-! ## Markers -/

/-- What stands between an opening and an ending that do not overlap. -/
theorem middle_eq_iff {line opening ending source : Text} (hne : source ≠ []) :
    (opening <+: line ∧ ending <:+ line) ∧
        (line.drop opening.length).take (line.length - opening.length - ending.length) = source ↔
      line = opening ++ source ++ ending := by
  constructor
  · rintro ⟨⟨⟨rest, rfl⟩, hending⟩, hsource⟩
    rw [List.drop_left, List.length_append, Nat.add_sub_cancel_left] at hsource
    have hfit : ending.length ≤ rest.length := by
      by_contra hshort
      rw [Nat.sub_eq_zero_of_le (by omega), List.take_zero] at hsource
      exact hne hsource.symm
    obtain ⟨middle, rfl⟩ :=
      List.suffix_of_suffix_length_le hending (List.suffix_append opening rest) hfit
    rw [List.length_append, Nat.add_sub_cancel, List.take_left] at hsource
    rw [hsource, List.append_assoc]
  · rintro rfl
    refine ⟨⟨?_, List.suffix_append _ _⟩, ?_⟩
    · rw [List.append_assoc]
      exact List.prefix_append _ _
    · rw [List.append_assoc, List.drop_left, List.length_append, List.length_append,
        Nat.add_sub_cancel_left, Nat.add_sub_cancel, List.take_left]

theorem startsBlock?_eq_some {line source : Text} :
    startsBlock? line = some source ↔ source ≠ [] ∧ line = Fragment.runMarker source := by
  unfold startsBlock? Fragment.runMarker
  generalize "-- RUN ".text = opening, " --".text = ending
  simp only [Option.ite_none_right_eq_some, Bool.and_eq_true, List.isPrefixOf_iff_prefix,
    List.isSuffixOf_iff_suffix, Bool.not_eq_true', List.isEmpty_eq_false_iff, Option.some.injEq]
  constructor
  · rintro ⟨⟨hmarker, hne⟩, rfl⟩
    exact ⟨hne, (middle_eq_iff hne).1 ⟨hmarker, rfl⟩⟩
  · rintro ⟨hne, hline⟩
    obtain ⟨hmarker, hsource⟩ := (middle_eq_iff hne).2 hline
    exact ⟨⟨hmarker, hsource ▸ hne⟩, hsource⟩

theorem startsBlock?_eq_none {line : Text} :
    startsBlock? line = none ↔ ∀ source, source ≠ [] → line ≠ Fragment.runMarker source := by
  rw [Option.eq_none_iff_forall_ne_some]
  exact forall_congr' fun source => by rw [ne_eq, startsBlock?_eq_some, not_and]

theorem prefix_runMarker (source : Text) : "-- RUN ".text <+: Fragment.runMarker source := by
  unfold Fragment.runMarker
  rw [List.append_assoc]
  exact List.prefix_append _ _

/-- A line that opens in another way starts no block. -/
theorem startsBlock?_of_opening {opening line : Text} (hline : opening <+: line)
    (hother : ¬opening <+: "-- RUN ".text ∧ ¬"-- RUN ".text <+: opening) :
    startsBlock? line = none := by
  rw [startsBlock?_eq_none]
  rintro source _ rfl
  exact (List.prefix_or_prefix_of_prefix hline (prefix_runMarker source)).elim hother.1 hother.2

end Script

/-! ## Lines of a fragment -/

namespace Fragment

open Script (shown)

/-- The lines of the body and of what follows it. -/
def appliedLines (f : Fragment) : List Text :=
  shown f.body.sql ++ f.onApply.flatMap fun command => shown command.sql

/-- The lines that a fragment has in a script, apart from its markers. -/
def content (f : Fragment) : List Text :=
  match f.condition with
  | none => f.appliedLines
  | some condition =>
    shown ("IF ".text ++ condition ++ " THEN".text) ++ f.appliedLines ++
      (if f.onSkip = [] then []
        else "ELSE".text :: f.onSkip.flatMap fun command => shown command.sql) ++
      ["END IF;".text]

/-- The lines that a fragment has in a script. -/
def scriptLines (f : Fragment) : List Text :=
  match f.origin with
  | none => f.content
  | some source => runMarker source :: f.content ++ [doneMarker source]

theorem flatMap_shown_applied (f : Fragment) : f.applied.flatMap shown = f.appliedLines := by
  rw [applied, List.flatMap_cons, Script.shown_dropEndWhile_newline, List.flatMap_map, appliedLines]

theorem flatMap_shown_skipped (f : Fragment) : f.skipped.flatMap shown =
    if f.onSkip = [] then []
    else "ELSE".text :: f.onSkip.flatMap fun command => shown command.sql := by
  unfold skipped
  by_cases hskip : f.onSkip = []
  · rw [if_pos hskip, if_pos (List.isEmpty_iff.2 hskip), List.flatMap_nil]
  · rw [if_neg hskip, if_neg (by simpa using hskip), List.flatMap_cons, List.flatMap_map]
    rfl

theorem flatMap_shown_guarded (f : Fragment) : f.guarded.flatMap shown = f.content := by
  unfold guarded content
  cases f.condition with
  | none => exact f.flatMap_shown_applied
  | some condition =>
    rw [List.flatMap_append, List.flatMap_append, List.flatMap_cons, flatMap_shown_applied,
      flatMap_shown_skipped]
    rfl

theorem shown_runMarker {source : Text} (h : Text.Unbroken source) :
    shown (runMarker source) = [runMarker source] :=
  Script.shown_bracketed (by decide) h (by decide) (by decide)

theorem shown_doneMarker {source : Text} (h : Text.Unbroken source) :
    shown (doneMarker source) = [doneMarker source] :=
  Script.shown_bracketed (by decide) h (by decide) (by decide)

theorem shown_render {f : Fragment} (h : ∀ source, f.origin = some source → Text.Unbroken source) :
    shown f.render = f.scriptLines := by
  unfold render parts scriptLines
  rw [Script.shown_unlines]
  cases horigin : f.origin with
  | none => exact f.flatMap_shown_guarded
  | some source =>
    rw [List.flatMap_append, List.flatMap_cons, shown_runMarker (h source horigin),
      flatMap_shown_guarded, List.flatMap_singleton, shown_doneMarker (h source horigin),
      List.singleton_append]

/-- A fragment whose markers can be told from its other lines.  The end of another
block than its own may stand there like any line. -/
structure Readable (f : Fragment) : Prop where
  source : ∀ source, f.origin = some source → Text.Unbroken source
  run : ∀ line ∈ f.content, ∀ source, source ≠ [] → line ≠ runMarker source
  done : ∀ source, f.origin = some source → doneMarker source ∉ f.content

theorem readable_iff {f : Fragment} :
    f.Readable ↔ (∀ source ∈ f.origin.toList, Text.Unbroken source ∧
      doneMarker source ∉ f.content) ∧ ∀ line ∈ f.content, Script.startsBlock? line = none := by
  simp only [Option.mem_toList, Script.startsBlock?_eq_none]
  constructor
  · intro h
    exact ⟨fun source hsource => ⟨h.source source hsource, h.done source hsource⟩, h.run⟩
  · rintro ⟨hsource, hrun⟩
    exact ⟨fun source h => (hsource source h).1, hrun, fun source h => (hsource source h).2⟩

instance (f : Fragment) : Decidable f.Readable :=
  decidable_of_iff _ readable_iff.symm

theorem ne_nil_of_origin {f : Fragment} {source : Text} (h : f.origin = some source) :
    source ≠ [] := by
  obtain ⟨_, hne⟩ := Option.filter_eq_some_iff.1 h
  simpa using hne

end Fragment

namespace Script

/-- A script whose markers can be told from its other lines. -/
structure Readable (s : Script) : Prop where
  tag : Text.Unbroken s.tag
  fragments : ∀ f ∈ s.fragments, f.Readable

/-! ## Reading lines -/

namespace Blocks

/-- The lines added to the block of a source. -/
def extend (blocks : Blocks) (source : Text) (lines : List Text) : Blocks :=
  blocks.map fun (other, old) => (other, if other = source then old ++ lines else old)

theorem extend_nil (blocks : Blocks) (source : Text) : blocks.extend source [] = blocks := by
  simp [extend]

theorem extend_append (blocks : Blocks) (source line : Text) (lines : List Text) :
    (blocks.append source line).extend source lines = blocks.extend source (line :: lines) := by
  unfold extend append
  rw [List.map_map]
  refine List.map_congr_left fun (other, old) _ => ?_
  by_cases hother : other = source
  · simp [hother]
  · simp [hother]

/-- The blocks with the lines of one more fragment. -/
def withFragment (blocks : Blocks) (f : Fragment) : Blocks :=
  match f.origin with
  | none => blocks
  | some source => (blocks.ensure source).extend source f.content

end Blocks

/-- The reading of some lines. -/
def readOn (state : Blocks × Option Text) (lines : List Text) : Blocks × Option Text :=
  lines.foldl (fun (read, opened) line => Blocks.read read opened line) state

theorem readOn_append (state : Blocks × Option Text) (lines more : List Text) :
    readOn state (lines ++ more) = readOn (readOn state lines) more :=
  List.foldl_append

theorem startsBlock?_doneMarker (source : Text) :
    startsBlock? (Fragment.doneMarker source) = none := by
  unfold Fragment.doneMarker
  rw [List.append_assoc]
  exact startsBlock?_of_opening (List.prefix_append _ _) (by decide)

variable {before : Blocks}

/-- Between blocks only a marker counts. -/
theorem readOn_outside {lines : List Text} (h : ∀ line ∈ lines, startsBlock? line = none) :
    readOn (before, none) lines = (before, none) := by
  induction lines with
  | nil => rfl
  | cons line rest ih =>
    obtain ⟨hline, hrest⟩ := List.forall_mem_cons.1 h
    have hread : before.read none line = (before, none) := by
      rw [Blocks.read, hline]
    exact (congrArg (readOn · rest) hread).trans (ih hrest)

/-- Inside a block every line counts that is no marker. -/
theorem readOn_inside {source : Text} {lines : List Text}
    (h : ∀ line ∈ lines, startsBlock? line = none) (hdone : Fragment.doneMarker source ∉ lines) :
    readOn (before, some source) lines = (before.extend source lines, some source) := by
  induction lines generalizing before with
  | nil => rw [Blocks.extend_nil]; rfl
  | cons line rest ih =>
    obtain ⟨hline, hrest⟩ := List.forall_mem_cons.1 h
    obtain ⟨hne, hdone⟩ := not_or.1 (List.mem_cons.not.1 hdone)
    have hread : before.read (some source) line = (before.append source line, some source) := by
      rw [Blocks.read, hline]
      exact if_neg (Ne.symm hne)
    rw [← Blocks.extend_append, ← ih hrest hdone]
    exact congrArg (readOn · rest) hread

/-- A block is read up to the first line that is its end, whatever follows. -/
theorem readOn_block {source : Text} {lines rest : List Text} (hne : source ≠ [])
    (hlines : ∀ line ∈ lines, startsBlock? line = none)
    (hdone : Fragment.doneMarker source ∉ lines)
    (hrest : ∀ line ∈ rest, startsBlock? line = none) :
    readOn (before, none)
        (Fragment.runMarker source :: lines ++ Fragment.doneMarker source :: rest) =
      ((before.ensure source).extend source lines, none) := by
  have hopen : before.read none (Fragment.runMarker source) =
      (before.ensure source, some source) := by
    rw [Blocks.read, startsBlock?_eq_some.2 ⟨hne, rfl⟩]
  have hclose : ∀ read : Blocks, read.read (some source) (Fragment.doneMarker source) =
      (read, none) := fun read => by
    rw [Blocks.read, startsBlock?_doneMarker]
    exact if_pos rfl
  calc readOn (before, none)
        (Fragment.runMarker source :: lines ++ Fragment.doneMarker source :: rest)
      = readOn (readOn (before.ensure source, some source) lines)
          (Fragment.doneMarker source :: rest) := by
        rw [← readOn_append, ← hopen]
        rfl
    _ = readOn ((before.ensure source).extend source lines, none) rest := by
        rw [readOn_inside hlines hdone, ← hclose]
        rfl
    _ = ((before.ensure source).extend source lines, none) := readOn_outside hrest

/-- A fragment takes the reading from one place between blocks to the next. -/
theorem readOn_scriptLines {f : Fragment} (h : f.Readable) :
    readOn (before, none) f.scriptLines = (before.withFragment f, none) := by
  have hrun : ∀ line ∈ f.content, startsBlock? line = none := fun line hline =>
    startsBlock?_eq_none.2 (h.run line hline)
  unfold Fragment.scriptLines Blocks.withFragment
  cases horigin : f.origin with
  | none => exact readOn_outside hrun
  | some source =>
    exact readOn_block (Fragment.ne_nil_of_origin horigin) hrun (h.done source horigin) nofun

/-! ## Reading fragments -/

/-- The sources of some fragments, in the order in which they first come, each
with the lines of its fragments. -/
def gathered (fs : List Fragment) : Blocks :=
  (fs.filterMap Fragment.origin).eraseDups.map fun source =>
    (source, (fs.filter (·.origin = some source)).flatMap Fragment.content)

theorem flatMap_content_of_not_mem {fs : List Fragment} {source : Text}
    (h : source ∉ fs.filterMap Fragment.origin) :
    (fs.filter (·.origin = some source)).flatMap Fragment.content = [] := by
  have hnone : fs.filter (·.origin = some source) = [] := by
    refine List.filter_eq_nil_iff.2 fun f hf horigin => h ?_
    exact List.mem_filterMap.2 ⟨f, hf, of_decide_eq_true horigin⟩
  rw [hnone, List.flatMap_nil]

/-- The source of one more fragment is in its block already or gets a new one. -/
theorem ensure_gathered (fs : List Fragment) (source : Text) :
    (gathered fs).ensure source = (fs.filterMap Fragment.origin ++ [source]).eraseDups.map
      fun other => (other, (fs.filter (·.origin = some other)).flatMap Fragment.content) := by
  unfold Blocks.ensure
  have hany : (gathered fs).any (·.1 = source) = true ↔ source ∈ fs.filterMap Fragment.origin := by
    simp [gathered]
  rw [List.eraseDups_append, List.map_append]
  by_cases hsource : source ∈ fs.filterMap Fragment.origin
  · have hold : [source].removeAll (fs.filterMap Fragment.origin) = [] := by
      simpa [List.removeAll] using hsource
    rw [if_pos (hany.2 hsource), hold]
    exact (List.append_nil _).symm
  · have hnew : [source].removeAll (fs.filterMap Fragment.origin) = [source] := by
      simpa [List.removeAll] using hsource
    rw [if_neg (hany.not.2 hsource), hnew]
    have hlines := flatMap_content_of_not_mem hsource
    exact congrArg (fun lines => gathered fs ++ [(source, lines)]) hlines.symm

theorem gathered_concat (fs : List Fragment) (f : Fragment) :
    gathered (fs ++ [f]) = (gathered fs).withFragment f := by
  cases horigin : f.origin with
  | none =>
    simp only [Blocks.withFragment, horigin]
    simp [gathered, horigin]
  | some source =>
    simp only [Blocks.withFragment, horigin]
    rw [ensure_gathered, Blocks.extend, List.map_map, gathered, List.filterMap_append]
    have hone : [f].filterMap Fragment.origin = [source] := by simp [horigin]
    rw [hone]
    refine List.map_congr_left fun other _ => ?_
    rw [List.filter_append, List.flatMap_append]
    by_cases hother : other = source
    · simp [hother, horigin]
    · simp [hother, horigin, Ne.symm hother]

/-- The reading of fragments one after the other gathers their blocks. -/
theorem readOn_flatMap {fs : List Fragment} (h : ∀ f ∈ fs, f.Readable) :
    readOn ([], none) (fs.flatMap Fragment.scriptLines) = (gathered fs, none) := by
  induction fs using List.reverseRecOn with
  | nil => rfl
  | append_singleton front f ih =>
    rw [List.flatMap_append, List.flatMap_singleton, readOn_append,
      ih fun g hg => h g (List.mem_append_left _ hg),
      readOn_scriptLines (h f (List.mem_append_right _ List.mem_cons_self)), gathered_concat]

/-! ## Reading scripts -/

/-- The lines of a text that finishing keeps. -/
def kept (t : Text) (minify : Bool) : List Text :=
  if minify then (shown t).filter (!"--".text.isPrefixOf ·) else shown t

theorem finish_eq (t : Text) (minify : Bool) :
    finish t minify = Text.unlines (kept t minify) ++ [.char '\n'] := rfl

theorem kept_subset_shown (t : Text) (minify : Bool) : kept t minify ⊆ shown t := by
  cases minify with
  | false => exact fun _ => id
  | true => exact List.filter_subset_self _

theorem unbroken_of_mem_kept {t line : Text} {minify : Bool} (h : line ∈ kept t minify) :
    Text.Unbroken line := by
  have hline := List.mem_filter.1 (kept_subset_shown t minify h)
  exact fun _ hc => Text.not_isLineBreak_of_mem_line hline.1 hc

theorem blocks_finish (t : Text) (minify : Bool) :
    blocks (finish t minify) = (readOn ([], none) (kept t minify)).1 := by
  rw [finish_eq]
  by_cases hkept : kept t minify = []
  · rw [hkept]
    rfl
  · unfold blocks
    rw [Text.lines_unlines hkept fun _ => unbroken_of_mem_kept]
    rfl

/-- A text that is minified has no markers left. -/
theorem startsBlock?_of_kept {t line : Text} (h : line ∈ kept t true) :
    startsBlock? line = none := by
  rw [startsBlock?_eq_none]
  rintro source _ rfl
  have hdashes : "--".text.isPrefixOf (Fragment.runMarker source) = true :=
    List.isPrefixOf_iff_prefix.2
      ((show "--".text <+: "-- RUN ".text by decide).trans (prefix_runMarker source))
  have hkept := (List.mem_filter.1 h).2
  rw [hdashes] at hkept
  cases hkept

theorem shown_header {s : Script} (h : Text.Unbroken s.tag) : shown s.header = [s.header] :=
  shown_bracketed (by decide) h (by decide) (by decide)

theorem shown_footer {s : Script} (h : Text.Unbroken s.tag) : shown s.footer = [s.footer] :=
  shown_bracketed (by decide) h (by decide) (by decide)

theorem startsBlock?_header (s : Script) : startsBlock? s.header = none := by
  unfold header
  rw [List.append_assoc]
  exact startsBlock?_of_opening (List.prefix_append _ _) (by decide)

theorem startsBlock?_footer (s : Script) : startsBlock? s.footer = none := by
  unfold footer
  rw [List.append_assoc]
  exact startsBlock?_of_opening (List.prefix_append _ _) (by decide)

variable {s : Script}

theorem shown_draft (htag : Text.Unbroken s.tag)
    (hsource : ∀ f ∈ s.ordered, ∀ source, f.origin = some source → Text.Unbroken source) :
    shown s.draft = [s.header] ++ s.ordered.flatMap Fragment.scriptLines ++ [s.footer] := by
  have hfragments : (s.ordered.map Fragment.render).flatMap shown =
      s.ordered.flatMap Fragment.scriptLines := by
    rw [List.flatMap_map]
    exact List.flatMap_congr fun f hf => Fragment.shown_render (hsource f hf)
  rw [draft, shown_unlines, List.flatMap_append, List.flatMap_cons, hfragments,
    List.flatMap_singleton, shown_header htag, shown_footer htag]

/-- The blocks of a script whose fragments close every block that they open. -/
theorem blocks_of_closed {found : Blocks} (htag : Text.Unbroken s.tag)
    (hsource : ∀ f ∈ s.ordered, ∀ source, f.origin = some source → Text.Unbroken source)
    (hread : readOn ([], none) (s.ordered.flatMap Fragment.scriptLines) = (found, none)) :
    blocks (s.render false) = found := by
  have houtside : ∀ (before : Blocks) {line : Text}, startsBlock? line = none →
      readOn (before, none) [line] = (before, none) := fun before line hline =>
    readOn_outside (List.forall_mem_singleton.2 hline)
  have hkept : kept s.draft false =
      [s.header] ++ s.ordered.flatMap Fragment.scriptLines ++ [s.footer] :=
    shown_draft htag hsource
  rw [render, blocks_finish, hkept, readOn_append, readOn_append, houtside _ s.startsBlock?_header,
    hread, houtside _ s.startsBlock?_footer]

namespace Readable

theorem of_ordered (h : s.Readable) : ∀ f ∈ s.ordered, f.Readable := fun f hf =>
  h.fragments f (s.ordered_perm.mem_iff.1 hf)

theorem unbroken_sources (h : s.Readable) :
    ∀ f ∈ s.ordered, ∀ source, f.origin = some source → Text.Unbroken source :=
  fun f hf => (h.of_ordered f hf).source

theorem blocks_render (h : s.Readable) : blocks (s.render false) = gathered s.ordered :=
  blocks_of_closed h.tag h.unbroken_sources (readOn_flatMap h.of_ordered)

end Readable

/-- Reading undoes rendering: the blocks of a script are its sources, in the order in
which it first comes to them, each with the lines of all its fragments.  A minified
script has none. -/
theorem blocks_of_rendered :
    (∀ s : Script, s.Readable → blocks (s.render false) = s.sources.eraseDups.map fun source =>
      (source, (s.ordered.filter (·.origin = some source)).flatMap Fragment.content)) ∧
      ∀ t : Text, blocks (finish t true) = [] := by
  refine ⟨fun s hs => hs.blocks_render, fun t => ?_⟩
  rw [blocks_finish, readOn_outside fun line hline => startsBlock?_of_kept hline]

/-- A function in both of its passes, added in the wrong order, and a fragment
that comes from no artifact. -/
def twoPasses : Script where
  tag := "pgm".text
  fragments :=
    [{ stage := .functionsChecked
       body := .plain "CREATE FUNCTION f()\n\n  RETURNS int;\n".text
       source := some "functions/f".text
       guard := some (.condition "outdated".text)
       onApply := [.notice "Applied functions/f".text]
       onSkip := [.notice "Skipped functions/f".text] },
     { stage := .checkBodies, body := .plain "SET LOCAL check_function_bodies = true;".text },
     { stage := .functionsUnchecked
       body := .plain "CREATE FUNCTION f();\n".text
       source := some "functions/f".text }]

theorem blocks_of_rendered_twoPasses :
    twoPasses.Readable ∧
      blocks (twoPasses.render false) =
        [("functions/f".text,
          ["CREATE FUNCTION f();".text,
           "IF outdated THEN".text,
           "CREATE FUNCTION f()".text,
           "  RETURNS int;".text,
           "RAISE NOTICE 'Applied functions/f';".text,
           "ELSE".text,
           "RAISE NOTICE 'Skipped functions/f';".text,
           "END IF;".text])] ∧
      blocks (finish twoPasses.draft true) = [] := by
  have h : twoPasses.Readable := ⟨by decide, by decide +kernel⟩
  have hordered : twoPasses.ordered = twoPasses.fragments.reverse := by
    simp [ordered, twoPasses, List.mergeSort, List.MergeSort.Internal.splitInTwo, Stage.number]
  refine ⟨h, (blocks_of_rendered.1 twoPasses h).trans ?_, blocks_of_rendered.2 _⟩
  rw [sources_eq, hordered]
  decide +kernel

end Script
end SchemaLedger
