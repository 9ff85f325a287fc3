import SchemaLedger.Proofs.Dump.Cleaned
import SchemaLedger.Proofs.Script.Verbatim
import SchemaLedger.Proofs.Sql.Dashes
import SchemaLedger.Proofs.Text.Infix

/-!
# Minified scripts

Minifying takes out the lines that begin with two dashes, whatever they begin in the
middle of.  The tokens stay the same unless such a line begins in a quotation, which
then lacks it, or opens or closes a comment that it begins in.
-/

namespace SchemaLedger
namespace Script

open Text (eachLine eachLine_append eachLine_cons eachLine_singleton unlines_concat_newline)
open Sql (Reading tokens dashes)

/-- A finished text with no lines at all has no tokens either. -/
theorem tokens_finish (t : Text) (minify : Bool) :
    tokens (finish t minify) = tokens (eachLine (kept t minify)) := by
  rw [finish_eq]
  by_cases hkept : kept t minify = []
  · rw [hkept]
    rfl
  · rw [unlines_concat_newline hkept]

/-! ## What a line begins in -/

/-- The reading of the lines in front of a line. -/
def readingAt (lines : List Text) (i : Nat) : Reading :=
  Sql.read (eachLine (lines.take i))

/-- No line that begins with two dashes begins in a quotation. -/
def CommentsUnquoted (lines : List Text) : Prop :=
  ∀ i (hi : i < lines.length), "--".text <+: lines[i] → (readingAt lines i).mode.quotes = false

/-- Lines that begin with two dashes inside a comment leave it as it was. -/
def CommentsKept (lines : List Text) : Prop :=
  ∀ i (hi : i < lines.length), "--".text <+: lines[i] →
    (readingAt lines i).mode.comments = true → readingAt lines (i + 1) = readingAt lines i

instance (lines : List Text) : Decidable (CommentsUnquoted lines) :=
  inferInstanceAs (Decidable (∀ i (_ : i < lines.length), _))

instance (lines : List Text) : Decidable (CommentsKept lines) :=
  inferInstanceAs (Decidable (∀ i (_ : i < lines.length), _))

variable {lines : List Text} {i : Nat}

theorem eachLine_take_succ (hi : i < lines.length) :
    eachLine (lines.take (i + 1)) = eachLine (lines.take i) ++ (lines[i] ++ [.char '\n']) := by
  rw [List.take_succ_eq_append_getElem hi, eachLine_append, eachLine_singleton]

theorem readingAt_succ (hi : i < lines.length) :
    readingAt lines (i + 1) = (readingAt lines i).run (lines[i] ++ [.char '\n']) := by
  rw [readingAt, eachLine_take_succ hi, Sql.read_append]
  rfl

theorem lineStart_readingAt (hi : i < lines.length) :
    Sql.Mode.LineStart (readingAt lines i).mode := by
  cases i with
  | zero => exact .code
  | succ i =>
    rw [readingAt_succ (Nat.lt_of_succ_lt hi)]
    exact Reading.lineStart_run_newline _ _

/-- A line without comment marks leaves the comment that it begins in as it was. -/
theorem commentsKept_of_no_marks (h : ∀ line ∈ lines, "--".text <+: line →
    ∀ mark ∈ ["/*".text, "*/".text], ¬mark <:+: line) : CommentsKept lines := by
  intro i hi hdashes hcomments
  have hmarks := h _ (List.getElem_mem hi) hdashes
  have hstart := lineStart_readingAt hi
  rw [readingAt_succ hi]
  generalize readingAt lines i = s at hstart hcomments ⊢
  obtain ⟨ts, mode⟩ := s
  cases hstart with
  | code => cases hcomments
  | quoted => cases hcomments
  | dollarQuoted => cases hcomments
  | blockComment depth =>
    obtain ⟨last, hrun⟩ := @Reading.run_blockComment ts depth none lines[i] hmarks
    rw [Reading.run_append, hrun]
    exact Reading.step_newline_blockComment

/-! ## Lines that are left out -/

theorem readingAt_succ_of_dashes (hi : i < lines.length) (hunbroken : Text.Unbroken lines[i])
    (hdashes : "--".text <+: lines[i]) (hunquoted : CommentsUnquoted lines)
    (hkept : CommentsKept lines) : readingAt lines (i + 1) = readingAt lines i := by
  have hstart := lineStart_readingAt hi
  have hquotes := hunquoted i hi hdashes
  have hcomments := hkept i hi hdashes
  rw [readingAt_succ hi] at hcomments ⊢
  generalize readingAt lines i = s at hstart hquotes hcomments ⊢
  obtain ⟨ts, mode⟩ := s
  cases hstart with
  | code => exact Reading.run_commentLine hdashes hunbroken
  | quoted => cases hquotes
  | dollarQuoted => cases hquotes
  | blockComment => exact hcomments rfl

theorem read_eachLine_filter (hunbroken : ∀ line ∈ lines, Text.Unbroken line)
    (hunquoted : CommentsUnquoted lines) (hkept : CommentsKept lines) :
    Sql.read (eachLine (lines.filter (!"--".text.isPrefixOf ·))) =
      Sql.read (eachLine lines) := by
  have hfront : ∀ i ≤ lines.length,
      Sql.read (eachLine ((lines.take i).filter (!"--".text.isPrefixOf ·))) =
        readingAt lines i := by
    intro i hi
    induction i with
    | zero => rfl
    | succ i ih =>
      have hline : i < lines.length := hi
      rw [List.take_succ_eq_append_getElem hline, List.filter_append]
      by_cases hdashes : "--".text <+: lines[i]
      · rw [readingAt_succ_of_dashes hline (hunbroken _ (List.getElem_mem hline)) hdashes hunquoted
            hkept, ← ih (Nat.le_of_lt hline), List.filter_cons_of_neg (by simpa using hdashes),
          List.filter_nil, List.append_nil]
      · rw [readingAt_succ hline, ← ih (Nat.le_of_lt hline),
          List.filter_cons_of_pos (by exact Text.not_isPrefixOf_iff.2 hdashes), List.filter_nil,
          eachLine_append, eachLine_singleton, Sql.read_append]
  have hall := hfront lines.length le_rfl
  rwa [List.take_length, readingAt, List.take_length] at hall

/-! ## Lines that a quotation loses -/

theorem dashes_infix_append_iff {line : Text} (hline : Text.Unbroken line) (t : Text) :
    dashes <:+: line ++ t ↔ dashes <:+: t :=
  Text.infix_append_left_iff fun hmem => absurd (hline '\n' hmem) (by decide)

/-- Without lines that begin with two dashes none are behind a line break. -/
theorem not_dashes_eachLine (hunbroken : ∀ line ∈ lines, Text.Unbroken line)
    (hdashes : ∀ line ∈ lines, ¬"--".text <+: line) : ¬dashes <:+: eachLine lines := by
  induction lines with
  | nil => decide
  | cons line rest ih =>
    obtain ⟨hline, hrest⟩ := List.forall_mem_cons.1 hunbroken
    obtain ⟨_, hdashes⟩ := List.forall_mem_cons.1 hdashes
    rw [eachLine_cons, dashes_infix_append_iff hline, List.infix_cons_iff, not_or]
    refine ⟨fun hprefix => ?_, ih hrest hdashes⟩
    have hfirst : "--".text <+: eachLine rest := (List.cons_prefix_cons.1 hprefix).2
    cases rest with
    | nil => exact absurd hfirst (by decide)
    | cons next more =>
      rw [eachLine_cons] at hfirst
      have hnext := (Text.prefix_append_separator_iff (by decide)).1 hfirst
      exact hdashes next List.mem_cons_self hnext

theorem eachLine_eq_take_append (hi : i < lines.length) :
    eachLine lines = eachLine (lines.take i) ++ (lines[i] ++ [.char '\n']) ++
      eachLine (lines.drop (i + 1)) := by
  rw [← eachLine_take_succ hi, ← eachLine_append, List.take_append_drop]

/-- A line that begins in a quotation leaves its dashes in the value. -/
theorem exists_dashed_of_quotes (hi : i < lines.length) (hdashes : "--".text <+: lines[i])
    (hquotes : (readingAt lines i).mode.quotes = true) :
    ∃ token ∈ tokens (eachLine lines), token.Dashed := by
  obtain ⟨rest, hrest⟩ := hdashes
  have hread : Sql.read (eachLine lines) = ((readingAt lines i).run "--".text).run
      (rest ++ [.char '\n'] ++ eachLine (lines.drop (i + 1))) := by
    rw [eachLine_eq_take_append hi, ← hrest, ← Reading.run_append, readingAt, ← Sql.read_append]
    simp only [List.append_assoc]
  refine Reading.exists_dashed_ended.2 ?_
  rw [hread]
  have htagged : ∀ t, ((readingAt lines i).run t).Tagged := fun t => by
    rw [readingAt, ← Sql.read_append]
    exact Reading.tagged_read _
  exact (Reading.dashed_of_lineStart (lineStart_readingAt hi) hquotes).run (htagged _) _

theorem commentsUnquoted_of_tokens_eq (hunbroken : ∀ line ∈ lines, Text.Unbroken line)
    (h : tokens (eachLine (lines.filter (!"--".text.isPrefixOf ·))) = tokens (eachLine lines)) :
    CommentsUnquoted lines := by
  intro i hi hdashes
  by_contra hquotes
  obtain ⟨token, htoken, hdashed⟩ :=
    exists_dashed_of_quotes hi hdashes (by simpa using hquotes)
  rw [← h] at htoken
  refine Sql.not_dashed_of_mem_tokens (not_dashes_eachLine ?_ ?_) token htoken hdashed
  · exact fun line hline => hunbroken line (List.mem_of_mem_filter hline)
  · intro line hline hprefix
    have hkept := (List.mem_filter.1 hline).2
    rw [List.isPrefixOf_iff_prefix.2 hprefix] at hkept
    cases hkept

/-! ## Scripts -/

/-- What a script runs, without the lines around it. -/
def inside (s : Script) : Text :=
  Text.unlines (s.ordered.map Fragment.render)

theorem kept_draft {s : Script} (htag : Text.Unbroken s.tag) (minify : Bool) :
    kept s.draft minify = s.header :: kept s.inside minify ++ [s.footer] := by
  have hshown : shown s.draft = s.header :: shown s.inside ++ [s.footer] := by
    rw [draft, inside, shown_unlines, shown_unlines, List.flatMap_append, List.flatMap_cons,
      List.flatMap_singleton, shown_header htag, shown_footer htag]
    rfl
  cases minify with
  | false => exact hshown
  | true =>
    have hheader : "--".text.isPrefixOf s.header = false := rfl
    have hfooter : "--".text.isPrefixOf s.footer = false := rfl
    show (shown s.draft).filter (!"--".text.isPrefixOf ·) = s.header ::
      (shown s.inside).filter (!"--".text.isPrefixOf ·) ++ [s.footer]
    rw [hshown, List.filter_append, List.filter_cons_of_pos (by rw [hheader]; rfl),
      List.filter_cons_of_pos (by rw [hfooter]; rfl), List.filter_nil]

theorem render_eq {s : Script} (htag : Text.Unbroken s.tag) (minify : Bool) :
    s.render minify = s.header ++ .char '\n' :: eachLine (kept s.inside minify) ++ s.footer ++
      [.char '\n'] := by
  rw [render, finish_eq, kept_draft htag, unlines_concat_newline (by simp)]
  simp [eachLine]

/-- Where a line that begins with two dashes begins in a quotation, minifying changes
the tokens; where none does, and none opens or closes a comment that it begins in, it
does not.  What a script runs is read like a text that was finished by itself. -/
theorem tokens_minified :
    (∀ t : Text,
      (tokens (finish t true) = tokens (finish t false) → CommentsUnquoted (kept t false)) ∧
        (CommentsUnquoted (kept t false) → CommentsKept (kept t false) →
          tokens (finish t true) = tokens (finish t false))) ∧
      ∀ s : Script, Text.Unbroken s.tag → ∃ block : Bool → Text,
        (∀ minify, s.render minify = s.header ++ .char '\n' :: block minify ++ s.footer ++
        [.char '\n']) ∧
          ∀ minify, tokens (block minify) = tokens (finish s.inside minify) := by
  refine ⟨fun t => ?_, fun s htag => ?_⟩
  · have hunbroken : ∀ line ∈ kept t false, Text.Unbroken line := fun _ => unbroken_of_mem_kept
    have hminified : kept t true = (kept t false).filter (!"--".text.isPrefixOf ·) := rfl
    rw [tokens_finish, tokens_finish, hminified]
    exact ⟨commentsUnquoted_of_tokens_eq hunbroken, fun hunquoted hkept =>
      congrArg Reading.ended (read_eachLine_filter hunbroken hunquoted hkept)⟩
  · exact ⟨fun minify => eachLine (kept s.inside minify), render_eq htag,
      fun minify => (tokens_finish s.inside minify).symm⟩

/-- A line of a comment that begins with two dashes, and a comment of one line. -/
def commentedText : Text :=
  "/* a\n-- b\n*/ SELECT\n-- c\n'd';\n".text

theorem tokens_minified_commented :
    CommentsUnquoted (kept commentedText false) ∧ CommentsKept (kept commentedText false) ∧
      tokens (finish commentedText true) = tokens (finish commentedText false) ∧
      Text.Unbroken twoPasses.tag ∧ ∃ block : Bool → Text,
        (∀ minify, twoPasses.render minify =
          twoPasses.header ++ .char '\n' :: block minify ++ twoPasses.footer ++ [.char '\n']) ∧
        ∀ minify, tokens (block minify) = tokens (finish twoPasses.inside minify) := by
  have hunquoted : CommentsUnquoted (kept commentedText false) := by decide +kernel
  have hkept : CommentsKept (kept commentedText false) :=
    commentsKept_of_no_marks (by decide +kernel)
  have htag : Text.Unbroken twoPasses.tag := by decide
  exact ⟨hunquoted, hkept, (tokens_minified.1 commentedText).2 hunquoted hkept, htag,
    tokens_minified.2 twoPasses htag⟩

/-- A constant of three lines loses one, and a comment its end. -/
theorem tokens_finish_ne :
    tokens (finish "SELECT 'a\n-- b\nc';\n".text true) ≠
        tokens (finish "SELECT 'a\n-- b\nc';\n".text false) ∧
      tokens (finish "/*\n-- */\nSELECT 1;\n".text true) ≠
        tokens (finish "/*\n-- */\nSELECT 1;\n".text false) := by
  decide +kernel

end Script
end SchemaLedger
