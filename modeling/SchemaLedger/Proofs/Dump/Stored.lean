import SchemaLedger.Artifact.Write
import SchemaLedger.Proofs.Dump.Renumber

/-!
# Statements as they are stored

The file of a statement is a dump of that statement alone.  Its header is the one
that the statement was given, and behind it stand the same words with the same
blanks between them, so the second scan takes the way of the first.
-/

namespace SchemaLedger
namespace Dump

open Text

/-! ## Tokens with the same texts -/

/-- Whole tokens in front of a word are cut apart as they were. -/
theorem wordsWithGaps_written_append {tokens : List Token} {w g : Text}
    (h : ∀ token ∈ tokens, token.Whole ∧ EndsBlank token.text) (hw : IsWord w) (hg : IsGap g) :
    wordsWithGaps (written tokens ++ (w ++ g)) = tokens.map Token.text ++ [w ++ g] := by
  induction tokens with
  | nil =>
    show wordsWithGaps (w ++ g) = [w ++ g]
    exact wordsWithGaps_word_append_gap hw hg
  | cons token rest ih =>
    obtain ⟨hwhole, hends⟩ := h token List.mem_cons_self
    have hrest := fun u hu => h u (List.mem_cons_of_mem token hu)
    have hstart : StartsWord (written rest ++ (w ++ g)) := by
      cases rest with
      | nil => exact hw.startsWord.append g
      | cons next more =>
        rw [written_cons, List.append_assoc]
        exact (hrest next List.mem_cons_self).1.startsWord.append _
    have hone : wordsWithGaps token.text = [token.text] := by
      obtain ⟨gap, hgap, htext⟩ := hwhole.gap
      rw [htext]
      exact wordsWithGaps_word_append_gap hwhole.isWord hgap
    rw [written_cons, List.append_assoc, wordsWithGaps_append hends hstart, hone, ih hrest]
    rfl

/-- A capture takes the same way over any tokens with the same texts. -/
theorem Progress.scan_of_path {first c : Capture} {tokens others : List Token}
    (h : Capture.Path first tokens c) (f : Int → Int)
    (htexts : others.map Token.text = tokens.map Token.text) (p : Progress) :
    (p.capturing (first.renumber f)).scan others = .ok (p.capturing (c.renumber f)) := by
  induction h generalizing others with
  | start =>
    obtain rfl := List.map_eq_nil_iff.1 htexts
    rfl
  | @next tokens c after token closes _ hmove hopen ih =>
    rw [List.map_append] at htexts
    obtain ⟨front, back, rfl, hfront, hback⟩ := List.map_eq_append_iff.1 htexts
    obtain ⟨other, rfl, hother⟩ := List.map_eq_singleton_iff.1 hback
    have hword : other.word = token.word := congrArg trim hother
    rw [scan_append_of_ok (ih hfront), scan_moves [] (hmove.of_text f other hother)
      fun hcloses => hword ▸ hopen hcloses]
    rfl

/-! ## The file of a statement -/

/-- The header that a statement is given opens the same capture again. -/
theorem scan_opening : ∀ header ∈ headers,
    Progress.scan {} (tokens header.opening) = .ok ⟨.capturing (.opened header 1), [], []⟩ := by
  decide +kernel

/-- The tokens of a stored statement: the header, and behind it the texts that the
statement had in its dump. -/
theorem tokens_stored {header : Header} {inner : List Token} {word : Text}
    (hheader : header ∈ headers) (hinner : ∀ token ∈ inner, token.Whole ∧ EndsBlank token.text)
    (hword : IsWord word) :
    ∃ others line, tokens (header.opening ++ (written inner ++ (word ++ [.char '\n']))) =
        tokens header.opening ++ (others ++ [⟨word ++ [.char '\n'], line⟩]) ∧
      others.map Token.text = inner.map Token.text := by
  have hgap : IsGap [.char '\n'] := isGap_singleton rfl
  have hcut := wordsWithGaps_written_append hinner hword hgap
  have hstart : StartsWord (written inner ++ (word ++ [.char '\n'])) := by
    cases inner with
    | nil => exact hword.startsWord.append [.char '\n']
    | cons token rest =>
      rw [written_cons, List.append_assoc]
      exact (hinner token List.mem_cons_self).1.startsWord.append _
  rw [tokens_append (.inr (endsBlank_opening header hheader)) hstart, tokensFrom, hcut,
    numbered_append]
  exact ⟨_, _, rfl, map_text_numbered _ _⟩

/-- The scan of a stored statement takes the way of the first scan. -/
theorem scan_stored {header : Header} {number : Int} {inner : List Token} {last : Token}
    {c after : Capture} (hheader : header ∈ headers)
    (hpath : Capture.Path (.opened header number) inner c) (hmove : c.Moves last after true)
    (hends : endsStatement last.word = true)
    (hinner : ∀ token ∈ inner, token.Whole ∧ EndsBlank token.text) (hlast : IsWord last.word) :
    Progress.scan {} (tokens (header.opening ++ (written inner ++ (last.word ++ [.char '\n'])))) =
      .ok ⟨.scanning, [], [⟨after.kind, after.name,
        header.opening ++ (written inner ++ (last.word ++ [.char '\n'])), 1⟩]⟩ := by
  obtain ⟨others, line, htokens, htexts⟩ := tokens_stored hheader hinner hlast
  have hword : (Token.mk (last.word ++ [.char '\n']) line).word = last.word :=
    trim_word_append_gap hlast (isGap_singleton rfl)
  have hopening : Progress.scan {} (tokens header.opening) =
      .ok (Progress.capturing {} (.renumber (fun _ => 1) (.opened header number))) :=
    scan_opening header hheader
  have hrun := Progress.scan_of_path hpath (fun _ => 1) htexts {}
  have hend := hmove.of_word (fun _ => 1) ⟨last.word ++ [.char '\n'], line⟩ hword
  have htext : c.text ++ (last.word ++ [.char '\n']) =
      header.opening ++ (written inner ++ (last.word ++ [.char '\n'])) := by
    rw [hpath.text, List.append_assoc]
    rfl
  rw [htokens, Progress.scan_append_of_ok hopening, Progress.scan_append_of_ok hrun,
    Progress.scan_ends [] hend (hword.symm ▸ hends), ← htext]
  rfl

theorem stored_eq {st : Statement} {front word gap : Text} (hword : IsWord word)
    (hgap : IsGap gap) (h : st.text = front ++ (word ++ gap)) :
    Artifact.stored st = front ++ (word ++ [.char '\n']) := by
  rw [Artifact.stored, h, ← List.append_assoc, trimRight_append_gap hgap,
    trimRight_append_word hword, List.append_assoc]

/-- The file of a statement that was taken out of a dump is split into this
statement and nothing else. -/
theorem split_stored {dump : Text} {noise : List Text} {s : Split} (h : split dump noise = .ok s)
    {st : Statement} (hst : st ∈ s.statements) (other : List Text) :
    split (Artifact.stored st) other =
      .ok ⟨[⟨st.kind, st.name, Artifact.stored st, 1⟩], []⟩ := by
  obtain ⟨p, hscan, hstatements⟩ := exists_scan_of_split h
  obtain ⟨before, create, words, inner, last, behind, header, c, after, hread, hbegins, hpath,
    hmove, hends, rfl⟩ := exists_path_of_mem hscan (hstatements ▸ hst)
  have hthere : last ∈ tokens dump := by simp [hread]
  have hlast : last.Whole := whole_of_mem_tokens hthere
  have hinner : ∀ token ∈ inner, token.Whole ∧ EndsBlank token.text := by
    intro token htoken
    have hthere : token ∈ (tokens dump).dropLast := by
      rw [hread, List.dropLast_append_of_ne_nil (List.cons_ne_nil _ _)]
      simp [htoken]
    exact ⟨whole_of_mem_tokens (List.mem_of_mem_dropLast hthere),
      endsBlank_of_mem_dropLast_tokens hthere⟩
  obtain ⟨gap, hgap, htext⟩ := hlast.gap
  have hstored : Artifact.stored after.statement =
      header.opening ++ (written inner ++ (last.word ++ [.char '\n'])) := by
    rw [← List.append_assoc]
    refine stored_eq hlast.isWord hgap ?_
    show after.text = _
    rw [hmove.text, hpath.text, ← htext]
    rfl
  have hagain := scan_stored hbegins.mem hpath hmove hends hinner hlast.isWord
  rw [← hstored] at hagain
  have hlead : leadingBlanks (Artifact.stored after.statement) = [] := by
    rw [hstored]
    exact leadingBlanks_of_startsWord ((startsWord_opening header hbegins.mem).append _)
  rw [split, separate_of_scanning hagain rfl, hlead]
  rfl

/-- A function with an atomic body, blanks around it and a residual on both
sides. -/
def blankAtomic : Text :=
  ("SET a;\n\ncreate\n  function f() RETURNS int BEGIN ATOMIC\n SELECT 1;\n END; \t\n\n" ++
    "SET b;").text

def atomicStatement : Statement :=
  ⟨.function, "f".text,
    "CREATE OR REPLACE FUNCTION f() RETURNS int BEGIN ATOMIC\n SELECT 1;\n END; \t\n\n".text, 3⟩

theorem split_stored_atomic :
    split blankAtomic [] = .ok ⟨[atomicStatement], "SET a;\nSET b;\n".text⟩ ∧
      split (Artifact.stored atomicStatement) defaultNoise =
        .ok ⟨[⟨.function, "f".text,
          "CREATE OR REPLACE FUNCTION f() RETURNS int BEGIN ATOMIC\n SELECT 1;\n END;\n".text, 1⟩],
          []⟩ := by
  have hsplit : split blankAtomic [] = .ok ⟨[atomicStatement], "SET a;\nSET b;\n".text⟩ := by
    decide +kernel
  have hstored : Artifact.stored atomicStatement =
      "CREATE OR REPLACE FUNCTION f() RETURNS int BEGIN ATOMIC\n SELECT 1;\n END;\n".text := by
    decide +kernel
  refine ⟨hsplit, (split_stored hsplit List.mem_cons_self defaultNoise).trans ?_⟩
  rw [hstored]
  rfl

end Dump
end SchemaLedger
