import SchemaLedger.Proofs.Dump.Capture
import SchemaLedger.Proofs.Dump.Item

/-!
# Runs of a capture

What a scan does with a row of tokens while a statement is captured: it goes on
with the capture as long as no token changes the phase, and it completes the
statement at the first closing semicolon behind the body.
-/

namespace SchemaLedger
namespace Dump

open Text

namespace Capture

/-- The capture with more tokens in its text. -/
def takeAll (c : Capture) (tokens : List Token) : Capture :=
  { c with text := c.text ++ written tokens }

theorem takeAll_nil (c : Capture) : c.takeAll [] = c := by
  simp [takeAll, written_nil]

theorem takeAll_cons (c : Capture) (token : Token) (rest : List Token) :
    (c.take token).takeAll rest = c.takeAll (token :: rest) := by
  simp [takeAll, take, written_cons]

theorem outcome_of_open {after : Capture} {word : Text} {closes : Bool}
    (h : closes = true → endsStatement word = false) :
    after.outcome word closes = ⟨.capturing after, [], none⟩ := by
  cases closes with
  | false => rfl
  | true => simp [outcome, settle, h rfl]

theorem outcome_of_ends {after : Capture} {word : Text} (h : endsStatement word = true) :
    after.outcome word true = ⟨.scanning, [], some after.statement⟩ := by
  simp [outcome, settle, h]

end Capture

namespace Progress

/-- The same progress while a statement is captured. -/
def capturing (p : Progress) (c : Capture) : Progress :=
  { p with state := .capturing c }

/-- The same progress with one more statement. -/
def completed (p : Progress) (s : Statement) : Progress :=
  ⟨.scanning, p.residual, p.statements ++ [s]⟩

theorem scan_moves {p : Progress} {c after : Capture} {token : Token} {closes : Bool}
    (rest : List Token) (h : c.Moves token after closes)
    (hopen : closes = true → endsStatement token.word = false) :
    (p.capturing c).scan (token :: rest) = (p.capturing after).scan rest := by
  have hstep : step (p.capturing c).state token = .ok ⟨.capturing after, [], none⟩ := by
    rw [← Capture.outcome_of_open hopen]
    exact Capture.step_of_moves h
  rw [scan_cons rest hstep]
  simp [add, capturing]

theorem scan_ends {p : Progress} {c after : Capture} {token : Token}
    (rest : List Token) (h : c.Moves token after true) (hends : endsStatement token.word = true) :
    (p.capturing c).scan (token :: rest) = (p.completed after.statement).scan rest := by
  have hstep : step (p.capturing c).state token = .ok ⟨.scanning, [], some after.statement⟩ := by
    rw [← Capture.outcome_of_ends hends]
    exact Capture.step_of_moves h
  rw [scan_cons rest hstep]
  simp [add, capturing, completed]

/-- Tokens that only lengthen a capture.  Whether one does may depend on the
tokens in front of it. -/
theorem scan_takeAll {p : Progress} {c : Capture} {tokens : List Token}
    (h : ∀ front token back, tokens = front ++ token :: back →
      ∃ closes, (c.takeAll front).Moves token ((c.takeAll front).take token) closes ∧
        (closes = true → endsStatement token.word = false)) :
    (p.capturing c).scan tokens = .ok (p.capturing (c.takeAll tokens)) := by
  induction tokens generalizing c with
  | nil => rw [Capture.takeAll_nil, scan]
  | cons token rest ih =>
    obtain ⟨closes, hmove, hopen⟩ := h [] token rest rfl
    rw [Capture.takeAll_nil] at hmove
    rw [scan_moves rest hmove hopen, ih, Capture.takeAll_cons]
    intro front next back hsplit
    have := h (token :: front) next back (by rw [hsplit, List.cons_append])
    rwa [← Capture.takeAll_cons] at this

/-- From a token on that may close the statement, exactly the last one does. -/
theorem scan_closing {p : Progress} {c after : Capture} {token : Token} {rest : List Token}
    (h : c.Moves token after true) (hphase : after.phase = .terminator)
    (hcloses : ClosesAtLast (token.word :: rest.map Token.word)) :
    (p.capturing c).scan (token :: rest) =
      .ok (p.completed (after.takeAll rest).statement) := by
  induction rest generalizing c after token with
  | nil =>
    rw [List.map_nil, closesAtLast_singleton] at hcloses
    rw [scan_ends [] h hcloses, Capture.takeAll_nil, scan]
  | cons next more ih =>
    rw [List.map_cons, closesAtLast_cons_cons] at hcloses
    rw [scan_moves (next :: more) h fun _ => hcloses.1, ih (.behind hphase) hphase hcloses.2,
      Capture.takeAll_cons]

/-! ## The quoted body -/

section Quoted

variable {p : Progress} {c : Capture} {tag body : Text}

/-- The token with the closing quote completes the statement together with
those behind it. -/
theorem scan_closing_quote (after : Capture) {back first gap more : Text} {line : Int}
    (htag : IsTagName tag) (hback : ∀ x ∈ back, isBlank x = false)
    (hfirst : ∀ x ∈ first, isBlank x = false) (hgap : IsGap gap) (hne : gap ≠ [])
    (hmore : more = [] ∨ StartsWord more)
    (hcloses : ClosesAtLast (words (first ++ gap ++ more)))
    (hmove : ∀ token : Token, token.word = back ++ dollarQuote tag ++ first →
      c.Moves token (after.take token) true)
    (hphase : after.phase = .terminator) :
    (p.capturing c).scan (tokensFrom line (back ++ dollarQuote tag ++ first ++ gap ++ more)) =
      .ok (p.completed ⟨after.kind, after.name,
        after.text ++ (back ++ dollarQuote tag ++ first ++ gap ++ more), after.line⟩) := by
  have hquote := isWord_dollarQuote htag
  have hword : IsWord (back ++ dollarQuote tag ++ first) := by
    refine ⟨by simp [hquote.1], fun x hx => ?_⟩
    simp only [List.mem_append] at hx
    rcases hx with (hx | hx) | hx
    · exact hback x hx
    · exact hquote.2 x hx
    · exact hfirst x hx
  rw [tokensFrom_word_append_gap_append line hword hgap hne hmore]
  have htoken : (Token.mk (back ++ dollarQuote tag ++ first ++ gap) line).word =
      back ++ dollarQuote tag ++ first := trim_word_append_gap hword hgap
  have hrest : ∀ line, (tokensFrom line more).map Token.word = words more := fun line => by
    rcases hmore with rfl | hstart
    · rfl
    · exact map_word_tokensFrom line hstart
  have hclosing : ClosesAtLast ((back ++ dollarQuote tag ++ first) :: words more) := by
    by_cases hnil : first = []
    · -- the quote itself stands at the end of its word, and some word has to follow
      subst hnil
      rw [List.nil_append, words_gap_append hgap] at hcloses
      cases hwords : words more with
      | nil => simp [hwords, ClosesAtLast] at hcloses
      | cons next rest =>
        rw [hwords] at hcloses
        refine closesAtLast_cons_cons.2 ⟨?_, hcloses⟩
        rw [List.append_nil]
        exact endsStatement_append_dollarQuote back tag
    · rw [words_word_append_gap_append ⟨hnil, hfirst⟩ hgap hne hmore] at hcloses
      refine (closesAtLast_cons_congr ?_).1 hcloses
      unfold endsStatement
      rw [List.getLast?_append_of_ne_nil _ hnil]
  rw [scan_closing (hmove _ htoken) hphase (by rw [htoken, hrest]; exact hclosing)]
  simp [Capture.takeAll, Capture.take, Capture.statement, written_tokensFrom]

/-- A text that reaches into the body up to a blank opens the body and leaves it
open. -/
theorem scan_opening_quote {inner : Text} (line : Int) (hphase : c.phase = .delimiter)
    (htag : IsTagName tag) (hfree : ¬ dollarQuote tag <:+: inner) (hinner : EndsBlank inner) :
    (p.capturing c).scan (tokensFrom line (dollarQuote tag ++ inner)) =
      .ok (p.capturing { c with
        text := c.text ++ (dollarQuote tag ++ inner)
        delimiter := dollarQuote tag
        phase := .body }) := by
  have hquote := isWord_dollarQuote htag
  obtain ⟨first, gap, more, rfl, hfirst, hgap, hne, hmore⟩ := exists_first_word hinner
  have hword : IsWord (dollarQuote tag ++ first) := by
    refine ⟨by simp [hquote.1], fun x hx => ?_⟩
    rcases List.mem_append.1 hx with hx | hx
    · exact hquote.2 x hx
    · exact hfirst x hx
  have hshape : dollarQuote tag ++ (first ++ gap ++ more) =
      dollarQuote tag ++ first ++ gap ++ more := by
    simp only [List.append_assoc]
  have htoken : (Token.mk (dollarQuote tag ++ first ++ gap) line).word =
      dollarQuote tag ++ first := trim_word_append_gap hword hgap
  have hopens : c.Moves ⟨dollarQuote tag ++ first ++ gap, line⟩
      { c.take ⟨dollarQuote tag ++ first ++ gap, line⟩ with
        delimiter := dollarQuote tag, phase := .body } false := by
    refine .opens (dollarQuote tag) hphase ?_ ?_
    · rw [htoken]
      exact dollarTag?_dollarQuote_append htag first
    · rw [htoken, List.drop_left, hasInfix_eq_false_iff]
      exact fun hpart => hfree (hpart.trans ⟨[], gap ++ more, by simp⟩)
  rw [hshape, tokensFrom_word_append_gap_append line hword hgap hne (hmore.imp id And.left),
    scan_moves _ hopens nofun, scan_takeAll]
  · simp [Capture.takeAll, Capture.take, written_tokensFrom]
  · intro front token back hsplit
    refine ⟨false, .insideBody rfl ?_, nofun⟩
    rw [hasInfix_eq_false_iff]
    refine fun hpart => hfree (hpart.trans ?_)
    have hmem : token ∈ tokensFrom (line + newlines (dollarQuote tag ++ first ++ gap)) more := by
      rw [hsplit]
      simp
    have hstart : StartsWord more := by
      rcases hmore with rfl | ⟨hstart, _⟩
      · cases hmem
      · exact hstart
    obtain ⟨g, _, htext⟩ := (whole_of_mem_tokensFrom hstart hmem).gap
    have hin : token.text <:+: more := by
      have := List.infix_of_mem_flatten (text_mem_of_mem_tokensFrom hmem)
      rwa [flatten_wordsWithGaps] at this
    have hsub : token.word <:+: token.text := ⟨[], g, htext.symm⟩
    exact (hsub.trans hin).trans ⟨first ++ gap, [], by simp⟩

/-- A body and what follows it complete the statement, wherever the quotes
stand in their words. -/
theorem scan_quoted {tail : Text} {line : Int} (hphase : c.phase = .delimiter)
    (htag : IsTagName tag) (hfree : ¬ dollarQuote tag <:+: body) (htail : EndsBlank tail)
    (hcloses : ClosesAtLast (words tail)) :
    (p.capturing c).scan
        (tokensFrom line (dollarQuote tag ++ body ++ dollarQuote tag ++ tail)) =
      .ok (p.completed ⟨c.kind, c.name,
        c.text ++ (dollarQuote tag ++ body ++ dollarQuote tag ++ tail), c.line⟩) := by
  have hquote := isWord_dollarQuote htag
  obtain ⟨first, gap, more, rfl, hfirst, hgap, hne, hmore⟩ := exists_first_word htail
  have hmoreStarts : more = [] ∨ StartsWord more := hmore.imp id And.left
  -- the word of the closing quote begins somewhere in front of it
  obtain ⟨front, back, hcut, hfront, hback⟩ := exists_front_append_word (dollarQuote tag ++ body)
  have hshape : dollarQuote tag ++ body ++ dollarQuote tag ++ (first ++ gap ++ more) =
      front ++ (back ++ dollarQuote tag ++ first ++ gap ++ more) := by
    rw [hcut]
    simp only [List.append_assoc]
  rcases hfront with rfl | hfront
  · -- it is the word of the opening quote
    rw [List.nil_append] at hcut hshape
    rw [hshape]
    refine scan_closing_quote { c with delimiter := dollarQuote tag, phase := .terminator }
      htag hback hfirst hgap hne hmoreStarts hcloses (fun token htoken => ?_) rfl
    have htext : token.word = dollarQuote tag ++ (body ++ dollarQuote tag ++ first) := by
      rw [htoken, ← hcut]
      simp only [List.append_assoc]
    refine .quotes (dollarQuote tag) hphase ?_ ?_
    · rw [htext]
      exact dollarTag?_dollarQuote_append htag _
    · rw [htext, List.drop_left, hasInfix_iff]
      exact ⟨body, first, rfl⟩
  · -- it is a later word: the opening quote lies in the front, which holds no other quote
    obtain ⟨inner, rfl, rfl⟩ : ∃ inner, front = dollarQuote tag ++ inner ∧
        body = inner ++ back := by
      rcases List.append_eq_append_iff.1 hcut with ⟨inner, h₁, h₂⟩ | ⟨inner, h₁, _⟩
      · exact ⟨inner, h₁, h₂⟩
      · have hword : IsWord front := ⟨hfront.ne_nil, fun x hx =>
          hquote.2 x (h₁ ▸ List.mem_append_left _ hx)⟩
        exact absurd hfront (not_endsBlank_of_isWord hword)
    have hinnerNil : inner ≠ [] := by
      rintro rfl
      rw [List.append_nil] at hfront
      exact not_endsBlank_of_isWord hquote hfront
    have hinner : EndsBlank inner := (endsBlank_append hinnerNil).1 hfront
    have hinnerFree : ¬ dollarQuote tag <:+: inner := fun hpart =>
      hfree (hpart.trans (List.prefix_append inner back).isInfix)
    have hclosing : StartsWord (back ++ dollarQuote tag ++ first ++ gap ++ more) := by
      simp only [List.append_assoc]
      cases back with
      | nil => exact hquote.startsWord.append _
      | cons x rest => exact startsWord_cons.2 (hback x List.mem_cons_self)
    rw [hshape, tokensFrom_append line hfront hclosing,
      scan_append_of_ok (scan_opening_quote line hphase htag hinnerFree hinner),
      scan_closing_quote
        { c with
          text := c.text ++ (dollarQuote tag ++ inner)
          delimiter := dollarQuote tag
          phase := .terminator }
        htag hback hfirst hgap hne hmoreStarts hcloses (fun token htoken => ?_) rfl]
    · simp only [List.append_assoc]
    · refine .endsBody rfl ?_
      rw [htoken, hasInfix_iff]
      exact ⟨back, first, rfl⟩

end Quoted

end Progress
end Dump
end SchemaLedger
