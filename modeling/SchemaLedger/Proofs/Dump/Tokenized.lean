import SchemaLedger.Proofs.Dump.Token

/-!
# The only tokens of a text

What the tokens of a text are, apart from any way to find them: blanks in front, and behind
them words, each with the blanks that follow it and the number of its line.  A text is put
together like that in one way only, so tokens that stand one behind the other are the
tokens of what is written in them.
-/

namespace SchemaLedger
namespace Dump

open Text

variable {t leading : Text} {tokens part : List Token} {line : Int}

/-- The token stands behind the text `before` and in front of the tokens `behind`. -/
structure Token.StandsIn (before : Text) (token : Token) (behind : List Token) : Prop where
  isWord : IsWord token.word
  gap : ∃ g, IsGap g ∧ (behind ≠ [] → g ≠ []) ∧ token.text = token.word ++ g
  line : token.line = 1 + newlines before

/-- The text consists of blanks and of these tokens behind them. -/
structure Tokenized (t leading : Text) (tokens : List Token) : Prop where
  isGap : IsGap leading
  text : leading ++ written tokens = t
  stands : ∀ front token behind, tokens = front ++ token :: behind →
    token.StandsIn (leading ++ written front) behind

/-- One after the other through a list: the first element, and then the others behind it. -/
theorem forall_split_cons {α : Type} {P : List α → α → List α → Prop} {a : α} {rest : List α} :
    (∀ front x behind, a :: rest = front ++ x :: behind → P front x behind) ↔
      P [] a rest ∧ ∀ front x behind, rest = front ++ x :: behind → P (a :: front) x behind := by
  constructor
  · intro h
    refine ⟨h [] a rest rfl, fun front x behind hrest => h (a :: front) x behind ?_⟩
    rw [hrest, List.cons_append]
  · rintro ⟨hfirst, hothers⟩ front x behind hsplit
    cases front with
    | nil =>
      cases hsplit
      exact hfirst
    | cons b front =>
      obtain ⟨rfl, hrest⟩ := List.cons.inj hsplit
      exact hothers front x behind hrest

/-! ## Lines -/

/-- Tokens are numbered as they are when each stands on the line behind what is written in
front of it. -/
theorem numbered_map_text_eq_iff : numbered line (tokens.map Token.text) = tokens ↔
    ∀ front token behind, tokens = front ++ token :: behind →
      token.line = line + newlines (written front) := by
  induction tokens generalizing line with
  | nil => simp [numbered]
  | cons token rest ih =>
    have hfirst : (⟨token.text, line⟩ : Token) = token ↔
        token.line = line + newlines (written []) := by
      obtain ⟨text, number⟩ := token
      rw [Token.mk.injEq, written_nil]
      simp [newlines, eq_comm]
    have hlines : ∀ front, line + newlines token.text + newlines (written front) =
        line + newlines (written (token :: front)) := fun front => by
      rw [written_cons, newlines_append]
      omega
    rw [List.map_cons, numbered, List.cons.injEq, hfirst, ih, forall_split_cons]
    simp only [hlines]

/-! ## Texts -/

/-- Each token is a word with blanks behind it, at least one unless it is the last. -/
def Spaced (tokens : List Token) : Prop :=
  ∀ front token behind, tokens = front ++ token :: behind →
    ∃ w g, token.text = w ++ g ∧ IsWord w ∧ IsGap g ∧ (behind ≠ [] → g ≠ [])

theorem Spaced.of_part (h : Spaced tokens) (hpart : part <:+: tokens) : Spaced part := by
  obtain ⟨before, after, rfl⟩ := hpart
  rintro front token behind rfl
  obtain ⟨w, g, htext, hw, hg, hne⟩ := h (before ++ front) token (behind ++ after) (by simp)
  exact ⟨w, g, htext, hw, hg, fun hbehind => hne (by simp [hbehind])⟩

theorem Spaced.startsWord (h : Spaced tokens) :
    written tokens = [] ∨ StartsWord (written tokens) := by
  cases tokens with
  | nil => exact .inl rfl
  | cons token rest =>
    obtain ⟨w, g, htext, hw, _⟩ := h [] token rest rfl
    rw [written_cons, htext]
    exact .inr ((hw.startsWord.append g).append _)

/-- Words with blanks between them are cut where they were put together. -/
theorem Spaced.wordsWithGaps_written (h : Spaced tokens) :
    wordsWithGaps (written tokens) = tokens.map Token.text := by
  induction tokens with
  | nil => rfl
  | cons token rest ih =>
    obtain ⟨⟨w, g, htext, hw, hg, hne⟩, hrest⟩ := forall_split_cons.1 h
    have hspaced : Spaced rest := hrest
    have hfirst : wordsWithGaps token.text = [token.text] := by
      rw [htext, wordsWithGaps_word_append_gap hw hg]
    rw [written_cons, List.map_cons]
    rcases hspaced.startsWord with hnil | hstart
    · rw [← ih hspaced, hnil, List.append_nil, hfirst]
      rfl
    · have hbehind : rest ≠ [] := by
        rintro rfl
        exact hstart.ne_nil rfl
      have hend : EndsBlank token.text := by
        rw [htext]
        exact (endsBlank_of_isGap (hne hbehind) hg).append w
      rw [wordsWithGaps_append hend hstart, hfirst, ih hspaced, List.singleton_append]

theorem Spaced.map_text_tokens (h : Spaced tokens) :
    (Dump.tokens (written tokens)).map Token.text = tokens.map Token.text := by
  rw [tokens_of_startsWord h.startsWord, tokensFrom, map_text_numbered, h.wordsWithGaps_written]

/-! ## Both ways -/

theorem Tokenized.spaced (h : Tokenized t leading tokens) : Spaced tokens := by
  intro front token behind hsplit
  obtain ⟨hw, ⟨g, hg, hne, htext⟩, _⟩ := h.stands front token behind hsplit
  exact ⟨token.word, g, htext, hw, hg, hne⟩

theorem leadingBlanks_of_isGap {g : Text} (h : IsGap g) : leadingBlanks g = g :=
  List.takeWhile_eq_self_iff.2 h

theorem Tokenized.eq_leadingBlanks (h : Tokenized t leading tokens) :
    leading = leadingBlanks t := by
  have hgap := leadingBlanks_of_isGap h.isGap
  rw [← h.text]
  rcases h.spaced.startsWord with hnil | hstart
  · rw [hnil, List.append_nil, hgap]
  · rw [leadingBlanks_append hstart, hgap]

theorem Tokenized.eq_tokens (h : Tokenized t leading tokens) : tokens = Dump.tokens t := by
  have htrim : trimLeft t = written tokens := by
    rw [← h.text, trimLeft_gap_append h.isGap]
    rcases h.spaced.startsWord with hnil | hstart
    · rw [hnil]
      rfl
    · exact trimLeft_of_startsWord hstart
  have hlines : numbered (1 + newlines leading) (tokens.map Token.text) = tokens := by
    refine numbered_map_text_eq_iff.2 fun front token behind hsplit => ?_
    rw [(h.stands front token behind hsplit).line, newlines_append]
    omega
  rw [tokens_eq_tokensFrom, htrim, ← h.eq_leadingBlanks, tokensFrom,
    h.spaced.wordsWithGaps_written, hlines]

theorem tokenized_tokens (t : Text) : Tokenized t (leadingBlanks t) (Dump.tokens t) where
  isGap := isGap_leadingBlanks t
  text := by rw [tokens_eq_tokensFrom, written_tokensFrom, leadingBlanks_append_trimLeft]
  stands := by
    intro front token behind hsplit
    have hmem : token ∈ Dump.tokens t := by simp [hsplit]
    obtain ⟨hw, g, hg, htext⟩ := whole_of_mem_tokens hmem
    refine ⟨hw, ⟨g, hg, ?_, htext⟩, ?_⟩
    · rintro hbehind rfl
      have hfollowed : token ∈ (Dump.tokens t).dropLast := by
        rw [hsplit, List.dropLast_append_of_ne_nil (List.cons_ne_nil _ _),
          List.dropLast_cons_of_ne_nil hbehind]
        simp
      have hend := endsBlank_of_mem_dropLast_tokens hfollowed
      rw [htext, List.append_nil] at hend
      exact not_endsBlank_of_isWord hw hend
    · have hlines : numbered (1 + newlines (leadingBlanks t)) ((Dump.tokens t).map Token.text) =
          Dump.tokens t := by
        rw [tokens_eq_tokensFrom, tokensFrom, map_text_numbered]
      rw [numbered_map_text_eq_iff.1 hlines front token behind hsplit, newlines_append]
      omega

/-- The blanks in front of a text and its tokens are the one way to take the text apart into
blanks and words with blanks behind them, each with its line, and the tokens of what some
neighbours among them put together are these neighbours again. -/
theorem tokens_only (t : Text) :
    (∀ leading tokens, Tokenized t leading tokens ↔
      leading = leadingBlanks t ∧ tokens = Dump.tokens t) ∧
      ∀ part, part <:+: Dump.tokens t → leadingBlanks (written part) = [] ∧
        (Dump.tokens (written part)).map Token.text = part.map Token.text := by
  refine ⟨fun leading tokens => ⟨fun h => ⟨h.eq_leadingBlanks, h.eq_tokens⟩, ?_⟩, ?_⟩
  · rintro ⟨rfl, rfl⟩
    exact tokenized_tokens t
  · intro part hpart
    have hspaced := (tokenized_tokens t).spaced.of_part hpart
    refine ⟨?_, hspaced.map_text_tokens⟩
    rcases hspaced.startsWord with hnil | hstart
    · rw [hnil]
      rfl
    · exact leadingBlanks_of_startsWord hstart

/-- Blanks of several kinds, three words and four lines. -/
def spacedText : Text :=
  "\n\u00a0a\u2003b\n\r\nc".text

theorem tokens_only_spaced :
    Tokenized spacedText "\n\u00a0".text
        [⟨"a\u2003".text, 2⟩, ⟨"b\n\r\n".text, 2⟩, ⟨[.char 'c'], 4⟩] ∧
      [⟨"b\n\r\n".text, 2⟩, ⟨[.char 'c'], 4⟩] <:+: Dump.tokens spacedText ∧
      (Dump.tokens "b\n\r\nc".text).map Token.text = ["b\n\r\n".text, [.char 'c']] := by
  have htokens : [⟨"a\u2003".text, 2⟩, ⟨"b\n\r\n".text, 2⟩, ⟨[.char 'c'], 4⟩] =
      Dump.tokens spacedText := by decide +kernel
  have hpart : [⟨"b\n\r\n".text, 2⟩, ⟨[.char 'c'], 4⟩] <:+: Dump.tokens spacedText := by
    rw [← htokens]
    exact ⟨[⟨"a\u2003".text, 2⟩], [], rfl⟩
  exact ⟨((tokens_only spacedText).1 _ _).2 ⟨by decide, htokens⟩, hpart,
    ((tokens_only spacedText).2 _ hpart).2⟩

end Dump
end SchemaLedger
