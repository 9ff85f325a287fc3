import SchemaLedger.Dump.Split
import SchemaLedger.Proofs.Text.Word

/-!
# Tokens of parts of a dump

The tokens of a part of a dump that starts with a word do not depend on what
stands around it, and a scan of a dump is a scan of its parts one after the
other.
-/

namespace SchemaLedger

namespace Text

theorem newlines_append (t u : Text) : newlines (t ++ u) = newlines t + newlines u :=
  List.count_append

end Text

namespace Dump

open Text

/-- The tokens of a text whose first character stands on the given line. -/
def tokensFrom (line : Int) (t : Text) : List Token :=
  numbered line (wordsWithGaps t)

theorem tokensFrom_nil (line : Int) : tokensFrom line [] = [] := rfl

theorem tokens_eq_tokensFrom (dump : Text) :
    tokens dump = tokensFrom (1 + newlines (leadingBlanks dump)) (trimLeft dump) := rfl

/-- Without blanks in front the lines are counted from one. -/
theorem tokens_of_startsWord {t : Text} (h : t = [] ∨ StartsWord t) :
    tokens t = tokensFrom 1 t := by
  rcases h with rfl | h
  · rfl
  · rw [tokens_eq_tokensFrom, leadingBlanks_of_startsWord h, trimLeft_of_startsWord h]
    rfl

theorem written_nil : written [] = [] := rfl

theorem written_cons (token : Token) (tokens : List Token) :
    written (token :: tokens) = token.text ++ written tokens := rfl

theorem written_append (a b : List Token) : written (a ++ b) = written a ++ written b :=
  List.flatMap_append

theorem written_tokensFrom (line : Int) (t : Text) : written (tokensFrom line t) = t := by
  rw [tokensFrom, written_numbered, flatten_wordsWithGaps]

theorem numbered_append (line : Int) (a b : List Text) :
    numbered line (a ++ b) = numbered line a ++ numbered (line + newlines a.flatten) b := by
  induction a generalizing line with
  | nil => simp [numbered, newlines]
  | cons t rest ih =>
    have hline : line + ((newlines t + newlines rest.flatten : Nat) : Int) =
        line + newlines t + newlines rest.flatten := by omega
    rw [List.cons_append, numbered, ih, numbered, List.cons_append, List.flatten_cons,
      newlines_append, hline]

theorem tokensFrom_append {t u : Text} (line : Int) (ht : EndsBlank t) (hu : StartsWord u) :
    tokensFrom line (t ++ u) = tokensFrom line t ++ tokensFrom (line + newlines t) u := by
  rw [tokensFrom, wordsWithGaps_append ht hu, numbered_append, flatten_wordsWithGaps]
  rfl

theorem map_text_numbered (line : Int) (parts : List Text) :
    (numbered line parts).map Token.text = parts := by
  induction parts generalizing line with
  | nil => rfl
  | cons part rest ih => rw [numbered, List.map_cons, ih]

theorem map_word_tokensFrom {t : Text} (line : Int) (ht : StartsWord t) :
    (tokensFrom line t).map Token.word = words t := by
  have htext := congrArg (List.map trim) (map_text_numbered line (wordsWithGaps t))
  rw [List.map_map] at htext
  rw [words_of_startsWord ht, ← htext]
  rfl

theorem map_keyword_tokensFrom {t : Text} (line : Int) (ht : StartsWord t) :
    (tokensFrom line t).map Token.keyword = (words t).map capitals := by
  rw [← map_word_tokensFrom line ht, List.map_map]
  rfl

theorem text_mem_of_mem_tokensFrom {line : Int} {t : Text} {token : Token}
    (h : token ∈ tokensFrom line t) : token.text ∈ wordsWithGaps t := by
  have := List.mem_map_of_mem (f := Token.text) h
  rwa [tokensFrom, map_text_numbered] at this

/-- The first word of a text with the blanks behind it is a token of its own. -/
theorem tokensFrom_word_append_gap_append (line : Int) {w g t : Text} (hw : IsWord w)
    (hg : IsGap g) (hne : g ≠ []) (ht : t = [] ∨ StartsWord t) :
    tokensFrom line (w ++ g ++ t) =
      ⟨w ++ g, line⟩ :: tokensFrom (line + newlines (w ++ g)) t := by
  have hfirst : tokensFrom line (w ++ g) = [⟨w ++ g, line⟩] := by
    rw [tokensFrom, wordsWithGaps_word_append_gap hw hg]
    rfl
  rcases ht with rfl | ht
  · rw [List.append_nil, hfirst, tokensFrom_nil]
  · rw [tokensFrom_append line ((endsBlank_of_isGap hne hg).append w) ht, hfirst,
      List.singleton_append]

/-- Only the first token of a text stands on the line the text starts on for
certain. -/
theorem line_of_tokensFrom_eq_cons {line : Int} {t : Text} {token : Token} {rest : List Token}
    (h : tokensFrom line t = token :: rest) : token.line = line := by
  unfold tokensFrom at h
  cases hp : wordsWithGaps t with
  | nil => simp [hp, numbered] at h
  | cons p more =>
    rw [hp, numbered, List.cons.injEq] at h
    rw [← h.1]

/-! ## Whole tokens -/

namespace Token

/-- A token as a dump has them: a word with nothing but blanks behind it. -/
structure Whole (token : Token) : Prop where
  isWord : IsWord token.word
  gap : ∃ g, IsGap g ∧ token.text = token.word ++ g

theorem Whole.startsWord {token : Token} (h : token.Whole) : StartsWord token.text := by
  obtain ⟨g, _, htext⟩ := h.gap
  rw [htext]
  exact h.isWord.startsWord.append g

theorem Whole.words_text {token : Token} (h : token.Whole) : words token.text = [token.word] := by
  obtain ⟨g, hg, htext⟩ := h.gap
  rw [htext]
  exact words_word_append_gap h.isWord hg

end Token

theorem whole_of_mem_tokensFrom {line : Int} {t : Text} {token : Token} (ht : StartsWord t)
    (h : token ∈ tokensFrom line t) : token.Whole := by
  obtain ⟨hword, g, hg, htext⟩ :=
    exists_gap_of_mem_wordsWithGaps ht (text_mem_of_mem_tokensFrom h)
  exact ⟨hword, g, hg, htext⟩

/-- The words of tokens that follow a text are its further words. -/
theorem words_append_written {t : Text} {tokens : List Token} (ht : t = [] ∨ EndsBlank t)
    (h : ∀ token ∈ tokens, token.Whole ∧ EndsBlank token.text) :
    words (t ++ written tokens) = words t ++ tokens.map Token.word := by
  induction tokens generalizing t with
  | nil => rw [written_nil, List.append_nil, List.map_nil, List.append_nil]
  | cons token rest ih =>
    obtain ⟨hwhole, hends⟩ := h token List.mem_cons_self
    rw [written_cons, ← List.append_assoc,
      ih (.inr (hends.append t)) fun t ht => h t (List.mem_cons_of_mem _ ht),
      words_append ht hwhole.startsWord, hwhole.words_text, List.append_assoc,
      List.map_cons, List.singleton_append]

theorem endsBlank_of_mem_tokensFrom {line : Int} {t : Text} {token : Token} (ht : EndsBlank t)
    (h : token ∈ tokensFrom line t) : EndsBlank token.text :=
  endsBlank_of_mem_wordsWithGaps ht (text_mem_of_mem_tokensFrom h)

theorem whole_of_mem_tokens {dump : Text} {token : Token} (h : token ∈ tokens dump) :
    token.Whole := by
  rw [tokens_eq_tokensFrom] at h
  rcases trimLeft_eq_nil_or_startsWord dump with hnil | hstart
  · rw [hnil, tokensFrom_nil] at h
    cases h
  · exact whole_of_mem_tokensFrom hstart h

theorem endsBlank_of_mem_dropLast_tokens {dump : Text} {token : Token}
    (h : token ∈ (tokens dump).dropLast) : EndsBlank token.text := by
  have htext := List.mem_map_of_mem (f := Token.text) h
  rw [List.map_dropLast, tokens_eq_tokensFrom, tokensFrom, map_text_numbered] at htext
  exact endsBlank_of_mem_dropLast htext

/-! ## Between statements -/

theorem step_create {token : Token} (h : token.keyword = "CREATE".text) :
    step .scanning token = .ok ⟨.pending [token], [], none⟩ :=
  if_pos h

theorem step_ordinary {token : Token} (h : token.keyword ≠ "CREATE".text) :
    step .scanning token = .ok ⟨.scanning, token.text, none⟩ :=
  if_neg h

/-! ## Scanning part by part -/

namespace Progress

theorem scan_cons {p : Progress} {s : Step} {token : Token} (rest : List Token)
    (h : step p.state token = .ok s) : p.scan (token :: rest) = (p.add s).scan rest := by
  rw [scan, h]

theorem scan_append (p : Progress) (a b : List Token) :
    p.scan (a ++ b) = (p.scan a).bind fun q => q.scan b := by
  induction a generalizing p with
  | nil => rfl
  | cons token rest ih =>
    rw [List.cons_append, scan, scan]
    cases step p.state token with
    | error fault => rfl
    | ok s => exact ih (p.add s)

theorem scan_append_of_ok {p q : Progress} {a : List Token} (h : p.scan a = .ok q)
    (b : List Token) : p.scan (a ++ b) = q.scan b := by
  rw [scan_append, h]
  rfl

/-- A scan fails at one token, and the tokens in front of it do not fail. -/
theorem exists_step_of_scan_error {p : Progress} {tokens : List Token} {fault : Fault}
    (h : p.scan tokens = .error fault) :
    ∃ read token rest q, tokens = read ++ token :: rest ∧ p.scan read = .ok q ∧
      step q.state token = .error fault := by
  induction tokens generalizing p with
  | nil => cases h
  | cons token rest ih =>
    cases hs : step p.state token with
    | error other =>
      rw [scan, hs] at h
      cases h
      exact ⟨[], token, rest, p, rfl, rfl, hs⟩
    | ok s =>
      rw [scan_cons rest hs] at h
      obtain ⟨read, last, behind, q, rfl, hread, hlast⟩ := ih h
      exact ⟨token :: read, last, behind, q, rfl, by rw [scan_cons read hs, hread], hlast⟩

end Progress

end Dump
end SchemaLedger
