import SchemaLedger.Proofs.Dump.Part
import SchemaLedger.Proofs.Dump.WellFormed
import SchemaLedger.Proofs.Outcome
import SchemaLedger.Proofs.Text.CodePoint

/-!
# Functions with an atomic body

A body between `BEGIN ATOMIC` and `END;` is not quoted, so its end has to be told
from the other ends in it.  The scan goes by the lines: the first `END;` that is
the first word on its line ends the function.
-/

namespace SchemaLedger

theorem eq_of_capital_eq_semicolon {c : CodePoint} (h : capital c = ';') : c = ';' := by
  unfold capital at h
  split at h
  · cases h
  · split at h
    · cases h
    · unfold CodePoint.toUpper at h
      split at h
      · next hsmall =>
        simp only [CodePoint.isLower, Bool.and_eq_true, decide_eq_true_eq] at hsmall
        have hnumber := congrArg CodePoint.toNat h
        rw [CodePoint.toNat_ofNat_of_ascii (by omega)] at hnumber
        have hsemicolon : (CodePoint.char ';').toNat = 59 := rfl
        omega
      · exact h

namespace Text

theorem trailingBlanks_append {t u : Text} (hu : StartsWord u) :
    trailingBlanks (t ++ u) = trailingBlanks u := by
  obtain ⟨c, rest, rfl⟩ := List.exists_cons_of_ne_nil hu.ne_nil
  have hc := startsWord_cons.1 hu
  have hshort : ((c :: rest).reverse.takeWhile isBlank).length ≠ (c :: rest).reverse.length := by
    intro hlength
    have hall := (List.takeWhile_sublist isBlank).eq_of_length hlength
    have hmem : c ∈ (c :: rest).reverse.takeWhile isBlank := by
      rw [hall]
      simp
    rw [List.mem_takeWhile_imp hmem] at hc
    cases hc
  unfold trailingBlanks
  rw [List.reverse_append, List.takeWhile_append, if_neg hshort]

theorem endsBlank_of_mem_trailingBlanks {t : Text} {c : CodePoint} (h : c ∈ trailingBlanks t) :
    EndsBlank t := by
  unfold trailingBlanks at h
  rw [List.mem_reverse] at h
  cases hrev : t.reverse with
  | nil =>
    rw [hrev] at h
    cases h
  | cons last others =>
    rw [hrev, List.takeWhile_cons] at h
    cases hlast : isBlank last with
    | false => simp [hlast] at h
    | true =>
      have ht : t = others.reverse ++ [last] := by
        rw [← List.reverse_reverse t, hrev, List.reverse_cons]
      unfold EndsBlank
      rw [ht, List.getLast?_concat, Option.map_some, hlast]

/-- A row of pieces from the start of a text is the pieces of what it spells. -/
theorem wordsWithGaps_flatten {t : Text} {front back : List Text}
    (h : wordsWithGaps t = front ++ back) : wordsWithGaps front.flatten = front := by
  obtain ⟨_, hne, hpieces, hcut⟩ := List.splitBy_eq_iff.1 h
  refine List.splitBy_eq_iff.2 ⟨rfl, ?_, ?_, (List.isChain_append.1 hcut).1⟩
  · exact fun hnil => hne (List.mem_append_left _ hnil)
  · exact fun p hp => hpieces p (List.mem_append_left _ hp)

end Text

namespace Dump

open Text

theorem endsStatement_of_end {word : Text} (h : capitals word = "END;".text) :
    endsStatement word = true := by
  have hlast := congrArg List.getLast? h
  rw [capitals, List.getLast?_map] at hlast
  obtain ⟨c, hc, hsemicolon⟩ := Option.map_eq_some_iff.1 hlast
  unfold endsStatement
  rw [hc, eq_of_capital_eq_semicolon hsemicolon]
  rfl

/-- Tokens from the start of a text are the tokens of what they spell. -/
theorem tokensFrom_written {line : Int} {t : Text} {front back : List Token}
    (h : tokensFrom line t = front ++ back) : tokensFrom line (written front) = front := by
  have htexts : wordsWithGaps t = front.map Token.text ++ back.map Token.text := by
    rw [← List.map_append, ← h, tokensFrom, map_text_numbered]
  have hfront : (front.map Token.text).flatten = written front := rfl
  have hnumbered : numbered line (front.map Token.text) = front := by
    rw [tokensFrom, htexts, numbered_append] at h
    refine (List.append_inj h ?_).1
    rw [← List.length_map Token.text, map_text_numbered, List.length_map]
  rw [tokensFrom, ← hfront, wordsWithGaps_flatten htexts, hnumbered]

/-- A text of one word is one token, and its keyword that of the word. -/
theorem tokensFrom_of_keyword {t keyword : Text} (line : Int) (hstart : StartsWord t)
    (h : (words t).map capitals = [keyword]) :
    tokensFrom line t = [⟨t, line⟩] ∧ capitals (trim t) = keyword := by
  rw [← map_keyword_tokensFrom line hstart] at h
  obtain ⟨token, others, htokens, hword, hothers⟩ := List.map_eq_cons_iff.1 h
  obtain rfl := List.map_eq_nil_iff.1 hothers
  have htext : token.text = t := by
    have hwritten := written_tokensFrom line t
    rw [htokens, written_cons, written_nil, List.append_nil] at hwritten
    exact hwritten
  have hline := line_of_tokensFrom_eq_cons htokens
  obtain ⟨text, start⟩ := token
  subst htext hline
  exact ⟨htokens, hword⟩

/-- The first place in a list that satisfies a property of the elements in front
and the element itself. -/
theorem exists_first_place {α : Type} {place : List α → α → Prop} {l : List α}
    (h : ∃ front x back, l = front ++ x :: back ∧ place front x) :
    ∃ front x back, l = front ++ x :: back ∧ place front x ∧
      ∀ before y behind, front = before ++ y :: behind → ¬ place before y := by
  classical
  obtain ⟨front, x, back, hsplit, hplace⟩ := h
  induction hn : front.length using Nat.strong_induction_on generalizing front x back with
  | _ n ih =>
    by_cases hearlier : ∃ before y behind, front = before ++ y :: behind ∧ place before y
    · obtain ⟨before, y, behind, rfl, hy⟩ := hearlier
      have hshorter : before.length < n := by
        rw [← hn]
        simp
      refine ih before.length hshorter before y (behind ++ x :: back) ?_ hy rfl
      rw [hsplit, List.append_assoc, List.cons_append]
    · refine ⟨front, x, back, hsplit, hplace, fun before y behind hfront hy => ?_⟩
      exact hearlier ⟨before, y, behind, hfront, hy⟩

/-- Functions with an atomic body.  The head ends in `BEGIN`, the next word is
`ATOMIC`; each part has the blanks behind it. -/
structure AtomicItem where
  form : Form
  opening : Text
  head : FunctionHead
  atomic : Text
  body : Text
  closing : Text

namespace AtomicItem

/-- The function from its name on. -/
def rest (a : AtomicItem) : Text :=
  a.head.text ++ (a.atomic ++ (a.body ++ a.closing))

def text (a : AtomicItem) : Text :=
  a.opening ++ a.rest

structure WellFormed (a : AtomicItem) : Prop where
  isFunction : a.form.kind = .function
  opening_starts : StartsWord a.opening
  opening_ends : EndsBlank a.opening
  opening_words : (words a.opening).map capitals = a.form.words
  head : a.head.WellFormed
  begins : a.head.clauses.getLast?.map capitals = some "BEGIN".text
  atomic_starts : StartsWord a.atomic
  atomic_ends : EndsBlank a.atomic
  atomic_words : (words a.atomic).map capitals = ["ATOMIC".text]
  body : a.body = [] ∨ StartsWord a.body ∧ EndsBlank a.body
  closing_starts : StartsWord a.closing
  closing_words : (words a.closing).map capitals = ["END;".text]
  /-- The closing word is the first on its line. -/
  own_line : .char '\n' ∈ trailingBlanks (a.atomic ++ a.body)

/-- Some other `END;` of the body is the first word on its line. -/
def EndsEarly (a : AtomicItem) : Prop :=
  ∃ front word back, a.body = front ++ (word ++ back) ∧ IsWord word ∧
    capitals word = "END;".text ∧ back.head?.map isBlank = some true ∧
    .char '\n' ∈ trailingBlanks (a.atomic ++ front)

def statement (a : AtomicItem) (line : Int) : Statement :=
  ⟨a.head.kind, bareName a.head.name, a.form.normal ++ a.rest, line⟩

end AtomicItem

/-! ## The scan of the body -/

/-- A token that ends an atomic body when it comes behind a text. -/
def EndsBody (before : Text) (token : Token) : Prop :=
  token.keyword = "END;".text ∧ .char '\n' ∈ trailingBlanks before

theorem endsBody_iff {before : Text} {token : Token} :
    EndsBody before token ↔
      (token.keyword = "END;".text && Capture.endsLine before) = true := by
  simp [EndsBody, Capture.endsLine]

namespace Progress

variable {p : Progress} {c : Capture}

/-- A body is captured up to the first token that ends it. -/
theorem scan_atomic {tokens : List Token} {token : Token} (hphase : c.phase = .atomicBody)
    (hinside : ∀ front next back, tokens = front ++ next :: back →
      ¬ EndsBody (c.text ++ written front) next)
    (hends : EndsBody (c.text ++ written tokens) token) :
    (p.capturing c).scan (tokens ++ [token]) =
      .ok (p.completed ⟨c.kind, c.name, c.text ++ written (tokens ++ [token]), c.line⟩) := by
  have hbody : (p.capturing c).scan tokens = .ok (p.capturing (c.takeAll tokens)) := by
    refine scan_takeAll fun front next back hsplit => ⟨false, .insideAtomic hphase ?_, nofun⟩
    cases hword :
        (next.keyword = "END;".text && Capture.endsLine (c.takeAll front).text : Bool) with
    | false => rfl
    | true => exact absurd (endsBody_iff.2 hword) (hinside front next back hsplit)
  have hlast : (c.takeAll tokens).Moves token _ true :=
    .endsAtomic hphase (endsBody_iff.1 hends)
  rw [scan_append_of_ok hbody, scan_ends [] hlast (endsStatement_of_end hends.1), scan]
  simp [Capture.takeAll, Capture.take, Capture.statement, written_append, written_cons, written_nil]

end Progress

namespace AtomicItem

variable {a : AtomicItem} {p : Progress}

/-- The capture in front of the body. -/
def captured (a : AtomicItem) (line : Int) : Capture :=
  ⟨a.head.kind, line, a.form.normal ++ (a.head.text ++ a.atomic), .atomicBody,
    bareName a.head.name, []⟩

/-- `BEGIN ATOMIC` opens the body. -/
theorem moves_atomic (h : a.WellFormed) (line first : Int) :
    Capture.Moves ⟨a.head.kind, first, a.form.normal ++ a.head.text, .delimiter,
      bareName a.head.name, []⟩ ⟨a.atomic, line⟩ (a.captured first) false := by
  obtain ⟨_, hkeyword⟩ := tokensFrom_of_keyword line h.atomic_starts h.atomic_words
  have htokens : ∀ token ∈ tokensFrom line a.head.text, token.Whole ∧ EndsBlank token.text :=
    fun _ ht => ⟨whole_of_mem_tokensFrom h.head.starts ht,
      endsBlank_of_mem_tokensFrom h.head.ends ht⟩
  -- the last word in front of the body is the last clause
  obtain ⟨last, hlast, hbegin⟩ : ∃ last, (tokensFrom line a.head.text).getLast? = some last ∧
      last.keyword = "BEGIN".text := by
    obtain ⟨clause, hclause, hcapitals⟩ := Option.map_eq_some_iff.1 h.begins
    have hwords : (words a.head.text).getLast? = some clause := by
      rw [h.head.words_text, ← List.cons_append,
        List.getLast?_append_of_ne_nil _ (List.cons_ne_nil _ _),
        List.getLast?_cons, List.getLast?_cons, hclause]
      rfl
    rw [← map_word_tokensFrom line h.head.starts, List.getLast?_map] at hwords
    obtain ⟨last, hlast, rfl⟩ := Option.map_eq_some_iff.1 hwords
    exact ⟨last, hlast, hcapitals⟩
  have hnormal : EndsBlank a.form.normal := by
    cases a.form <;> decide
  have hfollows : Capture.followsBegin (a.form.normal ++ a.head.text) = .ok true := by
    have hwritten := Progress.followsBegin_append_written (.inr hnormal) htokens hlast
    rw [written_tokensFrom, hbegin] at hwritten
    exact hwritten
  have hplain : dollarTag? (Token.word ⟨a.atomic, line⟩) = none := by
    refine dollarTag?_eq_none_iff.2 ?_
    rintro ⟨name, _, more, hword⟩
    have hfirst := congrArg (List.head? ∘ capitals) hword
    have hatomic : capitals (Token.word ⟨a.atomic, line⟩) = "ATOMIC".text := hkeyword
    simp only [Function.comp_apply, hatomic] at hfirst
    cases hfirst
  have hcaptured : a.captured first =
      { Capture.take ⟨a.head.kind, first, a.form.normal ++ a.head.text, .delimiter,
        bareName a.head.name, []⟩ ⟨a.atomic, line⟩ with phase := .atomicBody } := by
    simp [captured, Capture.take]
  rw [hcaptured]
  exact .atomic rfl hplain hkeyword hfollows

/-- From its opening on a function waits for the end of its body. -/
theorem scan_captured (h : a.WellFormed) (hstate : p.state = .scanning) (line : Int) :
    p.scan (tokensFrom line (a.opening ++ (a.head.text ++ a.atomic))) =
      .ok (p.capturing (a.captured line)) := by
  have hform := Progress.scan_form line hstate h.opening_starts h.opening_words
  rw [h.isFunction] at hform
  obtain ⟨htokens, _⟩ := tokensFrom_of_keyword (line + newlines a.opening + newlines a.head.text)
    h.atomic_starts h.atomic_words
  rw [tokensFrom_append line h.opening_ends (h.head.starts.append _),
    tokensFrom_append _ h.head.ends h.atomic_starts, Progress.scan_append_of_ok hform,
    Progress.scan_append_of_ok (Progress.scan_head h.head _ _ line), htokens,
    Progress.scan_moves [] (moves_atomic h _ line) nofun, Progress.scan]

theorem endsBody_captured (h : a.WellFormed) (line : Int) (t : Text) (token : Token) :
    EndsBody ((a.captured line).text ++ t) token ↔
      token.keyword = "END;".text ∧ .char '\n' ∈ trailingBlanks (a.atomic ++ t) := by
  have hshape : (a.captured line).text ++ t =
      (a.form.normal ++ a.head.text) ++ (a.atomic ++ t) := by
    simp [captured]
  rw [EndsBody, hshape, trailingBlanks_append (h.atomic_starts.append t)]

/-- The tokens of body and closing: those of the body and one more. -/
theorem tokensFrom_body (h : a.WellFormed) (line : Int) :
    tokensFrom line (a.body ++ a.closing) =
      tokensFrom line a.body ++ [⟨a.closing, line + newlines a.body⟩] := by
  have htoken := fun start => (tokensFrom_of_keyword start h.closing_starts h.closing_words).1
  rcases h.body with hnil | ⟨_, hend⟩
  · rw [hnil, List.nil_append, htoken, tokensFrom_nil]
    simp [newlines]
  · rw [tokensFrom_append line hend h.closing_starts, htoken]

theorem endsEarly_iff (h : a.WellFormed) (line first : Int) :
    a.EndsEarly ↔ ∃ front token back, tokensFrom line a.body = front ++ token :: back ∧
      EndsBody ((a.captured first).text ++ written front) token := by
  constructor
  · rintro ⟨front, word, back, hbody, hword, hend, hblank, hline⟩
    have hback := leadingBlanks_append_trimLeft back
    have hgap : leadingBlanks back ≠ [] := by
      cases back with
      | nil => cases hblank
      | cons c others =>
        have hc : isBlank c = true := Option.some.inj hblank
        simp [leadingBlanks, hc]
    have hmore := trimLeft_eq_nil_or_startsWord back
    have hshape : a.body = front ++ (word ++ leadingBlanks back ++ trimLeft back) := by
      rw [List.append_assoc, hback]
      exact hbody
    have hfirst : StartsWord (word ++ leadingBlanks back ++ trimLeft back) :=
      (hword.startsWord.append _).append _
    have htokens : tokensFrom line a.body = tokensFrom line front ++
        ⟨word ++ leadingBlanks back, line + newlines front⟩ ::
          tokensFrom (line + newlines front + newlines (word ++ leadingBlanks back))
            (trimLeft back) := by
      rw [← tokensFrom_word_append_gap_append _ hword (isGap_leadingBlanks back) hgap hmore, hshape]
      by_cases hfront : front = []
      · subst hfront
        simp [tokensFrom_nil, newlines]
      · have hfrontEnd := (endsBlank_append hfront).1 (endsBlank_of_mem_trailingBlanks hline)
        exact tokensFrom_append line hfrontEnd hfirst
    refine ⟨_, _, _, htokens, (endsBody_captured h first _ _).2 ⟨?_, ?_⟩⟩
    · show capitals (trim (word ++ leadingBlanks back)) = _
      rw [trim_word_append_gap hword (isGap_leadingBlanks back), hend]
    · rw [written_tokensFrom]
      exact hline
  · rintro ⟨front, token, back, htokens, hends⟩
    obtain ⟨hkeyword, hline⟩ := (endsBody_captured h first _ _).1 hends
    have hmem : token ∈ tokensFrom line a.body := by
      rw [htokens]
      simp
    obtain ⟨hstart, hend⟩ : StartsWord a.body ∧ EndsBlank a.body := by
      rcases h.body with hnil | hbody
      · rw [hnil, tokensFrom_nil] at hmem
        cases hmem
      · exact hbody
    have hwhole := whole_of_mem_tokensFrom hstart hmem
    obtain ⟨gap, hgap, htext⟩ := hwhole.gap
    have htokenEnd := endsBlank_of_mem_tokensFrom hend hmem
    have hbody : a.body = written front ++ (token.word ++ (gap ++ written back)) := by
      rw [← written_tokensFrom line a.body, htokens, written_append, written_cons, htext,
        List.append_assoc]
    refine ⟨written front, token.word, gap ++ written back, hbody, hwhole.isWord, hkeyword, ?_,
      hline⟩
    cases gap with
    | nil =>
      rw [htext, List.append_nil] at htokenEnd
      exact absurd htokenEnd (not_endsBlank_of_isWord hwhole.isWord)
    | cons c others => exact congrArg some (hgap c List.mem_cons_self)

theorem startsWord_body (h : a.WellFormed) : StartsWord (a.body ++ a.closing) := by
  rcases h.body with hnil | ⟨hbody, _⟩
  · rw [hnil]
    exact h.closing_starts
  · exact hbody.append _

/-- The first token that ends the body. -/
theorem exists_cut (h : a.WellFormed) (line first : Int) :
    ∃ front token back, tokensFrom line (a.body ++ a.closing) = front ++ token :: back ∧
      EndsBody ((a.captured first).text ++ written front) token ∧
      ∀ before next behind, front = before ++ next :: behind →
        ¬ EndsBody ((a.captured first).text ++ written before) next := by
  obtain ⟨_, hclosing⟩ := tokensFrom_of_keyword line h.closing_starts h.closing_words
  have hlast : EndsBody ((a.captured first).text ++ written (tokensFrom line a.body))
      ⟨a.closing, line + newlines a.body⟩ := by
    rw [written_tokensFrom]
    exact (endsBody_captured h _ _ _).2 ⟨hclosing, h.own_line⟩
  exact exists_first_place ⟨_, _, [], tokensFrom_body h line, hlast⟩

section Cut

variable {line first : Int} {front back : List Token} {token : Token}

/-- The cut is behind the last token or inside the body. -/
theorem cut_cases (h : a.WellFormed)
    (hsplit : tokensFrom line (a.body ++ a.closing) = front ++ token :: back) :
    back = [] ∧ front = tokensFrom line a.body ∨
      back ≠ [] ∧ ∃ inside, tokensFrom line a.body = front ++ token :: inside := by
  rw [tokensFrom_body h line] at hsplit
  rcases List.eq_nil_or_concat' back with rfl | ⟨inside, last, rfl⟩
  · exact .inl ⟨rfl, (List.append_inj' hsplit rfl).1.symm⟩
  · refine .inr ⟨by simp, inside, ?_⟩
    rw [← List.cons_append, ← List.append_assoc] at hsplit
    exact (List.append_inj' hsplit rfl).1

theorem whole_of_cut (h : a.WellFormed)
    (hsplit : tokensFrom line (a.body ++ a.closing) = front ++ token :: back) :
    ∀ t ∈ front ++ token :: back, t.Whole := by
  rw [← hsplit]
  exact fun t ht => whole_of_mem_tokensFrom (startsWord_body h) ht

theorem written_cut (hsplit : tokensFrom line (a.body ++ a.closing) = front ++ token :: back) :
    a.body ++ a.closing = written (front ++ [token]) ++ written back := by
  rw [← written_append, List.append_assoc, List.singleton_append, ← hsplit, written_tokensFrom]

theorem startsWord_front (h : a.WellFormed)
    (hsplit : tokensFrom line (a.body ++ a.closing) = front ++ token :: back) :
    StartsWord (written (front ++ [token])) := by
  have hstart := startsWord_body h
  rw [written_cut hsplit] at hstart
  refine startsWord_of_append ?_ hstart
  have htoken := (whole_of_cut h hsplit token (by simp)).startsWord
  simp [written_append, written_cons, htoken.ne_nil]

/-- The first token that ends the body is its closing exactly when no other one
does. -/
theorem nothing_behind_iff (h : a.WellFormed)
    (hsplit : tokensFrom line (a.body ++ a.closing) = front ++ token :: back)
    (hplace : EndsBody ((a.captured first).text ++ written front) token)
    (hearlier : ∀ before next behind, front = before ++ next :: behind →
      ¬ EndsBody ((a.captured first).text ++ written before) next) :
    written back = [] ↔ ¬ a.EndsEarly := by
  rw [endsEarly_iff h line first]
  rcases cut_cases h hsplit with ⟨rfl, hfront⟩ | ⟨hback, inside, hbody⟩
  · refine ⟨fun _ => ?_, fun _ => written_nil⟩
    rintro ⟨before, next, behind, hbefore, hends⟩
    exact hearlier before next behind (hfront.trans hbefore) hends
  · refine ⟨fun hnil => ?_, fun hearly => absurd ⟨front, token, inside, hbody, hplace⟩ hearly⟩
    obtain ⟨next, others, rfl⟩ := List.exists_cons_of_ne_nil hback
    rw [written_cons, List.append_eq_nil_iff] at hnil
    exact absurd hnil.1 (whole_of_cut h hsplit next (by simp)).startsWord.ne_nil

theorem scan_cut (h : a.WellFormed) (hstate : p.state = .scanning)
    (hsplit : tokensFrom (first + newlines (a.opening ++ (a.head.text ++ a.atomic)))
      (a.body ++ a.closing) = front ++ token :: back)
    (hplace : EndsBody ((a.captured first).text ++ written front) token)
    (hearlier : ∀ before next behind, front = before ++ next :: behind →
      ¬ EndsBody ((a.captured first).text ++ written before) next) :
    p.scan (tokensFrom first
      (a.opening ++ (a.head.text ++ (a.atomic ++ written (front ++ [token]))))) =
        .ok (p.completed ⟨a.head.kind, bareName a.head.name,
          a.form.normal ++ (a.head.text ++ (a.atomic ++ written (front ++ [token]))), first⟩) := by
  have hpart : a.opening ++ (a.head.text ++ (a.atomic ++ written (front ++ [token]))) =
      a.opening ++ (a.head.text ++ a.atomic) ++ written (front ++ [token]) := by
    simp only [List.append_assoc]
  have hopenEnd : EndsBlank (a.opening ++ (a.head.text ++ a.atomic)) :=
    (h.atomic_ends.append _).append _
  have htokens : tokensFrom (first + newlines (a.opening ++ (a.head.text ++ a.atomic)))
      (written (front ++ [token])) = front ++ [token] := by
    have hcut : front ++ token :: back = (front ++ [token]) ++ back := by
      rw [List.append_assoc, List.singleton_append]
    exact tokensFrom_written (hsplit.trans hcut)
  rw [hpart, tokensFrom_append _ hopenEnd (startsWord_front h hsplit),
    Progress.scan_append_of_ok (scan_captured h hstate _), htokens,
    Progress.scan_atomic rfl hearlier hplace]
  simp only [captured, List.append_assoc]

/-- What is behind the cut starts with a word, or it is nothing. -/
theorem rest_of_cut (h : a.WellFormed) {after : Text}
    (hafter : after = [] ∨ EndsBlank a.closing ∧ StartsWord after)
    (hsplit : tokensFrom line (a.body ++ a.closing) = front ++ token :: back) :
    written back ++ after = [] ∨
      EndsBlank (written (front ++ [token])) ∧ StartsWord (written back ++ after) := by
  rcases cut_cases h hsplit with ⟨rfl, _⟩ | ⟨hback, inside, hbody⟩
  · rcases hafter with rfl | ⟨hend, hstart⟩
    · exact .inl rfl
    · refine .inr ⟨?_, hstart⟩
      have htext := written_cut hsplit
      rw [written_nil, List.append_nil] at htext
      rw [← htext]
      exact hend.append _
  · have hmem : token ∈ tokensFrom line a.body := by
      rw [hbody]
      simp
    have hend : EndsBlank token.text := by
      rcases h.body with hnil | ⟨_, hend⟩
      · rw [hnil, tokensFrom_nil] at hmem
        cases hmem
      · exact endsBlank_of_mem_tokensFrom hend hmem
    obtain ⟨next, others, rfl⟩ := List.exists_cons_of_ne_nil hback
    refine .inr ⟨?_, ?_⟩
    · rw [written_append, written_cons, written_nil, List.append_nil]
      exact hend.append _
    · rw [written_cons]
      exact ((whole_of_cut h hsplit next (by simp)).startsWord.append _).append _

end Cut

/-- A function is split off up to the first `END;` that is the first word on its
line.  Nothing of it is left exactly when that is its last word. -/
theorem exists_split_front (h : a.WellFormed) {before after : Text}
    (hbefore : before = [] ∨ EndsBlank before)
    (hafter : after = [] ∨ EndsBlank a.closing ∧ StartsWord after)
    (hp : Progress.scan {} (tokens before) = .ok p) (hstate : p.state = .scanning)
    (noise : List Text) :
    ∃ front back, a.body ++ a.closing = front ++ back ∧ (back = [] ↔ ¬ a.EndsEarly) ∧
      split (before ++ a.text ++ after) noise =
        (separateFrom
          (1 + newlines (before ++ (a.opening ++ (a.head.text ++ (a.atomic ++ front)))))
          (back ++ after)).map fun later =>
            ⟨p.statements ++ ⟨a.head.kind, bareName a.head.name,
              a.form.normal ++ (a.head.text ++ (a.atomic ++ front)),
                1 + newlines before⟩ :: later.1,
              cleaned noise (leadingBlanks before ++ p.residual ++ later.2)⟩ := by
  obtain ⟨front, token, back, hsplit, hplace, hearlier⟩ := exists_cut h
    (1 + newlines before + newlines (a.opening ++ (a.head.text ++ a.atomic))) (1 + newlines before)
  have htext := written_cut hsplit
  have hrest : written back ++ after = [] ∨
      EndsBlank (a.opening ++ (a.head.text ++ (a.atomic ++ written (front ++ [token])))) ∧
        StartsWord (written back ++ after) :=
    (rest_of_cut h hafter hsplit).imp id fun ⟨hend, hstart⟩ =>
      ⟨((hend.append _).append _).append _, hstart⟩
  have hdump : before ++ a.text ++ after =
      before ++ (a.opening ++ (a.head.text ++ (a.atomic ++ written (front ++ [token])))) ++
        (written back ++ after) := by
    rw [text, rest, htext]
    simp only [List.append_assoc]
  refine ⟨written (front ++ [token]), written back, htext,
    nothing_behind_iff h hsplit hplace hearlier, ?_⟩
  rw [hdump, split_append hbefore (h.opening_starts.append _) hrest hp
    (scan_cut h hstate hsplit hplace hearlier) rfl noise]
  simp only [Progress.completed, List.append_assoc, List.singleton_append]

end AtomicItem

/-- A function with an atomic body is split off as a whole exactly when no
`END;` of the body but the closing one is the first word on its line; then the
rest of the dump is split as if it stood alone. -/
theorem split_atomic {a : AtomicItem} (h : a.WellFormed) {before after : Text} {p : Progress}
    (hbefore : before = [] ∨ EndsBlank before)
    (hafter : after = [] ∨ EndsBlank a.closing ∧ StartsWord after)
    (hp : Progress.scan {} (tokens before) = .ok p) (hstate : p.state = .scanning)
    (noise : List Text) :
    (¬ a.EndsEarly → split (before ++ a.text ++ after) noise =
      (separateFrom (1 + newlines (before ++ a.text)) after).map fun later =>
        ⟨p.statements ++ a.statement (1 + newlines before) :: later.1,
          cleaned noise (leadingBlanks before ++ p.residual ++ later.2)⟩) ∧
    (a.EndsEarly → ∀ s, split (before ++ a.text ++ after) noise = .ok s →
      s.statements[p.statements.length]? ≠ some (a.statement (1 + newlines before))) := by
  obtain ⟨front, back, htext, hback, hsplit⟩ :=
    AtomicItem.exists_split_front h hbefore hafter hp hstate noise
  constructor
  · intro hclean
    obtain rfl := hback.2 hclean
    rw [List.append_nil] at htext
    rw [hsplit, ← htext]
    rfl
  · intro hearly s hs hwhole
    rw [hsplit] at hs
    obtain ⟨later, _, rfl⟩ := Outcome.map_eq_ok.1 hs
    rw [List.getElem?_append_right (Nat.le_refl _), Nat.sub_self] at hwhole
    have hstatement := Option.some.inj hwhole
    have hsame := congrArg Statement.text hstatement
    simp only [AtomicItem.statement, AtomicItem.rest, List.append_cancel_left_eq] at hsame
    rw [htext] at hsame
    refine hback.1 ?_ hearly
    exact List.append_right_eq_self.1 hsame.symm

/-- A function with this body and a closing word on a line of its own. -/
def oneFunction (body : Text) : AtomicItem where
  form := .function
  opening := "CREATE FUNCTION ".text
  head := ⟨"f() RETURNS int BEGIN ".text, "f()".text, [], "RETURNS".text, "int".text,
    ["BEGIN".text]⟩
  atomic := "ATOMIC\n".text
  body := body
  closing := "END;\n".text

def caseInLine : AtomicItem :=
  oneFunction "SELECT\n CASE WHEN b THEN 1 END;\n".text

/-- The `END;` of the case stands behind other words on its line. -/
theorem split_atomic_case_in_line :
    ¬ caseInLine.EndsEarly ∧ split ("SET y;\n".text ++ caseInLine.text ++ "SET x;\n".text) [] =
      .ok ⟨[caseInLine.statement 2], "SET y;\nSET x;\n".text⟩ := by
  have hhead : caseInLine.head.WellFormed := by constructor <;> decide +kernel
  have hwell : caseInLine.WellFormed := by
    constructor
    case head => exact hhead
    all_goals decide +kernel
  have hafter : EndsBlank caseInLine.closing ∧ StartsWord "SET x;\n".text := by decide +kernel
  have hbefore : EndsBlank "SET y;\n".text := by decide +kernel
  have hscan : Progress.scan {} (tokens "SET y;\n".text) =
      .ok ⟨.scanning, "SET y;\n".text, []⟩ := by decide +kernel
  have hsplit : split ("SET y;\n".text ++ caseInLine.text ++ "SET x;\n".text) [] =
      .ok ⟨[caseInLine.statement 2], "SET y;\nSET x;\n".text⟩ := by decide +kernel
  obtain ⟨_, hcut⟩ := split_atomic hwell (.inr hbefore) (.inr hafter) hscan rfl []
  exact ⟨fun hearly => hcut hearly _ hsplit rfl, hsplit⟩

def caseOnLine : AtomicItem :=
  oneFunction "SELECT\n CASE WHEN b THEN 1\n END;\n".text

/-- The `END;` of the case stands on a line of its own: the function ends there,
and its own `END;` is left. -/
theorem split_atomic_case_on_line :
    caseOnLine.WellFormed ∧ caseOnLine.EndsEarly ∧
      split caseOnLine.text [] = .ok ⟨[⟨.function, "f".text,
        ("CREATE OR REPLACE FUNCTION f() RETURNS int BEGIN ATOMIC\n" ++
          "SELECT\n CASE WHEN b THEN 1\n END;\n").text, 1⟩], "END;\n".text⟩ := by
  have hhead : caseOnLine.head.WellFormed := by constructor <;> decide +kernel
  have hwell : caseOnLine.WellFormed := by
    constructor
    case head => exact hhead
    all_goals decide +kernel
  have hearly : caseOnLine.EndsEarly := by
    refine ⟨"SELECT\n CASE WHEN b THEN 1\n ".text, "END;".text, [.char '\n'],
      ?_, ?_, ?_, ?_, ?_⟩ <;>
      decide +kernel
  refine ⟨hwell, hearly, ?_⟩
  decide +kernel

end Dump
end SchemaLedger
