import SchemaLedger.Proofs.Dump.Token

/-!
# What a token makes of a captured statement

The moves of a capture, one for each way in which a phase takes in a token, and
its two failures.  A step of a capture is exactly a move or a failure, so that
what a statement keeps on its way to its end is a case analysis of the moves.
-/

namespace SchemaLedger
namespace Dump
namespace Capture

/-- The capture with one more token in its text. -/
def take (c : Capture) (token : Token) : Capture :=
  { c with text := c.text ++ token.text }

/-- `Moves c token after closes`: the token turns `c` into `after`, and `closes`
says whether a semicolon at the end of the token ends the statement there. -/
inductive Moves (c : Capture) (token : Token) : Capture → Bool → Prop
  | functionName (hphase : c.phase = .name) (hname : nameIn token.word ≠ [])
      (hkind : c.kind = .function) :
      Moves c token { c.take token with name := nameIn token.word, phase := .returns } false
  | otherName (hphase : c.phase = .name) (hname : nameIn token.word ≠ [])
      (hkind : c.kind ≠ .function) :
      Moves c token { c.take token with name := nameIn token.word, phase := .terminator } true
  | signature (hphase : c.phase = .returns) (hword : token.keyword ≠ "RETURNS".text) :
      Moves c token (c.take token) false
  | returns (hphase : c.phase = .returns) (hword : token.keyword = "RETURNS".text) :
      Moves c token { c.take token with phase := .returnType } false
  | trigger (hphase : c.phase = .returnType) (hword : token.keyword = "TRIGGER".text) :
      Moves c token { c.take token with kind := .trigger, phase := .delimiter } false
  | type (hphase : c.phase = .returnType) (hword : token.keyword ≠ "TRIGGER".text) :
      Moves c token { c.take token with phase := .delimiter } false
  | opens (tag : Text) (hphase : c.phase = .delimiter) (htag : dollarTag? token.word = some tag)
      (hrest : Text.hasInfix tag (token.word.drop tag.length) = false) :
      Moves c token { c.take token with delimiter := tag, phase := .body } false
  /-- The whole body stands inside one word. -/
  | quotes (tag : Text) (hphase : c.phase = .delimiter) (htag : dollarTag? token.word = some tag)
      (hrest : Text.hasInfix tag (token.word.drop tag.length) = true) :
      Moves c token { c.take token with delimiter := tag, phase := .terminator } true
  | atomic (hphase : c.phase = .delimiter) (htag : dollarTag? token.word = none)
      (hword : token.keyword = "ATOMIC".text) (hbegin : followsBegin c.text = .ok true) :
      Moves c token { c.take token with phase := .atomicBody } false
  | clause (hphase : c.phase = .delimiter) (htag : dollarTag? token.word = none)
      (hword : token.keyword = "ATOMIC".text → followsBegin c.text = .ok false) :
      Moves c token (c.take token) true
  | insideAtomic (hphase : c.phase = .atomicBody)
      (hword : (token.keyword = "END;".text && endsLine c.text) = false) :
      Moves c token (c.take token) false
  | endsAtomic (hphase : c.phase = .atomicBody)
      (hword : (token.keyword = "END;".text && endsLine c.text) = true) :
      Moves c token { c.take token with phase := .terminator } true
  | insideBody (hphase : c.phase = .body) (hword : Text.hasInfix c.delimiter token.word = false) :
      Moves c token (c.take token) false
  | endsBody (hphase : c.phase = .body) (hword : Text.hasInfix c.delimiter token.word = true) :
      Moves c token { c.take token with phase := .terminator } true
  | behind (hphase : c.phase = .terminator) :
      Moves c token (c.take token) true

/-- The outcome of a move. -/
def outcome (after : Capture) (word : Text) (closes : Bool) : Step :=
  if closes then after.settle word else ⟨.capturing after, [], none⟩

theorem step_of_moves {c after : Capture} {token : Token} {closes : Bool}
    (h : Moves c token after closes) : c.step token = .ok (after.outcome token.word closes) := by
  obtain ⟨kind, line, text, phase, name, delimiter⟩ := c
  unfold step
  cases h with
  | functionName hphase hname hkind =>
    cases hphase
    simp only [List.isEmpty_eq_false_iff.2 hname, if_pos hkind, Bool.false_eq_true, if_false]
    rfl
  | otherName hphase hname hkind =>
    cases hphase
    simp only [List.isEmpty_eq_false_iff.2 hname, if_neg hkind, Bool.false_eq_true, if_false]
    rfl
  | signature hphase hword =>
    cases hphase
    exact if_neg hword
  | returns hphase hword =>
    cases hphase
    exact if_pos hword
  | trigger hphase hword =>
    cases hphase
    simp only [if_pos hword]
    rfl
  | type hphase hword =>
    cases hphase
    simp only [if_neg hword]
    rfl
  | opens tag hphase htag hrest =>
    cases hphase
    simp only [htag, hrest]
    rfl
  | quotes tag hphase htag hrest =>
    cases hphase
    simp only [htag, hrest]
    rfl
  | atomic hphase htag hword hbegin =>
    cases hphase
    simp only [htag, if_pos hword, hbegin]
    rfl
  | clause hphase htag hword =>
    cases hphase
    by_cases hatomic : token.keyword = "ATOMIC".text
    · simp only [htag, if_pos hatomic, hword hatomic]
      rfl
    · simp only [htag, if_neg hatomic]
      rfl
  | insideAtomic hphase hword =>
    cases hphase
    simp only [hword]
    rfl
  | endsAtomic hphase hword =>
    cases hphase
    simp only [hword]
    rfl
  | insideBody hphase hword =>
    cases hphase
    exact if_neg (ne_true_of_eq_false hword)
  | endsBody hphase hword =>
    cases hphase
    exact if_pos hword
  | behind hphase =>
    cases hphase
    rfl

/-- The ways in which a capture cannot take a token in. -/
inductive Fails (c : Capture) (token : Token) : Fault → Prop
  | unnamed (hphase : c.phase = .name) (hname : nameIn token.word = []) :
      Fails c token (.unnamed c.kind token.line)
  | nothingBefore (hphase : c.phase = .delimiter) (htag : dollarTag? token.word = none)
      (hword : token.keyword = "ATOMIC".text) (hbefore : Text.words c.text = []) :
      Fails c token .nothingBefore

theorem step_of_fails {c : Capture} {token : Token} {fault : Fault} (h : Fails c token fault) :
    c.step token = .error fault := by
  unfold step
  cases h with
  | unnamed hphase hname =>
    simp only [hphase, List.isEmpty_iff.2 hname]
    rfl
  | nothingBefore hphase htag hword hbefore =>
    simp only [hphase, htag, if_pos hword, followsBegin, hbefore]
    rfl

/-- Every branch of a step is one move or one failure. -/
theorem moves_or_fails (c : Capture) (token : Token) :
    (∃ after closes, Moves c token after closes) ∨ ∃ fault, Fails c token fault := by
  cases hphase : c.phase with
  | name =>
    by_cases hname : nameIn token.word = []
    · exact .inr ⟨_, .unnamed hphase hname⟩
    · by_cases hkind : c.kind = .function
      · exact .inl ⟨_, _, .functionName hphase hname hkind⟩
      · exact .inl ⟨_, _, .otherName hphase hname hkind⟩
  | returns =>
    by_cases hword : token.keyword = "RETURNS".text
    · exact .inl ⟨_, _, .returns hphase hword⟩
    · exact .inl ⟨_, _, .signature hphase hword⟩
  | returnType =>
    by_cases hword : token.keyword = "TRIGGER".text
    · exact .inl ⟨_, _, .trigger hphase hword⟩
    · exact .inl ⟨_, _, .type hphase hword⟩
  | delimiter =>
    cases htag : dollarTag? token.word with
    | some tag =>
      cases hrest : Text.hasInfix tag (token.word.drop tag.length) with
      | false => exact .inl ⟨_, _, .opens tag hphase htag hrest⟩
      | true => exact .inl ⟨_, _, .quotes tag hphase htag hrest⟩
    | none =>
      by_cases hword : token.keyword = "ATOMIC".text
      · cases hlast : (Text.words c.text).getLast? with
        | none =>
          exact .inr ⟨_, .nothingBefore hphase htag hword (List.getLast?_eq_none_iff.1 hlast)⟩
        | some last =>
          have hbegin : followsBegin c.text = .ok (Text.capitals last == "BEGIN".text) := by
            rw [followsBegin, hlast]
          cases hfollows : Text.capitals last == "BEGIN".text with
          | true => exact .inl ⟨_, _, .atomic hphase htag hword (hfollows ▸ hbegin)⟩
          | false => exact .inl ⟨_, _, .clause hphase htag fun _ => hfollows ▸ hbegin⟩
      · exact .inl ⟨_, _, .clause hphase htag fun hatomic => absurd hatomic hword⟩
  | atomicBody =>
    cases hword : (token.keyword = "END;".text && endsLine c.text : Bool) with
    | false => exact .inl ⟨_, _, .insideAtomic hphase hword⟩
    | true => exact .inl ⟨_, _, .endsAtomic hphase hword⟩
  | body =>
    cases hword : Text.hasInfix c.delimiter token.word with
    | false => exact .inl ⟨_, _, .insideBody hphase hword⟩
    | true => exact .inl ⟨_, _, .endsBody hphase hword⟩
  | terminator => exact .inl ⟨_, _, .behind hphase⟩

theorem moves_of_step {c : Capture} {token : Token} {s : Step} (h : c.step token = .ok s) :
    ∃ after closes, Moves c token after closes ∧ s = after.outcome token.word closes := by
  rcases moves_or_fails c token with ⟨after, closes, hmove⟩ | ⟨fault, hfails⟩
  · rw [step_of_moves hmove] at h
    exact ⟨after, closes, hmove, (Except.ok.inj h).symm⟩
  · rw [step_of_fails hfails] at h
    cases h

theorem fails_of_step {c : Capture} {token : Token} {fault : Fault}
    (h : c.step token = .error fault) : Fails c token fault := by
  rcases moves_or_fails c token with ⟨after, closes, hmove⟩ | ⟨other, hfails⟩
  · rw [step_of_moves hmove] at h
    cases h
  · rw [step_of_fails hfails] at h
    cases h
    exact hfails

/-- A move goes on with the capture, or it completes the statement at a word
with a semicolon at its end. -/
theorem outcome_cases (after : Capture) (word : Text) (closes : Bool) :
    after.outcome word closes = ⟨.capturing after, [], none⟩ ∨
      endsStatement word = true ∧
        after.outcome word closes = ⟨.scanning, [], some after.statement⟩ := by
  cases closes with
  | false => exact .inl rfl
  | true =>
    cases hword : endsStatement word with
    | false => exact .inl (by simp [outcome, settle, hword])
    | true => exact .inr ⟨rfl, by simp [outcome, settle, hword]⟩

/-- The capture directly behind a header. -/
def opened (header : Header) (line : Int) : Capture :=
  ⟨header.kind, line, header.opening, .name, [], []⟩

end Capture

/-- What one more token makes of the words behind a `CREATE`: a whole header, the
start of one, or no header at all. -/
theorem pendingStep_cases (create : Token) (more : List Token) :
    (∃ header ∈ headers, more.map Token.keyword = header.words ∧
      pendingStep (create :: more) = ⟨.capturing (.opened header create.line), [], none⟩) ∨
    (∃ header ∈ headers, more.map Token.keyword <+: header.words ∧
      more.map Token.keyword ≠ header.words ∧
      pendingStep (create :: more) = ⟨.pending (create :: more), [], none⟩) ∨
    pendingStep (create :: more) = ⟨.scanning, written (create :: more), none⟩ := by
  have hwords : headerWords (create :: more) = more.map Token.keyword := rfl
  rw [pendingStep, hwords]
  cases hheader : header? (more.map Token.keyword) with
  | some header =>
    have hfull := List.find?_some hheader
    simp only [decide_eq_true_eq] at hfull
    exact .inl ⟨header, List.mem_of_find?_eq_some hheader, hfull.symm, rfl⟩
  | none =>
    by_cases hstarts : startsHeader (more.map Token.keyword) = true
    · obtain ⟨header, hmem, hpart⟩ := List.any_eq_true.1 hstarts
      have hother := List.find?_eq_none.1 hheader header hmem
      simp only [decide_eq_true_eq] at hother
      exact .inr (.inl ⟨header, hmem, List.isPrefixOf_iff_prefix.1 hpart, Ne.symm hother,
        if_pos hstarts⟩)
    · exact .inr (.inr (if_neg hstarts))

end Dump
end SchemaLedger
