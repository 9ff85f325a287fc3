import SchemaLedger.Proofs.Sql.Reading

/-!
# Lines in quotations

A line that begins with two dashes inside a quotation leaves them in its value,
right behind a line break.  A text that nowhere has two dashes behind a line break
has no such value.
-/

namespace SchemaLedger
namespace Sql

/-- A line that begins with two dashes, seen from the end of the line before. -/
def dashes : Text :=
  "\n--".text

/-- A quotation with two dashes at the beginning of a line. -/
def Token.Dashed (token : Token) : Prop :=
  ∃ value, token.value? = some value ∧ dashes <:+: value

theorem dashed_token {mark : Mark} {value : Text} :
    (mark.token value).Dashed ↔ dashes <:+: value := by
  have hvalue : (mark.token value).value? = some value := by cases mark <;> rfl
  simp [Token.Dashed, hvalue]

/-- Dashes do not reach into a text without any. -/
theorem dashes_infix_of_append {content rest : Text} (h : dashes <:+: content ++ rest)
    (hrest : .char '-' ∉ rest) : dashes <:+: content := by
  rcases List.infix_append_iff.1 h with hleft | hright | ⟨left, right, hboth, hleft, hright⟩
  · exact hleft
  · exact absurd (hright.subset (by decide : .char '-' ∈ dashes)) hrest
  · cases right using List.reverseRecOn with
    | nil =>
      rw [List.append_nil] at hboth
      exact hboth ▸ hleft.isInfix
    | append_singleton front c =>
      rw [← List.append_assoc] at hboth
      have hlast := congrArg List.getLast? hboth
      rw [List.getLast?_concat] at hlast
      obtain rfl : '-' = c := Option.some.inj hlast
      exact absurd (hright.subset (List.mem_append_right _ List.mem_cons_self)) hrest

namespace Reading

variable {s : Reading} {c : CodePoint} {ts : List Token}

/-! ## Tags -/

/-- Tags have no dashes. -/
def Tagged (s : Reading) : Prop :=
  ∀ tag, s.mode.tag? = some tag → .char '-' ∉ tag

theorem tagged_stepCode (run : Text) (named : Bool) : (stepCode ts run named c).Tagged := by
  intro tag htag
  rw [tag_stepCode ts run named c tag htag]
  exact List.not_mem_nil

theorem Tagged.step (h : s.Tagged) : (s.step c).Tagged := by
  obtain ⟨ts, mode⟩ := s
  cases mode with
  | code run named => exact tagged_stepCode run named
  | dollar run tag =>
    have htag : .char '-' ∉ tag := h tag rfl
    rcases step_dollar ts run tag c with heq | ⟨hc, heq⟩ | heq
    · rw [heq]
      rintro _ ⟨⟩
      exact htag
    · rw [heq]
      rintro _ ⟨⟩
      simp [htag, hc.symm]
    · rw [heq]
      exact tagged_stepCode _ _
  | quoted mark value =>
    show Tagged (ite _ _ _)
    split <;> exact nofun
  | closing mark value =>
    rcases step_closing ts value c mark with ⟨_, heq⟩ | heq
    · rw [heq]
      exact nofun
    · rw [heq]
      exact tagged_stepCode _ _
  | dollarQuoted tag value =>
    rcases stepDollarQuoted_cases ts tag (value ++ [c]) with ⟨content, _, heq⟩ | ⟨_, heq⟩
    · show Tagged (stepDollarQuoted _ _ _)
      rw [heq]
      exact nofun
    · show Tagged (stepDollarQuoted _ _ _)
      rw [heq]
      exact h
  | lineComment =>
    show Tagged (ite _ _ _)
    split <;> exact nofun
  | blockComment depth last =>
    obtain ⟨m, heq, _, hnone⟩ := stepBlockComment_eq ts c depth last
    show Tagged (stepBlockComment _ _ _ _)
    rw [heq]
    intro tag htag
    rw [show m.tag? = none from hnone] at htag
    cases htag

theorem tagged_read (t : Text) : (read t).Tagged := by
  induction t using List.reverseRecOn with
  | nil => exact nofun
  | append_singleton front c ih =>
    rw [read_append]
    exact ih.step

/-! ## Values with dashes -/

/-- A quotation that was read or is open has two dashes at the beginning of a
line. -/
def Dashed (s : Reading) : Prop :=
  (∃ token ∈ s.tokens, token.Dashed) ∨ ∃ value, s.mode.held? = some value ∧ dashes <:+: value

theorem dash_notMem_delimiter {tag : Text} (h : .char '-' ∉ tag) : .char '-' ∉ delimiter tag := by
  simpa [delimiter] using h

theorem Dashed.step (h : s.Dashed) (htag : s.Tagged) : (s.step c).Dashed := by
  have hmove := move_step s c
  generalize s.step c = s' at hmove
  rcases h with ⟨token, htoken, hdashed⟩ | ⟨value, hvalue, hdashes⟩
  · exact .inl ⟨token, hmove.tokens_subset htoken, hdashed⟩
  cases hmove with
  | outside hnone =>
    rw [hnone] at hvalue
    cases hvalue
  | grown hvalue' hgrown =>
    rw [Mode.held?_of_value? hvalue'] at hvalue
    cases hvalue
    exact .inr ⟨_, Mode.held?_of_value? hgrown, hdashes.trans (List.prefix_append _ _).isInfix⟩
  | marked hmode =>
    rw [hmode] at hvalue
    cases hvalue
    exact .inr ⟨_, rfl, hdashes⟩
  | doubled hmode =>
    rw [hmode] at hvalue
    cases hvalue
    exact .inr ⟨_, rfl, hdashes.trans (List.prefix_append _ _).isInfix⟩
  | @closed mark _ _ hmode hfresh =>
    rw [hmode] at hvalue
    cases hvalue
    exact .inl ⟨mark.token value, hfresh.subset (List.mem_append_right _ List.mem_cons_self),
      dashed_token.2 hdashes⟩
  | @delimited tag _ content hmode hcontent =>
    rw [hmode] at hvalue
    cases hvalue
    have hwhole : dashes <:+: content ++ delimiter tag :=
      hcontent ▸ hdashes.trans (List.prefix_append _ _).isInfix
    have htag' : .char '-' ∉ tag := htag tag (by rw [hmode]; rfl)
    exact .inl ⟨.constant content, List.mem_append_right _ List.mem_cons_self, content, rfl,
      dashes_infix_of_append hwhole (dash_notMem_delimiter htag')⟩

theorem Dashed.run (h : s.Dashed) (htag : s.Tagged) (t : Text) : (s.run t).Dashed := by
  induction t generalizing s with
  | nil => exact h
  | cons c rest ih => exact ih (h.step htag) htag.step

theorem exists_dashed_withRun {run : Text} :
    (∃ token ∈ withRun ts run, token.Dashed) ↔ ∃ token ∈ ts, token.Dashed := by
  unfold withRun
  split
  · exact Iff.rfl
  · simp [Token.Dashed, Token.value?]

theorem exists_dashed_concat {token : Token} :
    (∃ other ∈ ts ++ [token], other.Dashed) ↔ (∃ other ∈ ts, other.Dashed) ∨ token.Dashed := by
  simp [or_and_right, exists_or]

theorem exists_dashed_ended : (∃ token ∈ s.ended, token.Dashed) ↔ s.Dashed := by
  obtain ⟨ts, mode⟩ := s
  unfold Dashed
  cases mode with
  | code run named =>
    rw [ended, exists_dashed_withRun]
    simp [Mode.held?, Mode.value?]
  | dollar run tag =>
    rw [ended, exists_dashed_withRun]
    simp [Mode.held?, Mode.value?]
  | quoted mark value =>
    rw [ended, exists_dashed_concat]
    simp [Token.Dashed, Token.value?, Mode.held?, Mode.value?]
  | closing mark value =>
    rw [ended, exists_dashed_concat, dashed_token]
    simp [Mode.held?]
  | dollarQuoted tag value =>
    rw [ended, exists_dashed_concat]
    simp [Token.Dashed, Token.value?, Mode.held?, Mode.value?]
  | lineComment => simp [ended, Mode.held?, Mode.value?]
  | blockComment depth last =>
    rw [ended, exists_dashed_concat]
    have hne : dashes ≠ [] := by decide
    simp [Token.Dashed, Token.value?, Mode.held?, Mode.value?, hne]

/-- A quotation takes in the dashes of a line that begins in it. -/
theorem dashed_of_lineStart (hstart : Mode.LineStart s.mode) (hquotes : s.mode.quotes = true) :
    (s.run "--".text).Dashed := by
  obtain ⟨ts, mode⟩ := s
  have hinfix : ∀ value : Text, dashes <:+: value ++ [.char '\n'] ++ [.char '-'] ++ [.char '-'] :=
      fun value => by
    rw [List.append_assoc, List.append_assoc]
    exact (List.suffix_append value dashes).isInfix
  cases hstart with
  | code => cases hquotes
  | quoted mark value =>
    have hrun : run ⟨ts, .quoted mark (value ++ [.char '\n'])⟩ "--".text =
        ⟨ts, .quoted mark (value ++ [.char '\n'] ++ [.char '-'] ++ [.char '-'])⟩ := by
      cases mark <;> rfl
    rw [hrun]
    exact .inr ⟨_, rfl, hinfix value⟩
  | dollarQuoted tag value =>
    have hstep : ∀ value, step ⟨ts, .dollarQuoted tag value⟩ '-' =
        ⟨ts, .dollarQuoted tag (value ++ [.char '-'])⟩ := fun _ =>
          stepDollarQuoted_concat (by decide)
    have hrun : run ⟨ts, .dollarQuoted tag (value ++ [.char '\n'])⟩ "--".text =
        ⟨ts, .dollarQuoted tag (value ++ [.char '\n'] ++ [.char '-'] ++ [.char '-'])⟩ := by
      show step (step _ '-') '-' = _
      rw [hstep, hstep]
    rw [hrun]
    exact .inr ⟨_, rfl, hinfix value⟩
  | blockComment depth => cases hquotes

/-! ## Texts without dashes -/

/-- What was read has no value with dashes, and no value ends with the beginning of
some unless the text that was read does. -/
structure Undashed (text : Text) (s : Reading) : Prop where
  tokens : ∀ token ∈ s.tokens, ¬token.Dashed
  held : ∀ value, s.mode.held? = some value → ¬dashes <:+: value
  ending : ∀ value, s.mode.value? = some value →
    ∀ front ∈ [[.char '\n'], [.char '\n', .char '-']], front <:+ value → front <:+ text

theorem concat_suffix_concat {front t : Text} (h : front <:+ t) : front ++ [c] <:+ t ++ [c] := by
  obtain ⟨before, rfl⟩ := h
  exact ⟨before, (List.append_assoc _ _ _).symm⟩

/-- A value that grows with the text has dashes only when the text has. -/
theorem not_dashes_concat {text value : Text} (hvalue : ¬dashes <:+: value)
    (hending : ∀ front ∈ [[.char '\n'], [.char '\n', .char '-']], front <:+ value → front <:+ text)
    (htext : ¬dashes <:+: text ++ [c]) : ¬dashes <:+: value ++ [c] := by
  rw [List.infix_concat_iff, not_or]
  refine ⟨fun hsuffix => htext ?_, hvalue⟩
  rcases List.suffix_concat_iff.1 hsuffix with hnil | ⟨front, hfront, hsuffix⟩
  · cases hnil
  · have hsplit : [.char '\n', .char '-'] ++ [.char '-'] = front ++ [c] := hfront
    have hboth := List.append_inj' hsplit rfl
    rw [hfront]
    exact (concat_suffix_concat (hending front (by simp [← hboth.1]) hsuffix)).isInfix

theorem ending_concat {text value : Text}
    (hending : ∀ front ∈ [[.char '\n'], [.char '\n', .char '-']], front <:+ value →
    front <:+ text) :
    ∀ front ∈ [[.char '\n'], [.char '\n', .char '-']], front <:+ value ++ [c] →
      front <:+ text ++ [c] := by
  intro front hfront hsuffix
  rcases List.suffix_concat_iff.1 hsuffix with hnil | ⟨before, rfl, hbefore⟩
  · rw [hnil]
    exact List.nil_suffix
  · refine concat_suffix_concat ?_
    simp only [List.mem_cons, List.not_mem_nil, or_false] at hfront
    rcases hfront with hone | htwo
    · have hone : before ++ [c] = [] ++ [.char '\n'] := hone
      obtain ⟨rfl, _⟩ := List.append_inj' hone rfl
      exact List.nil_suffix
    · have htwo : before ++ [c] = [.char '\n'] ++ [.char '-'] := htwo
      obtain ⟨rfl, _⟩ := List.append_inj' htwo rfl
      exact hending [.char '\n'] (by simp) hbefore

theorem undashed_of_fresh {text : Text} {s' : Reading} (hfresh : Fresh ts s')
    (h : ∀ token ∈ ts, ¬token.Dashed) : s'.Undashed text where
  tokens token htoken := by
    rcases hfresh.tokens token htoken with hold | hnone
    · exact h token hold
    · rintro ⟨value, hvalue, _⟩
      rw [hnone] at hvalue
      cases hvalue
  held value hvalue := by
    rw [hfresh.held value hvalue]
    decide
  ending value hvalue front hfront hsuffix := by
    rw [hfresh.held value (Mode.held?_of_value? hvalue), List.suffix_nil] at hsuffix
    rw [hsuffix] at hfront
    simp at hfront

theorem mem_of_suffix_concat {front value : Text} (h : front <:+ value ++ [c])
    (hne : front ≠ []) : c ∈ front := by
  rcases List.suffix_concat_iff.1 h with hnil | ⟨before, rfl, _⟩
  · exact absurd hnil hne
  · exact List.mem_append_right _ List.mem_cons_self

theorem mark_notMem_dashes (mark : Mark) : mark.char ∉ dashes := by
  cases mark <;> decide

theorem Undashed.step {text : Text} (h : s.Undashed text) (htext : ¬dashes <:+: text ++ [c]) :
    (s.step c).Undashed (text ++ [c]) := by
  have hmove := move_step s c
  generalize s.step c = s' at hmove
  cases hmove with
  | outside _ hfresh => exact undashed_of_fresh hfresh h.tokens
  | @grown m value hvalue hgrown =>
    have hheld := Mode.held?_of_value? hvalue
    refine ⟨h.tokens, fun other hother => ?_, fun other hother => ?_⟩
    · rw [Mode.held?_of_value? hgrown] at hother
      obtain rfl := Option.some.inj hother
      exact not_dashes_concat (h.held value hheld) (h.ending value hvalue) htext
    · rw [hgrown] at hother
      obtain rfl := Option.some.inj hother
      exact ending_concat (h.ending value hvalue)
  | @marked mark value hmode hc =>
    refine ⟨h.tokens, ?_, nofun⟩
    rintro _ ⟨⟩
    exact h.held value (by rw [hmode]; rfl)
  | @doubled mark value hmode hc =>
    have hmark : c ∉ dashes := hc ▸ mark_notMem_dashes mark
    refine ⟨h.tokens, ?_, ?_⟩
    · rintro _ ⟨⟩
      rw [List.infix_concat_iff, not_or]
      exact ⟨fun hsuffix => hmark (mem_of_suffix_concat hsuffix nofun),
        h.held value (by rw [hmode]; rfl)⟩
    · rintro _ ⟨⟩ front hfront hsuffix
      have hfacts : ∀ front ∈ [[.char '\n'], [.char '\n', .char '-']], front ≠ [] ∧
          front ⊆ dashes := by decide
      obtain ⟨hne, hsubset⟩ := hfacts front hfront
      exact absurd (hsubset (mem_of_suffix_concat hsuffix hne)) hmark
  | @closed mark value s' hmode hfresh =>
    refine undashed_of_fresh hfresh fun token htoken => ?_
    rcases List.mem_append.1 htoken with hold | hnew
    · exact h.tokens token hold
    · rw [List.mem_singleton.1 hnew, dashed_token]
      exact h.held value (by rw [hmode]; rfl)
  | @delimited tag value content hmode hcontent =>
    refine ⟨fun token htoken => ?_, nofun, nofun⟩
    rcases List.mem_append.1 htoken with hold | hnew
    · exact h.tokens token hold
    · rw [List.mem_singleton.1 hnew]
      rintro ⟨_, ⟨⟩, hdashes⟩
      refine not_dashes_concat (h.held value (by rw [hmode]; rfl))
        (h.ending value (by rw [hmode]; rfl)) htext ?_
      rw [hcontent]
      exact hdashes.trans (List.prefix_append _ _).isInfix

theorem undashed_read {t : Text} (h : ¬dashes <:+: t) : (read t).Undashed t := by
  induction t using List.reverseRecOn with
  | nil => exact ⟨nofun, nofun, nofun⟩
  | append_singleton front c ih =>
    rw [read_append]
    exact (ih fun hfront => h (hfront.trans (List.prefix_append _ _).isInfix)).step h

end Reading

theorem not_dashed_of_mem_tokens {t : Text} (h : ¬dashes <:+: t) :
    ∀ token ∈ tokens t, ¬token.Dashed := by
  intro token htoken hdashed
  have hundashed := Reading.undashed_read h
  rcases Reading.exists_dashed_ended.1 ⟨token, htoken, hdashed⟩ with
    ⟨other, hother, hdashed⟩ | hheld
  · exact hundashed.tokens other hother hdashed
  · obtain ⟨value, hvalue, hdashes⟩ := hheld
    exact hundashed.held value hvalue hdashes

end Sql
end SchemaLedger
