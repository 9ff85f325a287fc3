import SchemaLedger.Proofs.Text.Line

/-!
# Reading SQL

The database reads a text character by character.  Quotes and dollar tags open
quotations, a quote inside its own quotation is doubled, two dashes open a comment
up to the end of the line, and a slash with a star opens one that may have others
inside.  Between all these, blanks separate runs of characters.  Backslashes are
characters like others, and no letter in front of a quote changes how it is read.
-/

namespace SchemaLedger
namespace Sql

def isSpace (c : CodePoint) : Bool :=
  c == ' ' || (9 ≤ c.toNat && c.toNat ≤ 13)

def isNameStart (c : CodePoint) : Bool :=
  c.isAlpha || c == '_' || 128 ≤ c.toNat

def isNamePart (c : CodePoint) : Bool :=
  isNameStart c || c.isDigit

/-- What a quotation stands for decides which mark opens and closes it. -/
inductive Mark
  | constant
  | name
deriving DecidableEq, Repr

def Mark.char : Mark → CodePoint
  | .constant => '\''
  | .name => '"'

inductive Token
  /-- Characters outside of quotations and comments with no blank between them. -/
  | run (text : Text)
  | constant (value : Text)
  | name (value : Text)
  /-- A quotation that is not closed, or with no value a comment that is not. -/
  | unclosed (value : Text)
deriving DecidableEq, Repr

def Mark.token : Mark → Text → Token
  | .constant => .constant
  | .name => .name

/-- What the reading is in the middle of. -/
inductive Mode
  /-- A run, and whether it ends with a name, where a dollar sign opens nothing. -/
  | code (run : Text) (named : Bool)
  /-- A dollar sign behind a run and what may be the tag of a quotation. -/
  | dollar (run tag : Text)
  | quoted (mark : Mark) (value : Text)
  /-- A mark in its own quotation closes it unless a second one follows. -/
  | closing (mark : Mark) (value : Text)
  | dollarQuoted (tag value : Text)
  | lineComment
  /-- A comment inside `depth` others, and the character that may be the first half
  of a comment mark. -/
  | blockComment (depth : Nat) (last : Option CodePoint)
deriving DecidableEq, Repr

structure Reading where
  tokens : List Token
  mode : Mode
deriving DecidableEq, Repr

def delimiter (tag : Text) : Text :=
  .char '$' :: tag ++ [.char '$']

namespace Reading

def start : Reading :=
  ⟨[], .code [] false⟩

def withRun (tokens : List Token) (run : Text) : List Token :=
  if run = [] then tokens else tokens ++ [.run run]

def stepCode (tokens : List Token) (run : Text) (named : Bool) (c : CodePoint) : Reading :=
  if isSpace c then ⟨withRun tokens run, .code [] false⟩
  else if c = '\'' then ⟨withRun tokens run, .quoted .constant []⟩
  else if c = '"' then ⟨withRun tokens run, .quoted .name []⟩
  else if c = '-' ∧ run.getLast? = some (.char '-') then ⟨withRun tokens run.dropLast, .lineComment⟩
  else if c = '*' ∧ run.getLast? = some (.char '/') then
    ⟨withRun tokens run.dropLast, .blockComment 0 none⟩
  else if c = '$' ∧ named = false then ⟨tokens, .dollar run []⟩
  else ⟨tokens, .code (run ++ [c]) (isNameStart c || named && (isNamePart c || c == '$'))⟩

/-- A text without a closing delimiter at its end stays open. -/
def stepDollarQuoted (tokens : List Token) (tag value : Text) : Reading :=
  if (delimiter tag).isSuffixOf value then
    ⟨tokens ++ [.constant (value.take (value.length - (delimiter tag).length))], .code [] false⟩
  else ⟨tokens, .dollarQuoted tag value⟩

/-- The character if it may be the first half of a comment mark. -/
def half? (c : CodePoint) : Option CodePoint :=
  if c = '*' ∨ c = '/' then some c else none

def stepBlockComment (tokens : List Token) (depth : Nat) (last : Option CodePoint) (c : CodePoint) :
    Reading :=
  if last = some (.char '*') ∧ c = '/' then
    match depth with
    | 0 => ⟨tokens, .code [] false⟩
    | depth + 1 => ⟨tokens, .blockComment depth none⟩
  else if last = some (.char '/') ∧ c = '*' then ⟨tokens, .blockComment (depth + 1) none⟩
  else ⟨tokens, .blockComment depth (half? c)⟩

def step (s : Reading) (c : CodePoint) : Reading :=
  match s.mode with
  | .code run named => stepCode s.tokens run named c
  | .dollar run tag =>
    if c = '$' then ⟨withRun s.tokens run, .dollarQuoted tag []⟩
    else if isNameStart c || tag ≠ [] && isNamePart c then ⟨s.tokens, .dollar run (tag ++ [c])⟩
    else stepCode s.tokens (run ++ .char '$' :: tag) (tag ≠ []) c
  | .quoted mark value =>
    if c = mark.char then ⟨s.tokens, .closing mark value⟩
    else ⟨s.tokens, .quoted mark (value ++ [c])⟩
  | .closing mark value =>
    if c = mark.char then ⟨s.tokens, .quoted mark (value ++ [c])⟩
    else stepCode (s.tokens ++ [mark.token value]) [] false c
  | .dollarQuoted tag value => stepDollarQuoted s.tokens tag (value ++ [c])
  | .lineComment =>
    if c = '\n' ∨ c = '\r' then ⟨s.tokens, .code [] false⟩ else ⟨s.tokens, .lineComment⟩
  | .blockComment depth last => stepBlockComment s.tokens depth last c

def run (s : Reading) (t : Text) : Reading :=
  t.foldl step s

/-- The tokens at the end of a text, with what it ends in the middle of. -/
def ended (s : Reading) : List Token :=
  match s.mode with
  | .code run _ => withRun s.tokens run
  | .dollar run tag => withRun s.tokens (run ++ .char '$' :: tag)
  | .quoted _ value => s.tokens ++ [.unclosed value]
  | .closing mark value => s.tokens ++ [mark.token value]
  | .dollarQuoted _ value => s.tokens ++ [.unclosed value]
  | .lineComment => s.tokens
  | .blockComment _ _ => s.tokens ++ [.unclosed []]

end Reading

def read (t : Text) : Reading :=
  Reading.start.run t

/-- The tokens of a text, comments left out. -/
def tokens (t : Text) : List Token :=
  (read t).ended

example : tokens "f('a''b') /* c /* d */ */ $q$ $$ '$q$ x$$ -- e".text =
    [.run "f(".text, .constant "a'b".text, .run ")".text, .constant " $$ '".text,
      .run "x$$".text] := by
  decide +kernel

theorem Reading.run_append (s : Reading) (t u : Text) : s.run (t ++ u) = (s.run t).run u :=
  List.foldl_append

theorem read_append (t u : Text) : read (t ++ u) = (read t).run u :=
  Reading.start.run_append t u

/-! ## What a step does -/

namespace Mode

/-- What a quotation that is open holds so far. -/
def value? : Mode → Option Text
  | quoted _ value => some value
  | dollarQuoted _ value => some value
  | _ => none

/-- What a quotation holds, also if its last mark may close it. -/
def held? : Mode → Option Text
  | closing _ value => some value
  | m => m.value?

/-- The tag of a quotation, or what may become one. -/
def tag? : Mode → Option Text
  | dollar _ tag => some tag
  | dollarQuoted tag _ => some tag
  | _ => none

theorem held?_of_value? {m : Mode} {value : Text} (h : m.value? = some value) :
    m.held? = some value := by
  cases m <;> first | exact h | cases h

end Mode

def Token.value? : Token → Option Text
  | run _ => none
  | constant value => some value
  | name value => some value
  | unclosed value => some value

namespace Reading

/-- Nothing but a run is added to the tokens, and a quotation that is opened holds
nothing yet. -/
structure Fresh (ts : List Token) (s : Reading) : Prop where
  tokens : ∀ token ∈ s.tokens, token ∈ ts ∨ token.value? = none
  subset : ts ⊆ s.tokens
  held : ∀ value, s.mode.held? = some value → value = []

theorem fresh_of_tokens_eq {ts : List Token} {m : Mode} (h : m.held? = none) : Fresh ts ⟨ts, m⟩ :=
  ⟨fun _ => .inl, fun _ => id, by simp [h]⟩

theorem fresh_withRun {run : Text} {ts : List Token} {m : Mode}
    (h : ∀ value, m.held? = some value → value = []) : Fresh ts ⟨withRun ts run, m⟩ := by
  unfold withRun
  split
  · exact ⟨fun _ => .inl, fun _ => id, h⟩
  · refine ⟨fun token htoken => ?_, List.subset_append_left _ _, h⟩
    rcases List.mem_append.1 htoken with hold | hnew
    · exact .inl hold
    · rw [List.mem_singleton.1 hnew]
      exact .inr rfl

variable (ts : List Token) (run tag value : Text) (named : Bool) (c : CodePoint)

theorem fresh_stepCode : Fresh ts (stepCode ts run named c) := by
  unfold stepCode
  repeat' split
  · exact fresh_withRun nofun
  · exact fresh_withRun (by simp [Mode.held?, Mode.value?])
  · exact fresh_withRun (by simp [Mode.held?, Mode.value?])
  · exact fresh_withRun nofun
  · exact fresh_withRun nofun
  · exact fresh_of_tokens_eq rfl
  · exact fresh_of_tokens_eq rfl

theorem tag_stepCode : ∀ tag, (stepCode ts run named c).mode.tag? = some tag → tag = [] := by
  unfold stepCode
  repeat' split
  all_goals simp [Mode.tag?]

theorem step_dollar :
    step ⟨ts, .dollar run tag⟩ c = ⟨withRun ts run, .dollarQuoted tag []⟩ ∨
      c ≠ '-' ∧ step ⟨ts, .dollar run tag⟩ c = ⟨ts, .dollar run (tag ++ [c])⟩ ∨
      step ⟨ts, .dollar run tag⟩ c = stepCode ts (run ++ .char '$' :: tag) (tag ≠ []) c := by
  by_cases hc : c = '$'
  · exact .inl (if_pos hc)
  · by_cases hpart : (isNameStart c || tag ≠ [] && isNamePart c) = true
    · refine .inr (.inl ⟨?_, (if_neg hc).trans (if_pos hpart)⟩)
      rintro rfl
      have hstart : isNameStart '-' = false := by decide
      have hnone : isNamePart '-' = false := by decide
      simp [hstart, hnone] at hpart
    · exact .inr (.inr ((if_neg hc).trans (if_neg hpart)))

theorem step_closing (mark : Mark) :
    c = mark.char ∧ step ⟨ts, .closing mark value⟩ c = ⟨ts, .quoted mark (value ++ [c])⟩ ∨
      step ⟨ts, .closing mark value⟩ c = stepCode (ts ++ [mark.token value]) [] false c := by
  by_cases hc : c = mark.char
  · exact .inl ⟨hc, if_pos hc⟩
  · exact .inr (if_neg hc)

theorem stepDollarQuoted_cases :
    (∃ content, value = content ++ delimiter tag ∧
      stepDollarQuoted ts tag value = ⟨ts ++ [.constant content], .code [] false⟩) ∨
      ¬delimiter tag <:+ value ∧ stepDollarQuoted ts tag value = ⟨ts, .dollarQuoted tag value⟩ := by
  by_cases hclosed : delimiter tag <:+ value
  · obtain ⟨content, rfl⟩ := hclosed
    refine .inl ⟨content, rfl, ?_⟩
    rw [stepDollarQuoted, if_pos (List.isSuffixOf_iff_suffix.2 (List.suffix_append _ _)),
      List.length_append, Nat.add_sub_cancel, List.take_left]
  · exact .inr ⟨hclosed, if_neg fun h => hclosed (List.isSuffixOf_iff_suffix.1 h)⟩

theorem stepBlockComment_eq (depth : Nat) (last : Option CodePoint) :
    ∃ m : Mode, stepBlockComment ts depth last c = ⟨ts, m⟩ ∧ m.held? = none ∧ m.tag? = none := by
  unfold stepBlockComment
  repeat' split
  all_goals exact ⟨_, rfl, rfl, rfl⟩

/-- What a character does to the quotation that it comes in. -/
inductive Move (c : CodePoint) (s : Reading) : Reading → Prop
  /-- It comes in no quotation, or behind one. -/
  | outside {s' : Reading} : s.mode.held? = none → Fresh s.tokens s' → Move c s s'
  | grown {m : Mode} {value : Text} : s.mode.value? = some value →
      m.value? = some (value ++ [c]) → Move c s ⟨s.tokens, m⟩
  | marked {mark : Mark} {value : Text} : s.mode = .quoted mark value → c = mark.char →
      Move c s ⟨s.tokens, .closing mark value⟩
  | doubled {mark : Mark} {value : Text} : s.mode = .closing mark value → c = mark.char →
      Move c s ⟨s.tokens, .quoted mark (value ++ [c])⟩
  | closed {mark : Mark} {value : Text} {s' : Reading} : s.mode = .closing mark value →
      Fresh (s.tokens ++ [mark.token value]) s' → Move c s s'
  | delimited {tag value content : Text} : s.mode = .dollarQuoted tag value →
      value ++ [c] = content ++ delimiter tag →
      Move c s ⟨s.tokens ++ [.constant content], .code [] false⟩

theorem Move.tokens_subset {c : CodePoint} {s s' : Reading} (h : Move c s s') :
    s.tokens ⊆ s'.tokens := by
  cases h with
  | outside _ hfresh => exact hfresh.subset
  | grown => exact fun _ => id
  | marked => exact fun _ => id
  | doubled => exact fun _ => id
  | closed _ hfresh => exact fun _ htoken => hfresh.subset (List.mem_append_left _ htoken)
  | delimited => exact List.subset_append_left _ _

theorem move_step (s : Reading) (c : CodePoint) : Move c s (s.step c) := by
  obtain ⟨ts, mode⟩ := s
  cases mode with
  | code run named => exact .outside rfl (fresh_stepCode ts run named c)
  | dollar run tag =>
    refine .outside rfl ?_
    rcases step_dollar ts run tag c with heq | ⟨_, heq⟩ | heq
    · rw [heq]
      exact fresh_withRun (by simp [Mode.held?, Mode.value?])
    · rw [heq]
      exact fresh_of_tokens_eq rfl
    · rw [heq]
      exact fresh_stepCode ts _ _ c
  | quoted mark value =>
    by_cases hc : c = mark.char
    · have heq : step ⟨ts, .quoted mark value⟩ c = ⟨ts, .closing mark value⟩ := if_pos hc
      rw [heq]
      exact .marked rfl hc
    · have heq : step ⟨ts, .quoted mark value⟩ c = ⟨ts, .quoted mark (value ++ [c])⟩ := if_neg hc
      rw [heq]
      exact .grown rfl rfl
  | closing mark value =>
    rcases step_closing ts value c mark with ⟨hc, heq⟩ | heq
    · rw [heq]
      exact .doubled rfl hc
    · rw [heq]
      exact .closed rfl (fresh_stepCode _ _ _ c)
  | dollarQuoted tag value =>
    show Move c _ (stepDollarQuoted ts tag (value ++ [c]))
    rcases stepDollarQuoted_cases ts tag (value ++ [c]) with ⟨content, hcontent, heq⟩ | ⟨_, heq⟩
    · rw [heq]
      exact .delimited rfl hcontent
    · rw [heq]
      exact .grown rfl rfl
  | lineComment =>
    refine .outside rfl ?_
    show Fresh ts (ite _ _ _)
    split
    · exact fresh_of_tokens_eq rfl
    · exact fresh_of_tokens_eq rfl
  | blockComment depth last =>
    obtain ⟨m, heq, hheld, _⟩ := stepBlockComment_eq ts c depth last
    refine .outside rfl ?_
    show Fresh ts (stepBlockComment ts depth last c)
    rw [heq]
    exact fresh_of_tokens_eq hheld

end Reading

/-! ## Lines -/

namespace Mode

def quotes (m : Mode) : Bool :=
  m.value?.isSome

def comments : Mode → Bool
  | blockComment _ _ => true
  | _ => false

/-- What a line may begin in the middle of. -/
inductive LineStart : Mode → Prop
  | code : LineStart (code [] false)
  | quoted (mark : Mark) (value : Text) : LineStart (quoted mark (value ++ [.char '\n']))
  | dollarQuoted (tag value : Text) : LineStart (dollarQuoted tag (value ++ [.char '\n']))
  | blockComment (depth : Nat) : LineStart (blockComment depth none)

end Mode

namespace Reading

open Mode (LineStart)

theorem delimiter_not_suffix {tag value : Text} {c : CodePoint} (hc : c ≠ '$') :
    ¬delimiter tag <:+ value ++ [c] := by
  rintro ⟨content, h⟩
  have hlast := congrArg List.getLast? h
  rw [delimiter, ← List.append_assoc, List.getLast?_concat, List.getLast?_concat] at hlast
  exact hc (Option.some.inj hlast).symm

theorem stepDollarQuoted_concat {ts : List Token} {tag value : Text} {c : CodePoint}
    (hc : c ≠ '$') :
    stepDollarQuoted ts tag (value ++ [c]) = ⟨ts, .dollarQuoted tag (value ++ [c])⟩ := by
  rw [stepDollarQuoted, if_neg]
  rw [List.isSuffixOf_iff_suffix]
  exact delimiter_not_suffix hc

theorem step_newline_blockComment {ts : List Token} {depth : Nat} {last : Option CodePoint} :
    step ⟨ts, .blockComment depth last⟩ '\n' = ⟨ts, .blockComment depth none⟩ := by
  simp [step, stepBlockComment, half?]

theorem lineStart_step_newline (s : Reading) : LineStart (s.step '\n').mode := by
  obtain ⟨ts, mode⟩ := s
  cases mode with
  | code run named => exact .code
  | dollar run tag =>
    have hstep : step ⟨ts, .dollar run tag⟩ '\n' =
        stepCode ts (run ++ .char '$' :: tag) (tag ≠ []) '\n' := by
      have hstart : isNameStart '\n' = false := by decide
      have hpart : isNamePart '\n' = false := by decide
      simp [step, hstart, hpart]
    rw [hstep]
    exact .code
  | quoted mark value => cases mark <;> exact .quoted _ value
  | closing mark value => cases mark <;> exact .code
  | dollarQuoted tag value =>
    show LineStart (stepDollarQuoted ts tag (value ++ [.char '\n'])).mode
    rw [stepDollarQuoted_concat (by decide)]
    exact .dollarQuoted tag value
  | lineComment => exact .code
  | blockComment depth last =>
    rw [step_newline_blockComment]
    exact .blockComment depth

theorem lineStart_run_newline (s : Reading) (t : Text) :
    LineStart (s.run (t ++ [.char '\n'])).mode := by
  rw [run_append]
  exact lineStart_step_newline _

theorem run_lineComment {ts : List Token} {t : Text} (h : Text.Unbroken t) :
    run ⟨ts, .lineComment⟩ t = ⟨ts, .lineComment⟩ := by
  induction t with
  | nil => rfl
  | cons c rest ih =>
    have hc : ¬(c = '\n' ∨ c = '\r') := by
      have hbreak := h c List.mem_cons_self
      rintro (rfl | rfl)
      · exact absurd hbreak (by decide)
      · exact absurd hbreak (by decide)
    have hstep : step ⟨ts, .lineComment⟩ c = ⟨ts, .lineComment⟩ := if_neg hc
    rw [run, List.foldl_cons, hstep]
    exact ih fun x hx => h x (List.mem_cons_of_mem c hx)

/-- Between quotations and comments a line that begins with two dashes is read over. -/
theorem run_commentLine {ts : List Token} {line : Text} (hdashes : "--".text <+: line)
    (hline : Text.Unbroken line) :
    run ⟨ts, .code [] false⟩ (line ++ [.char '\n']) = ⟨ts, .code [] false⟩ := by
  obtain ⟨rest, rfl⟩ := hdashes
  have hopen : run ⟨ts, .code [] false⟩ "--".text = ⟨ts, .lineComment⟩ := rfl
  rw [run_append, run_append, hopen, run_lineComment (Text.unbroken_append.1 hline).2]
  rfl

/-- Without a comment mark the reading stays in a comment at the same depth. -/
theorem run_blockComment {ts : List Token} {depth : Nat} {last : Option CodePoint} {t : Text}
    (h : ∀ mark ∈ ["/*".text, "*/".text], ¬mark <:+: last.toList ++ t) :
    ∃ final, run ⟨ts, .blockComment depth last⟩ t = ⟨ts, .blockComment depth final⟩ := by
  induction t generalizing last with
  | nil => exact ⟨last, rfl⟩
  | cons c rest ih =>
    have hno : ∀ a, [a, c] ∈ ["/*".text, "*/".text] → last ≠ some a := by
      rintro a hmark rfl
      exact h _ hmark ⟨[], rest, rfl⟩
    have hopen : ¬(last = some (.char '/') ∧ c = '*') := by
      rintro ⟨hlast, rfl⟩
      exact hno '/' (by decide) hlast
    have hclose : ¬(last = some (.char '*') ∧ c = '/') := by
      rintro ⟨hlast, rfl⟩
      exact hno '*' (by decide) hlast
    have hstep : step ⟨ts, .blockComment depth last⟩ c = ⟨ts, .blockComment depth (half? c)⟩ :=
      (if_neg hclose).trans (if_neg hopen)
    have hnext : (half? c).toList ++ rest <:+ last.toList ++ c :: rest := by
      refine List.suffix_append_of_suffix ?_
      unfold half?
      split
      · exact List.suffix_rfl
      · exact List.suffix_cons c rest
    have hrest : ∀ mark ∈ ["/*".text, "*/".text], ¬mark <:+: (half? c).toList ++ rest :=
      fun mark hmark hinner => h mark hmark (hinner.trans hnext.isInfix)
    obtain ⟨final, hrun⟩ := ih hrest
    exact ⟨final, (congrArg (run · rest) hstep).trans hrun⟩

end Reading

end Sql
end SchemaLedger
