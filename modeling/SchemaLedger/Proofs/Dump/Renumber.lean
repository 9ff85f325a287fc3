import SchemaLedger.Proofs.Dump.Cleaned
import SchemaLedger.Proofs.Dump.Origin
import SchemaLedger.Proofs.Dump.Part

/-!
# Lines of a dump numbered anew

The scan passes the lines of tokens on to statements and faults and never looks
at them.  So whatever numbers the lines have, the scan does the same, and a dump
behind another one is split as it is by itself, only further down.
-/

namespace SchemaLedger
namespace Dump

open Text

/-! ## New numbers -/

section Renumber

variable (f : Int → Int)

def Token.renumber (t : Token) : Token :=
  { t with line := f t.line }

def Statement.renumber (s : Statement) : Statement :=
  { s with line := f s.line }

def Capture.renumber (c : Capture) : Capture :=
  { c with line := f c.line }

def State.renumber : State → State
  | .scanning => .scanning
  | .pending held => .pending (held.map (Token.renumber f))
  | .capturing c => .capturing (c.renumber f)

def Step.renumber (s : Step) : Step :=
  ⟨s.state.renumber f, s.residual, s.extracted.map (Statement.renumber f)⟩

def Fault.renumber : Fault → Fault
  | .unnamed kind line => .unnamed kind (f line)
  | .unfinished c => .unfinished (c.renumber f)
  | .nothingBefore => .nothingBefore

def Progress.renumber (p : Progress) : Progress :=
  ⟨p.state.renumber f, p.residual, p.statements.map (Statement.renumber f)⟩

/-- An outcome whose value and fault are numbered anew. -/
def renumbered {α : Type} (value : α → α) (r : Except Fault α) : Except Fault α :=
  (r.map value).mapError (Fault.renumber f)

end Renumber

variable {f : Int → Int}

theorem written_map_renumber (tokens : List Token) :
    written (tokens.map (Token.renumber f)) = written tokens := by
  rw [written, List.flatMap_map]
  rfl

theorem map_keyword_renumber (tokens : List Token) :
    (tokens.map (Token.renumber f)).map Token.keyword = tokens.map Token.keyword := by
  rw [List.map_map]
  rfl

/-! ## The scan under new numbers -/

namespace Capture

variable {c after : Capture} {token : Token} {closes : Bool}

/-- Of its token a move needs the word, and its text for the text alone. -/
theorem Moves.of_word (h : c.Moves token after closes) (f : Int → Int) (other : Token)
    (hword : other.word = token.word) :
    (c.renumber f).Moves other { after.renumber f with text := c.text ++ other.text } closes := by
  have hkeyword : other.keyword = token.keyword := congrArg capitals hword
  cases h with
  | functionName hphase hname hkind =>
    rw [← hword] at hname ⊢
    exact .functionName hphase hname hkind
  | otherName hphase hname hkind =>
    rw [← hword] at hname ⊢
    exact .otherName hphase hname hkind
  | signature hphase hplain => exact .signature hphase (hkeyword ▸ hplain)
  | returns hphase hreturns => exact .returns hphase (hkeyword.trans hreturns)
  | trigger hphase htrigger => exact .trigger hphase (hkeyword.trans htrigger)
  | type hphase htype => exact .type hphase (hkeyword ▸ htype)
  | opens tag hphase htag hrest =>
    rw [← hword] at htag hrest
    exact .opens tag hphase htag hrest
  | quotes tag hphase htag hrest =>
    rw [← hword] at htag hrest
    exact .quotes tag hphase htag hrest
  | atomic hphase htag hatomic hbegin =>
    rw [← hword] at htag
    exact .atomic hphase htag (hkeyword.trans hatomic) hbegin
  | clause hphase htag hplain =>
    rw [← hword] at htag
    exact .clause hphase htag fun hatomic => hplain (hkeyword.symm.trans hatomic)
  | insideAtomic hphase hinside =>
    rw [← hkeyword] at hinside
    exact .insideAtomic hphase hinside
  | endsAtomic hphase hends =>
    rw [← hkeyword] at hends
    exact .endsAtomic hphase hends
  | insideBody hphase hinside =>
    rw [← hword] at hinside
    exact .insideBody hphase hinside
  | endsBody hphase hends =>
    rw [← hword] at hends
    exact .endsBody hphase hends
  | behind hphase => exact .behind hphase

theorem Moves.of_text (h : c.Moves token after closes) (f : Int → Int) (other : Token)
    (htext : other.text = token.text) : (c.renumber f).Moves other (after.renumber f) closes := by
  have hmove := h.of_word f other (congrArg trim htext)
  rwa [htext, ← h.text] at hmove

theorem Fails.renumber {fault : Fault} (h : Fails c token fault) (f : Int → Int) :
    Fails (c.renumber f) (token.renumber f) (fault.renumber f) := by
  cases h with
  | unnamed hphase hname => exact .unnamed hphase hname
  | nothingBefore hphase htag hword hbefore => exact .nothingBefore hphase htag hword hbefore

theorem outcome_renumber (after : Capture) (word : Text) (closes : Bool) :
    (after.renumber f).outcome word closes = (after.outcome word closes).renumber f := by
  rcases outcome_cases after word closes with hgo | ⟨hends, hdone⟩
  · cases closes with
    | false => rfl
    | true =>
      have hopen : endsStatement word = false := by
        cases hword : endsStatement word with
        | false => rfl
        | true =>
          rw [outcome_of_ends hword] at hgo
          cases hgo
      rw [hgo, outcome_of_open fun _ => hopen]
      rfl
  · cases closes with
    | false => cases hdone
    | true =>
      rw [hdone, outcome_of_ends hends]
      rfl

theorem step_renumber (f : Int → Int) (c : Capture) (token : Token) :
    (c.renumber f).step (token.renumber f) = renumbered f (Step.renumber f) (c.step token) := by
  rcases moves_or_fails c token with ⟨after, closes, hmove⟩ | ⟨fault, hfails⟩
  · have hnew := hmove.of_text f (token.renumber f) rfl
    rw [step_of_moves hmove, step_of_moves hnew, outcome_renumber]
    rfl
  · rw [step_of_fails hfails, step_of_fails (hfails.renumber f)]
    rfl

end Capture

theorem pendingStep_renumber (f : Int → Int) (create : Token) (more : List Token) :
    pendingStep ((create :: more).map (Token.renumber f)) =
      (pendingStep (create :: more)).renumber f := by
  have hwords : headerWords ((create :: more).map (Token.renumber f)) =
      headerWords (create :: more) := map_keyword_renumber more
  unfold pendingStep
  rw [hwords, written_map_renumber]
  cases header? (headerWords (create :: more)) with
  | some header => rfl
  | none =>
    by_cases hstarts : startsHeader (headerWords (create :: more)) = true
    · simp only [if_pos hstarts]
      rfl
    · simp only [if_neg hstarts]
      rfl

theorem step_renumber (f : Int → Int) (state : State) (token : Token) :
    step (state.renumber f) (token.renumber f) =
      renumbered f (Step.renumber f) (step state token) := by
  cases state with
  | scanning =>
    by_cases hcreate : token.keyword = "CREATE".text
    · rw [step_create hcreate]
      exact step_create hcreate
    · rw [step_ordinary hcreate]
      exact step_ordinary hcreate
  | pending held =>
    have hheld : held.map (Token.renumber f) ++ [token.renumber f] =
        (held ++ [token]).map (Token.renumber f) := by
      rw [List.map_append, List.map_singleton]
    obtain ⟨create, more, hcons⟩ := List.exists_cons_of_ne_nil
      (show held ++ [token] ≠ [] by simp)
    show Except.ok (pendingStep _) = renumbered f _ (.ok (pendingStep _))
    rw [hheld, hcons, pendingStep_renumber]
    rfl
  | capturing c => exact c.step_renumber f token

theorem finish_renumber (f : Int → Int) (state : State) :
    finish (state.renumber f) = renumbered f id (finish state) := by
  cases state with
  | scanning => rfl
  | pending held => exact congrArg Except.ok (written_map_renumber held)
  | capturing c => rfl

namespace Progress

theorem add_renumber (p : Progress) (s : Step) :
    (p.renumber f).add (s.renumber f) = (p.add s).renumber f := by
  cases hextracted : s.extracted <;> simp [add, renumber, Step.renumber, hextracted]

theorem scan_renumber (f : Int → Int) (p : Progress) (tokens : List Token) :
    (p.renumber f).scan (tokens.map (Token.renumber f)) =
      renumbered f (Progress.renumber f) (p.scan tokens) := by
  induction tokens generalizing p with
  | nil => rfl
  | cons token rest ih =>
    rw [List.map_cons, scan, scan]
    have hstep := Dump.step_renumber f p.state token
    rw [show (p.renumber f).state = p.state.renumber f from rfl, hstep]
    cases step p.state token with
    | error fault => rfl
    | ok s =>
      show ((p.renumber f).add (s.renumber f)).scan _ = _
      rw [add_renumber, ih]

end Progress

/-! ## A dump further down -/

theorem numbered_add (line n : Int) (parts : List Text) :
    numbered (line + n) parts = (numbered line parts).map (Token.renumber (· + n)) := by
  induction parts generalizing line with
  | nil => rfl
  | cons part rest ih =>
    have hline : line + n + newlines part = line + newlines part + n := by omega
    rw [numbered, numbered, hline, ih]
    rfl

theorem tokensFrom_add (line n : Int) (t : Text) :
    tokensFrom (line + n) t = (tokensFrom line t).map (Token.renumber (· + n)) :=
  numbered_add line n _

/-- The statements and the residual of a text that starts further down. -/
theorem separateFrom_add (line n : Int) (t : Text) :
    separateFrom (line + n) t =
      renumbered (· + n) (fun parts => (parts.1.map (Statement.renumber (· + n)), parts.2))
        (separateFrom line t) := by
  have hscan : Progress.scan {} ((tokensFrom line t).map (Token.renumber (· + n))) =
      renumbered (· + n) (Progress.renumber (· + n)) (Progress.scan {} (tokensFrom line t)) :=
    Progress.scan_renumber (· + n) {} _
  rw [separateFrom, separateFrom, tokensFrom_add, hscan]
  cases Progress.scan {} (tokensFrom line t) with
  | error fault => rfl
  | ok p =>
    have hfinish := finish_renumber (· + n) p.state
    show Except.map _ (finish (p.state.renumber (· + n))) =
      renumbered _ _ (Except.map _ (finish p.state))
    rw [hfinish]
    cases finish p.state with
    | error fault => rfl
    | ok held => rfl

/-! ## Reports of faults -/

/-- The fault is reported at a line, with a text behind the number of the line. -/
structure Fault.Reports (fault : Fault) (line : Int) (text : Text) : Prop where
  atLine : fault.line? = some line
  message_eq : fault.message = "line ".text ++ Text.ofInt line ++ ": ".text ++ text

theorem message_unnamed (kind : ObjectKind) (line : Int) :
    (Fault.unnamed kind line).message =
      "line ".text ++ Text.ofInt line ++ ": CREATE ".text ++ kind.keyword ++
        " has no object name".text := rfl

theorem message_unfinished (c : Capture) :
    (Fault.unfinished c).message =
      "line ".text ++ Text.ofInt c.line ++ ": ".text ++ c.label ++
        " starting here is missing ".text ++ c.missing ++ " before end of input".text := rfl

theorem reports_unnamed (kind : ObjectKind) (line : Int) :
    (Fault.unnamed kind line).Reports line
      ("CREATE ".text ++ kind.keyword ++ " has no object name".text) where
  atLine := rfl
  message_eq := by
    have hopening : ": CREATE ".text = ": ".text ++ "CREATE ".text := rfl
    rw [message_unnamed, hopening]
    simp only [List.append_assoc]

theorem reports_unfinished (c : Capture) :
    (Fault.unfinished c).Reports c.line
      (c.label ++ " starting here is missing ".text ++ c.missing ++
        " before end of input".text) where
  atLine := rfl
  message_eq := by
    rw [message_unfinished]
    simp only [List.append_assoc]

/-- Under new numbers a fault is reported with the same text. -/
theorem Fault.exists_reports {fault : Fault} {line : Int} (h : fault.line? = some line)
    (f : Int → Int) :
    ∃ text, fault.Reports line text ∧ (fault.renumber f).Reports (f line) text := by
  cases fault with
  | unnamed kind number =>
    obtain rfl : number = line := Option.some.inj h
    exact ⟨_, reports_unnamed kind number, reports_unnamed kind (f number)⟩
  | unfinished c =>
    obtain rfl : c.line = line := Option.some.inj h
    exact ⟨_, reports_unfinished c, reports_unfinished (c.renumber f)⟩
  | nothingBefore => cases h

theorem Located.exists_line {tokens : List Token} {fault : Fault} (h : Located tokens fault) :
    ∃ line, fault.line? = some line := by
  cases h with
  | unnamed => exact ⟨_, rfl⟩
  | unfinished => exact ⟨_, rfl⟩

/-! ## Two dumps one behind the other -/

theorem separate_of_startsWord {t : Text} (ht : StartsWord t) :
    separate t = separateFrom 1 t := by
  rw [separate_eq, separateFrom, tokens_of_startsWord (.inr ht), leadingBlanks_of_startsWord ht]
  rfl

section Behind

variable {a b : Text} {p : Progress} (ha : a = [] ∨ EndsBlank a) (hb : StartsWord b)
  (hscan : Progress.scan {} (tokens a) = .ok p) (hstate : p.state = .scanning)

include hscan hstate in
theorem separate_of_scanning :
    separate a = .ok (p.statements, leadingBlanks a ++ p.residual) := by
  rw [separate_eq, hscan]
  simp only [Except.bind, hstate, finish, Except.map, List.append_nil]

include ha hb hscan hstate in
theorem separate_append_renumber :
    separate (a ++ b) =
      (renumbered (· + newlines a)
        (fun parts => (parts.1.map (Statement.renumber (· + newlines a)), parts.2))
        (separate b)).map fun later =>
          (p.statements ++ later.1, leadingBlanks a ++ p.residual ++ later.2) := by
  rw [separate_append_of_scanning (.inr ⟨ha, hb⟩) hscan hstate, separateFrom_add,
    separate_of_startsWord hb]

include ha hb hscan hstate in
theorem split_append_of_error {noise : List Text} {fault : Fault}
    (h : split b noise = .error fault) :
    split (a ++ b) noise = .error (fault.renumber (· + newlines a)) := by
  have hwhole := separate_append_renumber ha hb hscan hstate
  unfold split at h ⊢
  cases hseparate : separate b with
  | error other =>
    rw [hseparate] at h hwhole
    cases h
    rw [hwhole]
    rfl
  | ok parts =>
    rw [hseparate] at h
    cases h

include ha hb hscan hstate in
theorem split_append_of_ok {noise : List Text} {later : Split} (h : split b noise = .ok later) :
    ∃ residual, split (a ++ b) noise =
        .ok ⟨p.statements ++ later.statements.map (Statement.renumber (· + newlines a)),
          cleaned noise (leadingBlanks a ++ p.residual ++ residual)⟩ ∧
      later.bootstrap = cleaned noise residual := by
  have hwhole := separate_append_renumber ha hb hscan hstate
  unfold split at h ⊢
  cases hseparate : separate b with
  | error fault =>
    rw [hseparate] at h
    cases h
  | ok parts =>
    rw [hseparate] at h hwhole
    cases h
    exact ⟨parts.2, by rw [hwhole]; rfl, rfl⟩

end Behind

/-- A dump behind one that ends between statements is split as it is by itself,
further down by the lines of the first: it fails with the same report at the later
line, or its statements follow those of the first.  The bootstrap migration is put
together from both when the first residual ends with a whole line. -/
theorem split_append_of_scanning {a b : Text} {p : Progress} (ha : a = [] ∨ EndsBlank a)
    (hb : StartsWord b) (hscan : Progress.scan {} (tokens a) = .ok p) (hstate : p.state = .scanning)
    (noise : List Text) :
    ∃ early residual, separate a = .ok (early.statements, residual) ∧ split a noise = .ok early ∧
      (∀ late, split (a ++ b) noise = .error late ↔
        ∃ fault, split b noise = .error fault ∧ late = fault.renumber (· + newlines a)) ∧
      (∀ fault, split b noise = .error fault → ∃ line text, fault.Reports line text ∧
        (fault.renumber (· + newlines a)).Reports (line + newlines a) text) ∧
      ∀ later, split b noise = .ok later → ∃ s, split (a ++ b) noise = .ok s ∧
        s.statements =
          early.statements ++ later.statements.map (Statement.renumber (· + newlines a)) ∧
        (residual = [] ∨ residual.getLast? = some (.char '\n') →
          s.bootstrap = early.bootstrap ++ later.bootstrap) := by
  have hearly := separate_of_scanning hscan hstate
  refine ⟨⟨p.statements, cleaned noise (leadingBlanks a ++ p.residual)⟩,
    leadingBlanks a ++ p.residual, hearly, by rw [split, hearly]; rfl, ?_, ?_, ?_⟩
  · intro late
    constructor
    · intro hlate
      cases hsplit : split b noise with
      | error fault =>
        rw [split_append_of_error ha hb hscan hstate hsplit] at hlate
        exact ⟨fault, rfl, (Except.error.inj hlate).symm⟩
      | ok later =>
        obtain ⟨_, hwhole, _⟩ := split_append_of_ok ha hb hscan hstate hsplit
        rw [hwhole] at hlate
        cases hlate
    · rintro ⟨fault, hfault, rfl⟩
      exact split_append_of_error ha hb hscan hstate hfault
  · intro fault hfault
    obtain ⟨line, hline⟩ := (located_of_split hfault).exists_line
    exact ⟨line, fault.exists_reports hline _⟩
  · intro later hlater
    obtain ⟨residual, hwhole, hbootstrap⟩ := split_append_of_ok ha hb hscan hstate hlater
    refine ⟨_, hwhole, rfl, fun hend => ?_⟩
    rw [hbootstrap]
    exact cleaned_append hend residual

def firstDump : Text := "\nSET a;\nCREATE VIEW v AS SELECT 1;\n".text

def firstView : Statement :=
  ⟨.view, "v".text, "CREATE OR REPLACE VIEW v AS SELECT 1;\n".text, 3⟩

/-- Behind a view on the third line comes another one, or one without a name. -/
theorem split_append_of_scanning_views :
    split (firstDump ++ "CREATE VIEW w AS SELECT 2;\nSET b;\n".text) [] =
        .ok ⟨[firstView, ⟨.view, "w".text, "CREATE OR REPLACE VIEW w AS SELECT 2;\n".text, 4⟩],
          "SET a;\nSET b;\n".text⟩ ∧
      split (firstDump ++ "CREATE\nVIEW (w);".text) [] = .error (.unnamed .view 5) := by
  have hscan : Progress.scan {} (tokens firstDump) =
      .ok ⟨.scanning, "SET a;\n".text, [firstView]⟩ := by
    decide +kernel
  have hbefore : EndsBlank firstDump := by decide
  constructor
  · obtain ⟨early, residual, hseparate, hearly, _, _, hbehind⟩ :=
      split_append_of_scanning (.inr hbefore)
        (show StartsWord "CREATE VIEW w AS SELECT 2;\nSET b;\n".text by decide) hscan rfl []
    have hfirst : split firstDump [] = .ok ⟨[firstView], "SET a;\n".text⟩ := by decide +kernel
    have hresidual : separate firstDump = .ok ([firstView], "\nSET a;\n".text) := by
      decide +kernel
    rw [hfirst] at hearly
    cases hearly
    rw [hresidual] at hseparate
    cases hseparate
    obtain ⟨s, hs, hstatements, hbootstrap⟩ := hbehind
      ⟨[⟨.view, "w".text, "CREATE OR REPLACE VIEW w AS SELECT 2;\n".text, 1⟩],
        "SET b;\n".text⟩ (by decide +kernel)
    rw [hs]
    obtain ⟨statements, bootstrap⟩ := s
    have hjoined := hbootstrap (.inr (by decide))
    simp only at hstatements hjoined
    rw [hstatements, hjoined]
    rfl
  · obtain ⟨_, _, _, _, hfails, _, _⟩ := split_append_of_scanning (.inr hbefore)
      (show StartsWord "CREATE\nVIEW (w);".text by decide) hscan rfl []
    exact (hfails _).2 ⟨.unnamed .view 2, by decide +kernel, by decide⟩

end Dump
end SchemaLedger
