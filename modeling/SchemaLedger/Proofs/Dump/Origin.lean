import SchemaLedger.Proofs.Dump.Run
import SchemaLedger.Proofs.Outcome

/-!
# Where a state comes from

Every state of a scan but the one between statements goes back to a `CREATE`
that stood between statements.  Behind it came a part of a header, or a whole
header and the tokens that were captured since.  So an error can always be laid
at a place in the dump, and a scan fails in no other way.
-/

namespace SchemaLedger
namespace Dump

open Text

/-! ## The way of a capture -/

namespace Capture

/-- The captures that tokens lead to from the first one without completing the
statement. -/
inductive Path (first : Capture) : List Token → Capture → Prop
  | start : Path first [] first
  | next {tokens : List Token} {c after : Capture} {token : Token} {closes : Bool}
      (h : Path first tokens c) (hmove : c.Moves token after closes)
      (hopen : closes = true → endsStatement token.word = false) :
      Path first (tokens ++ [token]) after

variable {c after : Capture} {token : Token} {closes : Bool}

theorem Moves.text (h : c.Moves token after closes) : after.text = c.text ++ token.text := by
  cases h <;> rfl

theorem Moves.line (h : c.Moves token after closes) : after.line = c.line := by
  cases h <;> rfl

theorem Moves.phase_ne_name (h : c.Moves token after closes) : after.phase ≠ .name := by
  cases h <;> simp_all [take]

theorem Path.text {first : Capture} {tokens : List Token} (h : Path first tokens c) :
    c.text = first.text ++ written tokens := by
  induction h with
  | start => rw [written_nil, List.append_nil]
  | next _ hmove _ ih =>
    rw [hmove.text, ih, written_append, written_cons, written_nil, List.append_nil,
      List.append_assoc]

theorem Path.line {first : Capture} {tokens : List Token} (h : Path first tokens c) :
    c.line = first.line := by
  induction h with
  | start => rfl
  | next _ hmove _ ih => rw [hmove.line, ih]

/-- Without a token a capture is where it started. -/
theorem Path.tokens_of_name {first : Capture} {tokens : List Token} (h : Path first tokens c)
    (hphase : c.phase = .name) : tokens = [] ∧ c = first := by
  cases h with
  | start => exact ⟨rfl, rfl⟩
  | next _ hmove _ => exact absurd hphase hmove.phase_ne_name

/-- A move that goes on with the capture goes on with what it led to. -/
theorem of_outcome_capturing {word : Text} (h : (after.outcome word closes).state = .capturing c) :
    after = c ∧ (closes = true → endsStatement word = false) := by
  cases closes with
  | false =>
    cases h
    exact ⟨rfl, nofun⟩
  | true =>
    cases hword : endsStatement word with
    | false =>
      rw [outcome_of_open fun _ => hword] at h
      cases h
      exact ⟨rfl, fun _ => rfl⟩
    | true =>
      rw [outcome_of_ends hword] at h
      cases h

/-- A move that completes the statement completes what it led to. -/
theorem of_outcome_extracted {word : Text} {s : Statement}
    (h : (after.outcome word closes).extracted = some s) :
    closes = true ∧ endsStatement word = true ∧ after.statement = s := by
  cases closes with
  | false => cases h
  | true =>
    cases hword : endsStatement word with
    | false =>
      rw [outcome_of_open fun _ => hword] at h
      cases h
    | true =>
      rw [outcome_of_ends hword] at h
      exact ⟨rfl, rfl, Option.some.inj h⟩

end Capture

/-! ## The origin of a state -/

/-- Tokens that begin a statement: a `CREATE` between statements and the words of
a header behind it. -/
structure Begins (before : List Token) (create : Token) (words : List Token)
    (header : Header) : Prop where
  between : ∃ p, Progress.scan {} before = .ok p ∧ p.state = .scanning
  isCreate : create.keyword = "CREATE".text
  mem : header ∈ headers
  words : words.map Token.keyword = header.words

/-- How the tokens read so far lead to a state. -/
inductive Origin : List Token → State → Prop
  | scanning (read : List Token) : Origin read .scanning
  | pending {before more : List Token} {create : Token} {header : Header}
      (hbetween : ∃ p, Progress.scan {} before = .ok p ∧ p.state = .scanning)
      (hcreate : create.keyword = "CREATE".text) (hmem : header ∈ headers)
      (hpart : more.map Token.keyword <+: header.words)
      (hproper : more.map Token.keyword ≠ header.words) :
      Origin (before ++ create :: more) (.pending (create :: more))
  | capturing {before words inner : List Token} {create : Token} {header : Header} {c : Capture}
      (h : Begins before create words header)
      (hpath : Capture.Path (.opened header create.line) inner c) :
      Origin (before ++ (create :: words ++ inner)) (.capturing c)

/-- A step keeps track of where its state comes from. -/
theorem Origin.step {read : List Token} {p : Progress} {token : Token} {s : Step}
    (h : Origin read p.state) (hscan : Progress.scan {} read = .ok p)
    (hs : Dump.step p.state token = .ok s) : Origin (read ++ [token]) s.state := by
  generalize hstate : p.state = state at h hs
  cases h with
  | scanning read =>
    by_cases hcreate : token.keyword = "CREATE".text
    · rw [step_create hcreate] at hs
      cases hs
      have hmem : (⟨["FUNCTION".text], .function, functionOpening⟩ : Header) ∈ headers := by
        simp [headers]
      exact .pending ⟨p, hscan, hstate⟩ hcreate hmem List.nil_prefix (List.cons_ne_nil _ _).symm
    · rw [step_ordinary hcreate] at hs
      cases hs
      exact .scanning _
  | @pending before more create _ hbetween hcreate _ _ _ =>
    cases hs
    have hread : before ++ create :: more ++ [token] = before ++ create :: (more ++ [token]) := by
      simp
    rw [hread]
    rcases pendingStep_cases create (more ++ [token]) with
      ⟨header, hmem, hwords, hstep⟩ | ⟨header, hmem, hpart, hproper, hstep⟩ | hstep
    · have hstart : Capture.Path (.opened header create.line) [] (.opened header create.line) :=
        .start
      have horigin := Origin.capturing ⟨hbetween, hcreate, hmem, hwords⟩ hstart
      rw [List.append_nil] at horigin
      rw [List.cons_append, hstep]
      exact horigin
    · rw [List.cons_append, hstep]
      exact .pending hbetween hcreate hmem hpart hproper
    · rw [List.cons_append, hstep]
      exact .scanning _
  | @capturing before words inner create header c hbegins hpath =>
    obtain ⟨after, closes, hmove, rfl⟩ := Capture.moves_of_step hs
    cases hafter : (after.outcome token.word closes).state with
    | scanning => exact .scanning _
    | pending held =>
      rcases Capture.outcome_cases after token.word closes with hgo | ⟨_, hdone⟩
      · rw [hgo] at hafter
        cases hafter
      · rw [hdone] at hafter
        cases hafter
    | capturing next =>
      obtain ⟨rfl, hopen⟩ := Capture.of_outcome_capturing hafter
      have hread : before ++ (create :: words ++ inner) ++ [token] =
          before ++ (create :: words ++ (inner ++ [token])) := by
        simp
      rw [hread]
      exact .capturing hbegins (hpath.next hmove hopen)

theorem origin_of_scan {read : List Token} {p : Progress}
    (hscan : Progress.scan {} read = .ok p) : Origin read p.state := by
  induction read using List.reverseRecOn generalizing p with
  | nil =>
    cases hscan
    exact .scanning []
  | append_singleton earlier token ih =>
    rw [Progress.scan_append] at hscan
    obtain ⟨q, hq, hlast⟩ := Outcome.bind_eq_ok.1 hscan
    cases hs : Dump.step q.state token with
    | error fault =>
      rw [Progress.scan, hs] at hlast
      cases hlast
    | ok s =>
      rw [Progress.scan_cons [] hs] at hlast
      cases hlast
      exact (ih hq).step hq hs

/-! ## Where a statement comes from -/

theorem capturing_of_extracted {state : State} {token : Token} {s : Step} {st : Statement}
    (h : step state token = .ok s) (hst : s.extracted = some st) : ∃ c, state = .capturing c := by
  cases state with
  | scanning =>
    by_cases hcreate : token.keyword = "CREATE".text
    · rw [step_create hcreate] at h
      cases h
      cases hst
    · rw [step_ordinary hcreate] at h
      cases h
      cases hst
  | pending held =>
    cases h
    obtain ⟨create, more, hcons⟩ := List.exists_cons_of_ne_nil (show held ++ [token] ≠ [] by simp)
    rw [hcons] at hst
    rcases pendingStep_cases create more with
      ⟨_, _, _, hstep⟩ | ⟨_, _, _, _, hstep⟩ | hstep <;> rw [hstep] at hst <;> cases hst
  | capturing c => exact ⟨c, rfl⟩

/-- Some token of a scan completed each of its statements. -/
theorem Progress.exists_step_of_mem {read : List Token} {p : Progress} {st : Statement}
    (hscan : Progress.scan {} read = .ok p) (hst : st ∈ p.statements) :
    ∃ earlier last rest q s, read = earlier ++ last :: rest ∧ Progress.scan {} earlier = .ok q ∧
      Dump.step q.state last = .ok s ∧ s.extracted = some st := by
  induction read using List.reverseRecOn generalizing p with
  | nil =>
    cases hscan
    cases hst
  | append_singleton earlier token ih =>
    rw [Progress.scan_append] at hscan
    obtain ⟨q, hq, hlast⟩ := Outcome.bind_eq_ok.1 hscan
    cases hs : Dump.step q.state token with
    | error fault =>
      rw [Progress.scan, hs] at hlast
      cases hlast
    | ok s =>
      rw [Progress.scan_cons [] hs] at hlast
      cases hlast
      rcases List.mem_append.1 hst with hst | hst
      · obtain ⟨front, last, rest, q', s', rfl, hfront, hstep, hextracted⟩ := ih hq hst
        exact ⟨front, last, rest ++ [token], q', s', by simp, hfront, hstep, hextracted⟩
      · exact ⟨earlier, token, [], q, s, rfl, hq, hs, Option.mem_toList.1 hst⟩

/-- A statement of a scan has come from a header, on the way to a last token that
completed it. -/
theorem exists_path_of_mem {read : List Token} {p : Progress} {st : Statement}
    (hscan : Progress.scan {} read = .ok p) (hst : st ∈ p.statements) :
    ∃ before create words inner last behind header c after,
      read = before ++ (create :: words ++ inner) ++ last :: behind ∧
        Begins before create words header ∧ Capture.Path (.opened header create.line) inner c ∧
        c.Moves last after true ∧ endsStatement last.word = true ∧ after.statement = st := by
  obtain ⟨earlier, last, rest, q, s, rfl, hq, hs, hextracted⟩ :=
    Progress.exists_step_of_mem hscan hst
  obtain ⟨c, hstate⟩ := capturing_of_extracted hs hextracted
  have horigin := origin_of_scan hq
  rw [hstate] at horigin hs
  obtain _ | _ | @⟨before, words, inner, create, header, _, hbegins, hpath⟩ := horigin
  obtain ⟨after, closes, hmove, rfl⟩ := Capture.moves_of_step hs
  obtain ⟨rfl, hends, hafter⟩ := Capture.of_outcome_extracted hextracted
  exact ⟨before, create, words, inner, last, rest, header, c, after, rfl, hbegins, hpath, hmove,
    hends, hafter⟩

/-! ## What every state keeps -/

/-- What holds of every capture of a scan.  A view has no phases of its own between
its name and its end, and only a return type makes a trigger of a function. -/
structure Capture.Proper (c : Capture) : Prop where
  opening : ∃ header ∈ headers, header.opening <+: c.text ∧
    (c.kind = header.kind ∨ header.kind = .function ∧ c.kind = .trigger)
  named : c.name ≠ [] ↔ c.phase ≠ .name
  delimiter : c.phase = .body → ∃ name, IsTagName name ∧ c.delimiter = dollarQuote name
  view : c.kind = .view → c.phase = .name ∨ c.phase = .terminator
  trigger : c.kind = .trigger → c.phase ∈ [.delimiter, .body, .atomicBody, .terminator]

def State.Proper : State → Prop
  | .scanning => True
  | .pending held => ∃ create more, held = create :: more ∧ create.keyword = "CREATE".text ∧
      ∃ header ∈ headers, more.map Token.keyword <+: header.words ∧
        more.map Token.keyword ≠ header.words
  | .capturing c => c.Proper

theorem function_of_ne_view :
    ∀ header ∈ headers, header.kind ≠ .view → header.kind = .function := by
  decide

theorem kind_ne_trigger : ∀ header ∈ headers, header.kind ≠ .trigger := by
  decide

theorem startsWord_opening : ∀ header ∈ headers, StartsWord header.opening := by
  decide

theorem endsBlank_opening : ∀ header ∈ headers, EndsBlank header.opening := by
  decide

namespace Capture

theorem proper_opened {header : Header} (h : header ∈ headers) (line : Int) :
    (opened header line).Proper where
  opening := ⟨header, h, List.prefix_refl _, .inl rfl⟩
  named := ⟨fun hname => absurd rfl hname, fun hphase => absurd rfl hphase⟩
  delimiter := nofun
  view _ := .inl rfl
  trigger hkind := absurd hkind (kind_ne_trigger header h)

variable {c after : Capture} {token : Token} {closes : Bool}

/-- A capture that is neither at its name nor at its end is no view. -/
theorem Proper.kind_ne_view (h : c.Proper) (hname : c.phase ≠ .name)
    (hend : c.phase ≠ .terminator) : c.kind ≠ .view :=
  fun hkind => (h.view hkind).elim hname hend

/-- Where the return type is still to come there is no trigger. -/
theorem Proper.kind_ne_trigger (h : c.Proper)
    (hphase : c.phase ∉ [Phase.delimiter, .body, .atomicBody, .terminator]) : c.kind ≠ .trigger :=
  fun hkind => hphase (h.trigger hkind)

/-- A statement that is no view is a function or, behind its return type, a
trigger. -/
theorem Proper.moves (h : c.Proper) (hmove : c.Moves token after closes) : after.Proper := by
  obtain ⟨header, hheader, hopening, hkinds⟩ := h.opening
  have htext : header.opening <+: after.text := by
    rw [hmove.text]
    exact hopening.trans (List.prefix_append _ _)
  have hnamed : c.phase ≠ .name → c.name ≠ [] := h.named.2
  cases hmove with
  | functionName hphase hname hkind =>
    exact ⟨⟨header, hheader, htext, hkinds⟩, iff_of_true hname nofun, nofun,
      fun hview => absurd (hkind.symm.trans hview) nofun,
      fun htrigger => absurd (hkind.symm.trans htrigger) nofun⟩
  | otherName hphase hname hkind =>
    exact ⟨⟨header, hheader, htext, hkinds⟩, iff_of_true hname nofun, nofun, fun _ => .inr rfl,
      fun _ => by simp⟩
  | signature hphase _ =>
    exact ⟨⟨header, hheader, htext, hkinds⟩, h.named, h.delimiter, h.view, h.trigger⟩
  | returns hphase _ =>
    have hview := h.kind_ne_view (by simp [hphase]) (by simp [hphase])
    have htrigger := h.kind_ne_trigger (by simp [hphase])
    exact ⟨⟨header, hheader, htext, hkinds⟩, iff_of_true (hnamed (by simp [hphase])) nofun, nofun,
      fun hkind => absurd hkind hview, fun hkind => absurd hkind htrigger⟩
  | trigger hphase _ =>
    have hview := h.kind_ne_view (by simp [hphase]) (by simp [hphase])
    have hfunction : header.kind = .function := by
      rcases hkinds with hsame | ⟨hfunction, _⟩
      · exact function_of_ne_view header hheader (hsame ▸ hview)
      · exact hfunction
    exact ⟨⟨header, hheader, htext, .inr ⟨hfunction, rfl⟩⟩,
      iff_of_true (hnamed (by simp [hphase])) nofun, nofun, nofun, fun _ => by simp⟩
  | type hphase _ =>
    have hview := h.kind_ne_view (by simp [hphase]) (by simp [hphase])
    exact ⟨⟨header, hheader, htext, hkinds⟩, iff_of_true (hnamed (by simp [hphase])) nofun, nofun,
      fun hkind => absurd hkind hview, fun _ => by simp⟩
  | opens tag hphase htag _ =>
    have hview := h.kind_ne_view (by simp [hphase]) (by simp [hphase])
    obtain ⟨name, hname, hquote, _⟩ := startsWithQuote_of_dollarTag? htag
    exact ⟨⟨header, hheader, htext, hkinds⟩, iff_of_true (hnamed (by simp [hphase])) nofun,
      fun _ => ⟨name, hname, hquote⟩, fun hkind => absurd hkind hview, fun _ => by simp⟩
  | atomic hphase _ _ _ =>
    have hview := h.kind_ne_view (by simp [hphase]) (by simp [hphase])
    exact ⟨⟨header, hheader, htext, hkinds⟩, iff_of_true (hnamed (by simp [hphase])) nofun, nofun,
      fun hkind => absurd hkind hview, fun _ => by simp⟩
  | quotes tag hphase _ _ | endsAtomic hphase _ | endsBody hphase _ =>
    exact ⟨⟨header, hheader, htext, hkinds⟩, iff_of_true (hnamed (by simp [hphase])) nofun, nofun,
      fun _ => .inr rfl, fun _ => by simp⟩
  | clause hphase _ _ | insideAtomic hphase _ | insideBody hphase _ | behind hphase =>
    exact ⟨⟨header, hheader, htext, hkinds⟩, h.named, h.delimiter, h.view, h.trigger⟩

theorem Path.proper {first : Capture} {tokens : List Token} (h : Path first tokens c)
    (hfirst : first.Proper) : c.Proper := by
  induction h with
  | start => exact hfirst
  | next _ hmove _ ih => exact ih.moves hmove

end Capture

theorem Origin.proper {read : List Token} {state : State} (h : Origin read state) :
    state.Proper := by
  cases h with
  | scanning => trivial
  | pending _ hcreate hmem hpart hproper => exact ⟨_, _, rfl, hcreate, _, hmem, hpart, hproper⟩
  | capturing hbegins hpath => exact hpath.proper (Capture.proper_opened hbegins.mem _)

/-! ## Where a scan fails -/

/-- A fault of a scan and the place of it in the dump: the token in the place of
the name has none, or the dump ends inside the statement of a `CREATE`. -/
inductive Located (tokens : List Token) : Fault → Prop
  | unnamed {before words behind : List Token} {create token : Token} {header : Header}
      (h : Begins before create words header)
      (htokens : tokens = before ++ (create :: words ++ token :: behind))
      (hname : nameIn token.word = []) :
      Located tokens (.unnamed header.kind token.line)
  | unfinished {before words inner : List Token} {create : Token} {header : Header} {c : Capture}
      (h : Begins before create words header)
      (htokens : tokens = before ++ (create :: words ++ inner))
      (hpath : Capture.Path (.opened header create.line) inner c) (hline : c.line = create.line) :
      Located tokens (.unfinished c)

/-- The text of a capture has the words of its opening, so there is always one to
look back at. -/
theorem Capture.Proper.words_text_ne_nil {c : Capture} (h : c.Proper) : words c.text ≠ [] := by
  obtain ⟨header, hheader, ⟨rest, htext⟩, _⟩ := h.opening
  rw [← htext]
  exact words_ne_nil ((startsWord_opening header hheader).append rest)

theorem Origin.located {read rest : List Token} {state : State} {token : Token} {fault : Fault}
    (h : Origin read state) (hs : Dump.step state token = .error fault) :
    Located (read ++ token :: rest) fault := by
  cases h with
  | scanning =>
    by_cases hcreate : token.keyword = "CREATE".text
    · rw [step_create hcreate] at hs
      cases hs
    · rw [step_ordinary hcreate] at hs
      cases hs
  | pending => cases hs
  | @capturing before words inner create header c hbegins hpath =>
    cases Capture.fails_of_step hs with
    | unnamed hphase hname =>
      obtain ⟨rfl, rfl⟩ := hpath.tokens_of_name hphase
      have htokens : before ++ (create :: words ++ []) ++ token :: rest =
          before ++ (create :: words ++ token :: rest) := by
        simp
      exact .unnamed hbegins htokens hname
    | nothingBefore _ _ _ hbefore =>
      have hproper := hpath.proper (Capture.proper_opened hbegins.mem _)
      exact absurd hbefore hproper.words_text_ne_nil

theorem located_of_scan {tokens : List Token} {fault : Fault}
    (h : Progress.scan {} tokens = .error fault) : Located tokens fault := by
  obtain ⟨read, token, rest, q, rfl, hread, hstep⟩ := Progress.exists_step_of_scan_error h
  exact (origin_of_scan hread).located hstep

theorem located_of_finish {tokens : List Token} {p : Progress} {fault : Fault}
    (hscan : Progress.scan {} tokens = .ok p) (h : finish p.state = .error fault) :
    Located tokens fault := by
  have horigin := origin_of_scan hscan
  generalize p.state = state at horigin h
  cases horigin with
  | scanning => cases h
  | pending => cases h
  | capturing hbegins hpath =>
    cases h
    exact .unfinished hbegins rfl hpath hpath.line

theorem exists_scan_of_split {dump : Text} {noise : List Text} {s : Split}
    (h : split dump noise = .ok s) :
    ∃ p, Progress.scan {} (tokens dump) = .ok p ∧ p.statements = s.statements := by
  unfold split separate at h
  cases hscan : Progress.scan {} (tokens dump) with
  | error fault =>
    rw [hscan] at h
    cases h
  | ok p =>
    rw [hscan] at h
    cases hfinish : finish p.state with
    | error fault =>
      simp only [hfinish] at h
      cases h
    | ok held =>
      simp only [hfinish] at h
      cases h
      exact ⟨p, rfl, rfl⟩

/-- A dump is split unless the scan of its tokens or its end fails. -/
theorem fails_of_split {dump : Text} {noise : List Text} {fault : Fault}
    (h : split dump noise = .error fault) :
    Progress.scan {} (tokens dump) = .error fault ∨
      ∃ p, Progress.scan {} (tokens dump) = .ok p ∧ finish p.state = .error fault := by
  unfold split separate at h
  cases hscan : Progress.scan {} (tokens dump) with
  | error other =>
    rw [hscan] at h
    cases h
    exact .inl rfl
  | ok p =>
    rw [hscan] at h
    cases hfinish : finish p.state with
    | error other =>
      simp only [hfinish] at h
      cases h
      exact .inr ⟨p, rfl, hfinish⟩
    | ok held =>
      simp only [hfinish] at h
      cases h

theorem located_of_split {dump : Text} {noise : List Text} {fault : Fault}
    (h : split dump noise = .error fault) : Located (tokens dump) fault := by
  rcases fails_of_split h with hscan | ⟨p, hscan, hfinish⟩
  · exact located_of_scan hscan
  · exact located_of_finish hscan hfinish

/-- Every state that a scan gets to has come from a header and is proper, and
whatever keeps a dump from being split has its place in the dump. -/
theorem proper_and_located :
    (∀ (read : List Token) (p : Progress), Progress.scan {} read = .ok p →
      Origin read p.state ∧ p.state.Proper) ∧
      ∀ (dump : Text) (noise : List Text) (fault : Fault), split dump noise = .error fault →
        Located (tokens dump) fault := by
  constructor
  · intro read p hscan
    have horigin := origin_of_scan hscan
    exact ⟨horigin, horigin.proper⟩
  · intro dump noise fault hfault
    exact located_of_split hfault

/-- A trigger whose body is still open at the end of the dump. -/
def openTrigger : Capture :=
  ⟨.trigger, 2, "CREATE OR REPLACE FUNCTION f() RETURNS trigger AS $b$ x".text, .body,
    "f".text, "$b$".text⟩

theorem proper_and_located_trigger :
    openTrigger.Proper ∧
      Located (tokens "SET a;\nCREATE FUNCTION f() RETURNS trigger AS $b$ x".text)
        (.unfinished openTrigger) ∧
      Located (tokens "SET a;\ncreate or replace view\n(b);".text) (.unnamed .view 3) := by
  have hscan : Progress.scan {} (tokens
      "SET a;\nCREATE FUNCTION f() RETURNS trigger AS $b$ x".text) =
        .ok ⟨.capturing openTrigger, "SET a;\n".text, []⟩ := by
    decide +kernel
  exact ⟨(proper_and_located.1 _ _ hscan).2, proper_and_located.2 _ [] _ (by decide +kernel),
    proper_and_located.2 _ [] _ (by decide +kernel)⟩

end Dump
end SchemaLedger
