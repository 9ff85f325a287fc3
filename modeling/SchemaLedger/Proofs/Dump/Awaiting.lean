import SchemaLedger.Proofs.Dump.Kept
import SchemaLedger.Proofs.Outcome

/-!
# What a scan awaits

While nothing is captured a scan is told by the words that it read: it is
between statements, or behind `CREATE` and some words of a header.  Words in
which no header becomes complete are scanned into the residual as they are, and
no others are.
-/

namespace SchemaLedger
namespace Dump

open Text

/-! ## Words -/

/-- What is awaited: the next statement, or the rest of a header behind `CREATE`
and these words. -/
inductive Awaited
  | statement
  | header (words : List Text)
deriving DecidableEq, Repr

namespace Awaited

/-- What is awaited behind one more word in capitals; nothing when the word makes
a header complete. -/
def next (a : Awaited) (word : Text) : Option Awaited :=
  match a with
  | statement => some (if word = "CREATE".text then header [] else statement)
  | header words =>
    match header? (words ++ [word]) with
    | some _ => none
    | none =>
      some (if startsHeader (words ++ [word]) then header (words ++ [word]) else statement)

def behind (a : Awaited) (words : List Text) : Option Awaited :=
  words.foldlM next a

variable {a b : Awaited} {word : Text} {words more : List Text}

@[simp] theorem behind_nil : a.behind [] = some a := rfl

theorem behind_cons : a.behind (word :: words) = (a.next word).bind (·.behind words) :=
  List.foldlM_cons

theorem behind_append : a.behind (words ++ more) = (a.behind words).bind (·.behind more) :=
  List.foldlM_append

end Awaited

/-- What is awaited behind some words, read from between statements. -/
def awaitedBehind (words : List Text) : Option Awaited :=
  Awaited.statement.behind (words.map capitals)

/-- No header becomes complete in the words. -/
def Plain (words : List Text) : Prop :=
  ∃ a, awaitedBehind words = some a

instance (words : List Text) : Decidable (Plain words) :=
  decidable_of_iff ((awaitedBehind words).isSome = true) Option.isSome_iff_exists

theorem awaitedBehind_append {words more : List Text} : awaitedBehind (words ++ more) =
    (awaitedBehind words).bind fun a => a.behind (more.map capitals) := by
  rw [awaitedBehind, List.map_append, Awaited.behind_append]
  rfl

theorem header?_eq_some {words : List Text} {header : Header} (h : header? words = some header) :
    header ∈ headers ∧ header.words = words :=
  ⟨List.mem_of_find?_eq_some h, by simpa using List.find?_some h⟩

/-- The words that something awaited stands behind. -/
def Awaited.opened : Awaited → List Text
  | .statement => []
  | .header words => "CREATE".text :: words

theorem Awaited.opened_next {a b : Awaited} {word : Text} (h : a.next word = some b) :
    b.opened <:+ a.opened ++ [word] := by
  cases a with
  | statement =>
    rw [Awaited.next, Option.some.injEq] at h
    split at h
    · next hcreate =>
      subst h hcreate
      exact List.suffix_refl _
    · subst h
      exact List.nil_suffix
  | header words =>
    simp only [Awaited.next] at h
    split at h
    · cases h
    · rw [Option.some.injEq] at h
      split at h
      · subst h
        exact List.suffix_refl _
      · subst h
        exact List.nil_suffix

/-- Where a header becomes complete it stands behind `CREATE` word by word. -/
theorem Awaited.exists_header {a : Awaited} {words : List Text} (h : a.behind words = none) :
    ∃ header ∈ headers, "CREATE".text :: header.words <:+: a.opened ++ words := by
  induction words generalizing a with
  | nil => cases h
  | cons word rest ih =>
    rw [Awaited.behind_cons] at h
    cases hnext : a.next word with
    | some b =>
      rw [hnext] at h
      obtain ⟨header, hmem, hinfix⟩ := ih h
      obtain ⟨front, hfront⟩ := Awaited.opened_next hnext
      refine ⟨header, hmem, hinfix.trans ⟨front, [], ?_⟩⟩
      rw [List.append_nil, ← List.append_assoc, hfront, List.append_assoc, List.singleton_append]
    | none =>
      cases a with
      | statement => cases hnext
      | header words =>
        simp only [Awaited.next] at hnext
        split at hnext
        · next header hheader =>
          obtain ⟨hmem, hwords⟩ := header?_eq_some hheader
          refine ⟨header, hmem, [], rest, ?_⟩
          rw [hwords, Awaited.opened]
          simp
        · cases hnext

/-- Words are plain in which `CREATE` and the words of a header stand nowhere. -/
theorem plain_of_no_header {words : List Text} (h : ∀ header ∈ headers,
    ¬ "CREATE".text :: header.words <:+: words.map capitals) : Plain words := by
  cases hbehind : awaitedBehind words with
  | some a => exact ⟨a, hbehind⟩
  | none =>
    obtain ⟨header, hmem, hinfix⟩ := Awaited.exists_header hbehind
    exact absurd hinfix (h header hmem)

/-! ## States -/

/-- The tokens that a state holds back. -/
def State.held : State → List Token
  | .scanning => []
  | .pending held => held
  | .capturing _ => []

/-- The state of a scan that captures nothing. -/
inductive Awaits : State → Awaited → Prop
  | scanning : Awaits .scanning .statement
  | pending (create : Token) (more : List Token) :
      Awaits (.pending (create :: more)) (.header (more.map Token.keyword))

/-- A step that takes nothing out of the tokens held until now: it goes on holding
them or gives them all to the residual. -/
structure Step.Passes (s : Step) (held : List Token) : Prop where
  extracted : s.extracted = none
  held : s.residual = [] ∧ s.state.held = held ∨ s.state = .scanning ∧ s.residual = written held

theorem Step.Passes.text {s : Step} {held : List Token} (h : s.Passes held) :
    s.residual ++ written s.state.held = written held := by
  rcases h.held with ⟨hresidual, hheld⟩ | ⟨hstate, hresidual⟩
  · rw [hresidual, hheld, List.nil_append]
  · rw [hresidual, hstate]
    exact List.append_nil _

variable {state : State} {a b : Awaited} {token : Token} {read : List Token}
variable {p q : Progress}

theorem Awaits.finish (h : Awaits state a) : Dump.finish state = .ok (written state.held) := by
  cases h <;> rfl

/-- A token that completes no header is held back or goes to the residual. -/
theorem Awaits.step (h : Awaits state a) (hnext : a.next token.keyword = some b) :
    ∃ s, Dump.step state token = .ok s ∧ Awaits s.state b ∧ s.Passes (state.held ++ [token]) := by
  cases h with
  | scanning =>
    rw [Awaited.next, Option.some.injEq] at hnext
    subst hnext
    by_cases hcreate : token.keyword = "CREATE".text
    · rw [if_pos hcreate]
      exact ⟨_, step_create hcreate, .pending token [], rfl, .inl ⟨rfl, rfl⟩⟩
    · rw [if_neg hcreate]
      exact ⟨_, step_ordinary hcreate, .scanning, rfl, .inr ⟨rfl, (List.append_nil _).symm⟩⟩
  | pending create more =>
    have hwords : headerWords (create :: more ++ [token]) =
        more.map Token.keyword ++ [token.keyword] := List.map_append
    simp only [Awaited.next] at hnext
    cases hheader : header? (more.map Token.keyword ++ [token.keyword]) with
    | some header =>
      rw [hheader] at hnext
      cases hnext
    | none =>
      rw [hheader] at hnext
      have hb := Option.some.inj hnext
      refine ⟨_, rfl, ?_⟩
      rw [pendingStep, hwords, hheader]
      simp only
      split at hb
      · next hstarts =>
        subst hb
        rw [if_pos hstarts]
        have hpending := Awaits.pending create (more ++ [token])
        rw [List.map_append] at hpending
        exact ⟨hpending, rfl, .inl ⟨rfl, rfl⟩⟩
      · next hstarts =>
        subst hb
        rw [if_neg hstarts]
        exact ⟨.scanning, rfl, .inr ⟨rfl, rfl⟩⟩

/-- A token that completes a header opens a capture. -/
theorem Awaits.step_header (h : Awaits state a) (hnext : a.next token.keyword = none) :
    ∃ c, Dump.step state token = .ok ⟨.capturing c, [], none⟩ := by
  cases h with
  | scanning => cases hnext
  | pending create more =>
    have hwords : headerWords (create :: more ++ [token]) =
        more.map Token.keyword ++ [token.keyword] := List.map_append
    simp only [Awaited.next] at hnext
    cases hheader : header? (more.map Token.keyword ++ [token.keyword]) with
    | none =>
      rw [hheader] at hnext
      cases hnext
    | some header =>
      rw [Dump.step, pendingStep, hwords, hheader]
      exact ⟨_, rfl⟩

/-! ## Scans -/

theorem statements_add {s : Step} (p : Progress) (h : s.extracted = none) :
    (p.add s).statements = p.statements := by
  rw [Progress.add, h]
  exact List.append_nil _

theorem Awaits.scan (h : Awaits p.state a)
    (hbehind : a.behind (read.map Token.keyword) = some b) :
    ∃ q, p.scan read = .ok q ∧ q.statements = p.statements ∧ Awaits q.state b ∧
      q.residual ++ written q.state.held = p.residual ++ written (p.state.held ++ read) := by
  induction read generalizing p a with
  | nil =>
    rw [List.map_nil, Awaited.behind_nil, Option.some.injEq] at hbehind
    subst hbehind
    exact ⟨p, rfl, rfl, h, by rw [List.append_nil]⟩
  | cons token rest ih =>
    rw [List.map_cons, Awaited.behind_cons] at hbehind
    obtain ⟨middle, hnext, hrest⟩ := Option.bind_eq_some_iff.1 hbehind
    obtain ⟨s, hs, hawaits, hpasses⟩ := h.step hnext
    obtain ⟨q, hq, hstatements, hstate, hresidual⟩ := ih (p := p.add s) hawaits hrest
    refine ⟨q, (Progress.scan_cons rest hs).trans hq, ?_, hstate, ?_⟩
    · rw [hstatements, statements_add p hpasses.extracted]
    · have hadd : (p.add s).residual ++ written ((p.add s).state.held ++ rest) =
          p.residual ++ (s.residual ++ written s.state.held) ++ written rest := by
        rw [written_append, Progress.add]
        simp only [List.append_assoc]
      rw [hresidual, hadd, hpasses.text, List.append_assoc, ← written_append,
        List.append_assoc, List.singleton_append]

theorem exists_statements_of_scan (h : p.scan read = .ok q) :
    ∃ later, q.statements = p.statements ++ later := by
  rw [Progress.scan_behind] at h
  obtain ⟨r, _, rfl⟩ := Outcome.map_eq_ok.1 h
  exact ⟨r.statements, rfl⟩

/-- A capture that is open stays open or becomes a statement. -/
theorem capturing_or_longer {c : Capture} (h : p.state = .capturing c)
    (hscan : p.scan read = .ok q) :
    (∃ c, q.state = .capturing c) ∨ q.statements ≠ p.statements := by
  induction read generalizing p c with
  | nil =>
    cases hscan
    exact .inl ⟨c, h⟩
  | cons token rest ih =>
    cases hs : Dump.step p.state token with
    | error fault =>
      rw [Progress.scan, hs] at hscan
      cases hscan
    | ok s =>
      rw [Progress.scan_cons rest hs] at hscan
      rw [h] at hs
      obtain ⟨after, closes, _, rfl⟩ := Capture.moves_of_step hs
      rcases Capture.outcome_cases after token.word closes with hgo | ⟨_, hdone⟩
      · rw [hgo] at hscan
        rw [← statements_add (s := ⟨.capturing after, [], none⟩) p rfl]
        exact ih rfl hscan
      · rw [hdone] at hscan
        obtain ⟨later, hlater⟩ := exists_statements_of_scan hscan
        refine .inr fun heq => ?_
        have hlength := congrArg List.length (hlater.symm.trans heq)
        simp only [Progress.add, List.length_append, Option.toList_some, List.length_singleton]
          at hlength
        omega

/-- Words in which a header becomes complete do not leave the statements as they
are, unless a capture is open at the end. -/
theorem Awaits.scan_header (h : Awaits p.state a)
    (hbehind : a.behind (read.map Token.keyword) = none) (hscan : p.scan read = .ok q) :
    (∃ c, q.state = .capturing c) ∨ q.statements ≠ p.statements := by
  induction read generalizing p a with
  | nil => cases hbehind
  | cons token rest ih =>
    rw [List.map_cons, Awaited.behind_cons] at hbehind
    cases hnext : a.next token.keyword with
    | none =>
      obtain ⟨c, hs⟩ := h.step_header hnext
      rw [Progress.scan_cons rest hs] at hscan
      rw [← statements_add (s := ⟨.capturing c, [], none⟩) p rfl]
      exact capturing_or_longer rfl hscan
    | some b =>
      rw [hnext] at hbehind
      obtain ⟨s, hs, hawaits, hpasses⟩ := h.step hnext
      rw [Progress.scan_cons rest hs] at hscan
      rw [← statements_add p hpasses.extracted]
      exact ih hawaits hbehind hscan

/-! ## Dumps -/

theorem map_keyword_tokens (t : Text) : (tokens t).map Token.keyword = (words t).map capitals := by
  have hwords : words t = words (trimLeft t) := by
    conv_lhs => rw [← leadingBlanks_append_trimLeft t]
    exact words_gap_append (isGap_leadingBlanks t) _
  rw [tokens_eq_tokensFrom, hwords]
  rcases trimLeft_eq_nil_or_startsWord t with hnil | hstart
  · rw [hnil]
    rfl
  · exact map_keyword_tokensFrom _ hstart

/-- A text is its own residual exactly when no header becomes complete in it. -/
theorem separate_of_plain {t : Text} (h : Plain (words t)) : separate t = .ok ([], t) := by
  obtain ⟨b, hb⟩ := h
  rw [awaitedBehind, ← map_keyword_tokens] at hb
  obtain ⟨q, hq, hstatements, hstate, hresidual⟩ :=
    Awaits.scan (p := {}) .scanning hb
  rw [separate_eq, hq]
  simp only [Except.bind, hstate.finish, Except.map]
  rw [List.append_assoc, hresidual, hstatements]
  have hwritten : written (State.scanning.held ++ tokens t) = trimLeft t := written_tokens t
  rw [hwritten]
  exact congrArg (fun residual => Except.ok ([], residual)) (leadingBlanks_append_trimLeft t)

theorem plain_of_separate {t residual : Text} (h : separate t = .ok ([], residual)) :
    Plain (words t) := by
  by_contra hplain
  have hnone : Awaited.statement.behind ((tokens t).map Token.keyword) = none := by
    rw [map_keyword_tokens]
    exact Option.eq_none_iff_forall_ne_some.2 fun a ha => hplain ⟨a, ha⟩
  rw [separate_eq] at h
  obtain ⟨q, hq, h⟩ := Outcome.bind_eq_ok.1 h
  obtain ⟨held, hheld, h⟩ := Outcome.map_eq_ok.1 h
  obtain ⟨hstatements, _⟩ := Prod.mk.inj h
  rcases Awaits.scan_header (p := {}) .scanning hnone hq with ⟨c, hc⟩ | hne
  · rw [hc] at hheld
    cases hheld
  · exact hne hstatements

end Dump
end SchemaLedger
