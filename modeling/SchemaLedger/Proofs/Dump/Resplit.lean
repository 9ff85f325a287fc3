import SchemaLedger.Proofs.Dump.Awaiting

/-!
# Splitting a bootstrap migration again

No header is complete in the residual of a dump, so nothing is left to take out
of it.  The bootstrap migration is the residual without some of its lines, and a
scan knows nothing of comments and noise: a word on such a line can be all that
keeps a header apart.  The migration is split again as it is when its own words
complete no header, and they complete none when every line that is dropped
leaves the scan awaiting what it awaited in front of the line.
-/

namespace SchemaLedger
namespace Dump

open Text

/-! ## The residual -/

/-- What a scan has left of the tokens read so far: `left` is in the residual, and
behind it a scan is between statements again. -/
structure Leaves (read : List Token) (p : Progress) (left : List Token) : Prop where
  residual : p.residual = written left
  sublist : (left ++ p.state.held).Sublist read
  between : Awaited.statement.behind (left.map Token.keyword) = some .statement
  state : (∃ c, p.state = .capturing c) ∨
    ∃ a, Awaits p.state a ∧ Awaited.statement.behind (p.state.held.map Token.keyword) = some a

namespace Leaves

variable {read left more : List Token} {p q : Progress} {token : Token} {s : Step}

theorem empty : Leaves [] {} [] :=
  ⟨rfl, .slnil, rfl, .inr ⟨.statement, .scanning, rfl⟩⟩

/-- A token that belongs to a statement leaves nothing. -/
theorem take (h : Leaves read p left) (hresidual : s.residual = [])
    (hstate : (∃ c, s.state = .capturing c) ∨ s.state = .scanning) :
    Leaves (read ++ [token]) (p.add s) left where
  residual := by rw [Progress.add, hresidual, List.append_nil, h.residual]
  sublist := by
    have hheld : (p.add s).state.held = [] := by
      rcases hstate with ⟨c, hc⟩ | hscanning
      · exact congrArg State.held hc
      · exact congrArg State.held hscanning
    rw [hheld, List.append_nil]
    exact (List.sublist_append_left left _).trans (h.sublist.trans (List.sublist_append_left _ _))
  between := h.between
  state := hstate.imp id fun hscanning => by
    rw [Progress.add, hscanning]
    exact ⟨.statement, .scanning, rfl⟩

theorem step (h : Leaves read p left) (hs : Dump.step p.state token = .ok s) :
    ∃ left, Leaves (read ++ [token]) (p.add s) left := by
  rcases h.state with ⟨c, hc⟩ | ⟨a, hawaits, hheld⟩
  · rw [hc] at hs
    obtain ⟨after, closes, _, rfl⟩ := Capture.moves_of_step hs
    rcases Capture.outcome_cases after token.word closes with hgo | ⟨_, hdone⟩
    · rw [hgo]
      exact ⟨left, h.take rfl (.inl ⟨after, rfl⟩)⟩
    · rw [hdone]
      exact ⟨left, h.take rfl (.inr rfl)⟩
  · cases hnext : a.next token.keyword with
    | none =>
      obtain ⟨c, hopen⟩ := hawaits.step_header hnext
      obtain rfl := Except.ok.inj (hs.symm.trans hopen)
      exact ⟨left, h.take rfl (.inl ⟨c, rfl⟩)⟩
    | some b =>
      obtain ⟨s', hs', hafter, hpasses⟩ := hawaits.step hnext
      obtain rfl := Except.ok.inj (hs.symm.trans hs')
      have hbehind : Awaited.statement.behind
          ((p.state.held ++ [token]).map Token.keyword) = some b := by
        rw [List.map_append, Awaited.behind_append, hheld, Option.bind_some, List.map_singleton,
          Awaited.behind_cons, hnext]
        rfl
      have hsublist : (left ++ (p.state.held ++ [token])).Sublist (read ++ [token]) := by
        rw [← List.append_assoc]
        exact h.sublist.append (.refl _)
      rcases hpasses.held with ⟨hresidual, hkept⟩ | ⟨hscanning, hresidual⟩
      · refine ⟨left, ?_, ?_, h.between, .inr ⟨b, hafter, ?_⟩⟩
        · rw [Progress.add, hresidual, List.append_nil, h.residual]
        · rwa [Progress.add, hkept]
        · rwa [Progress.add, hkept]
      · -- all that was held is given up, and the scan is between statements
        obtain rfl : b = .statement := by
          rw [hscanning] at hafter
          cases hafter
          rfl
        refine ⟨left ++ (p.state.held ++ [token]), ?_, ?_, ?_, .inr ⟨.statement, hafter, ?_⟩⟩
        · rw [written_append, ← h.residual, ← hresidual]
          rfl
        · rw [Progress.add, hscanning]
          exact (List.append_nil _).symm ▸ hsublist
        · rw [List.map_append, Awaited.behind_append, h.between, Option.bind_some, hbehind]
        · rw [Progress.add, hscanning]
          rfl

theorem run (h : Leaves read p left) (hscan : p.scan more = .ok q) :
    ∃ left, Leaves (read ++ more) q left := by
  induction more generalizing read p left with
  | nil =>
    cases hscan
    exact ⟨left, by rwa [List.append_nil]⟩
  | cons token rest ih =>
    cases hs : Dump.step p.state token with
    | error fault =>
      rw [Progress.scan, hs] at hscan
      cases hscan
    | ok s =>
      rw [Progress.scan_cons rest hs] at hscan
      obtain ⟨_, hstep⟩ := h.step hs
      have hrun := ih hstep hscan
      rwa [List.append_assoc] at hrun

/-- At the end of a dump what is held is left, too. -/
theorem finish (h : Leaves read p left) {rest : Text} (hfinish : Dump.finish p.state = .ok rest) :
    ∃ left, p.residual ++ rest = written left ∧ left.Sublist read ∧
      ∃ a, Awaited.statement.behind (left.map Token.keyword) = some a := by
  rcases h.state with ⟨c, hc⟩ | ⟨a, hawaits, hheld⟩
  · rw [hc] at hfinish
    cases hfinish
  · rw [hawaits.finish] at hfinish
    cases hfinish
    refine ⟨left ++ p.state.held, ?_, h.sublist, a, ?_⟩
    · rw [h.residual, written_append]
    · rw [List.map_append, Awaited.behind_append, h.between, Option.bind_some, hheld]

end Leaves

theorem dropLast_sublist_dropLast {α : Type} {a b : List α} (h : a.Sublist b) :
    a.dropLast.Sublist b.dropLast := by
  rw [← List.reverse_sublist, ← List.tail_reverse, ← List.tail_reverse]
  exact (List.reverse_sublist.2 h).tail

theorem words_written {tokens : List Token} (hwhole : ∀ token ∈ tokens, token.Whole)
    (hends : ∀ token ∈ tokens.dropLast, EndsBlank token.text) :
    words (written tokens) = tokens.map Token.word := by
  rcases List.eq_nil_or_concat tokens with rfl | ⟨front, last, rfl⟩
  · rfl
  rw [List.concat_eq_append] at hwhole hends ⊢
  rw [List.dropLast_concat] at hends
  have hlast := hwhole last (List.mem_append_right _ List.mem_cons_self)
  have hfront : written front = [] ∨ EndsBlank (written front) := by
    rcases List.eq_nil_or_concat front with rfl | ⟨others, token, rfl⟩
    · exact .inl rfl
    · have htoken := hends token (by rw [List.concat_eq_append]; simp)
      rw [List.concat_eq_append, written_append, written_cons, written_nil, List.append_nil]
      exact .inr (htoken.append _)
  have hwords := words_append_written (.inl rfl) fun token htoken =>
    ⟨hwhole token (List.mem_append_left _ htoken), hends token htoken⟩
  rw [List.nil_append] at hwords
  rw [written_append, written_cons, written_nil, List.append_nil,
    words_append hfront hlast.startsWord, hwords, hlast.words_text, List.map_append]
  rfl

/-- No header is complete in the residual of a dump. -/
theorem plain_residual {dump residual : Text} {statements : List Statement}
    (h : separate dump = .ok (statements, residual)) : Plain (words residual) := by
  rw [separate_eq] at h
  obtain ⟨p, hscan, h⟩ := Outcome.bind_eq_ok.1 h
  obtain ⟨rest, hfinish, h⟩ := Outcome.map_eq_ok.1 h
  obtain ⟨_, rfl⟩ := Prod.mk.inj h
  obtain ⟨_, hleaves⟩ := Leaves.empty.run hscan
  obtain ⟨left, hresidual, hsublist, a, hbehind⟩ := hleaves.finish hfinish
  rw [List.nil_append] at hsublist
  have hwords : words (written left) = left.map Token.word :=
    words_written (fun token htoken => whole_of_mem_tokens (hsublist.subset htoken))
      fun token htoken => endsBlank_of_mem_dropLast_tokens
        ((dropLast_sublist_dropLast hsublist).subset htoken)
  refine ⟨a, ?_⟩
  rw [List.append_assoc, hresidual, words_gap_append (isGap_leadingBlanks dump), hwords,
    awaitedBehind, List.map_map]
  exact hbehind

/-! ## The bootstrap migration -/

/-- Every line that cleaning drops leaves awaited what is awaited in front of
it. -/
def InStep (noise : List Text) (t : Text) : Prop :=
  ∀ n, (h : n < (lines t).length) → isKept noise (lines t)[n] = false →
    awaitedBehind (((lines t).take (n + 1)).flatMap words) =
      awaitedBehind (((lines t).take n).flatMap words)

instance (noise : List Text) (t : Text) : Decidable (InStep noise t) :=
  inferInstanceAs (Decidable (∀ n, (h : n < (lines t).length) → _ → _))

theorem InStep.awaitedBehind_cleaned {noise : List Text} {t : Text} (h : InStep noise t) :
    awaitedBehind (words (cleaned noise t)) = awaitedBehind (words t) := by
  have hfront : ∀ n ≤ (lines t).length,
      awaitedBehind ((((lines t).take n).filter (isKept noise)).flatMap words) =
        awaitedBehind (((lines t).take n).flatMap words) := by
    intro n
    induction n with
    | zero => exact fun _ => rfl
    | succ n ih =>
      intro hn
      have hbefore := ih (Nat.le_of_succ_le hn)
      rw [List.take_succ_eq_append_getElem hn, List.filter_append, List.flatMap_append,
        List.flatMap_append, List.filter_singleton]
      cases hkept : isKept noise (lines t)[n] with
      | true =>
        rw [awaitedBehind_append, hbefore, ← awaitedBehind_append]
        rfl
      | false =>
        have hdropped := h n hn hkept
        rw [List.take_succ_eq_append_getElem hn, List.flatMap_append] at hdropped
        rw [hdropped, ← hbefore]
        exact congrArg awaitedBehind (List.append_nil _)
  have hall := hfront _ (Nat.le_refl _)
  rw [List.take_length] at hall
  rw [cleaned, words_eachLine, hall, ← words_eq_flatMap_lines]

/-! ## The second split -/

theorem split_of_separate {dump residual : Text} {statements : List Statement}
    (h : separate dump = .ok (statements, residual)) (noise : List Text) :
    split dump noise = .ok ⟨statements, cleaned noise residual⟩ := by
  rw [split, h]
  rfl

/-- The residual of a dump holds nothing to take out, and the bootstrap migration
made of it holds nothing exactly when no header is complete in its words.  None
is where `CREATE` and the words of a header stand nowhere in it, and none is
where every dropped line leaves awaited what is awaited in front of it. -/
theorem split_bootstrap {dump : Text} {noise : List Text} {s : Split}
    (h : split dump noise = .ok s) :
    ∃ residual, separate dump = .ok (s.statements, residual) ∧
      split residual noise = .ok ⟨[], s.bootstrap⟩ ∧
      (∀ again, split s.bootstrap noise = .ok again → again.statements = [] →
        again.bootstrap = s.bootstrap) ∧
      (split s.bootstrap noise = .ok ⟨[], s.bootstrap⟩ ↔ Plain (words s.bootstrap)) ∧
      ((∀ header ∈ headers,
          ¬ "CREATE".text :: header.words <:+: (words s.bootstrap).map capitals) →
        split s.bootstrap noise = .ok ⟨[], s.bootstrap⟩) ∧
      (InStep noise residual → split s.bootstrap noise = .ok ⟨[], s.bootstrap⟩) := by
  obtain ⟨residual, hseparate, hbootstrap⟩ := separate_of_split h
  have hplain := plain_residual hseparate
  have hsame : cleaned noise s.bootstrap = s.bootstrap := by
    rw [hbootstrap, cleaned_cleaned]
  have hagain : Plain (words s.bootstrap) →
      split s.bootstrap noise = .ok ⟨[], s.bootstrap⟩ := fun hnone => by
    rw [split_of_separate (separate_of_plain hnone), hsame]
  have hback : ∀ again, split s.bootstrap noise = .ok again → again.statements = [] →
      Plain (words s.bootstrap) := by
    intro again hsplit hnil
    obtain ⟨other, hother, _⟩ := separate_of_split hsplit
    exact plain_of_separate (hnil ▸ hother)
  refine ⟨residual, hseparate, ?_, ?_, ⟨fun hsplit => hback _ hsplit rfl, hagain⟩, ?_, ?_⟩
  · rw [split_of_separate (separate_of_plain hplain), hbootstrap]
  · intro again hsplit hnil
    rw [hagain (hback again hsplit hnil)] at hsplit
    cases hsplit
    rfl
  · exact fun hfree => hagain (plain_of_no_header hfree)
  · intro hstep
    refine hagain ?_
    obtain ⟨a, ha⟩ := hplain
    exact ⟨a, by rw [hbootstrap, hstep.awaitedBehind_cleaned, ha]⟩

theorem split_bootstrap_table :
    split "-- x\nCREATE VIEW v AS SELECT 1;\nSET a;\nCREATE\n\nTABLE t;\n".text
        ["SET a;".text] =
        .ok ⟨[⟨.view, "v".text, "CREATE OR REPLACE VIEW v AS SELECT 1;\n".text, 2⟩],
          "CREATE\nTABLE t;\n".text⟩ ∧
      InStep ["SET a;".text] "-- x\nSET a;\nCREATE\n\nTABLE t;\n".text ∧
      split "CREATE\nTABLE t;\n".text ["SET a;".text] =
        .ok ⟨[], "CREATE\nTABLE t;\n".text⟩ := by
  have hsplit : split
      "-- x\nCREATE VIEW v AS SELECT 1;\nSET a;\nCREATE\n\nTABLE t;\n".text
      ["SET a;".text] =
        .ok ⟨[⟨.view, "v".text, "CREATE OR REPLACE VIEW v AS SELECT 1;\n".text, 2⟩],
          "CREATE\nTABLE t;\n".text⟩ := by decide +kernel
  have hseparate : separate
      "-- x\nCREATE VIEW v AS SELECT 1;\nSET a;\nCREATE\n\nTABLE t;\n".text =
        .ok ([⟨.view, "v".text, "CREATE OR REPLACE VIEW v AS SELECT 1;\n".text, 2⟩],
          "-- x\nSET a;\nCREATE\n\nTABLE t;\n".text) := by decide +kernel
  have hstep : InStep ["SET a;".text] "-- x\nSET a;\nCREATE\n\nTABLE t;\n".text := by
    decide +kernel
  obtain ⟨residual, hresidual, _, _, _, _, hagain⟩ := split_bootstrap hsplit
  obtain rfl : "-- x\nSET a;\nCREATE\n\nTABLE t;\n".text = residual :=
    congrArg Prod.snd (Except.ok.inj (hseparate.symm.trans hresidual))
  exact ⟨hsplit, hstep, hagain hstep⟩

/-- A comment between `CREATE` and `VIEW` keeps the view in the residual, and the
migration without the comment has it complete. -/
theorem split_bootstrap_behind_comment :
    split "CREATE\n-- x\nVIEW v AS SELECT 1;\n".text [] =
        .ok ⟨[], "CREATE\nVIEW v AS SELECT 1;\n".text⟩ ∧
      split "CREATE\nVIEW v AS SELECT 1;\n".text [] =
        .ok ⟨[⟨.view, "v".text, "CREATE OR REPLACE VIEW v AS SELECT 1;\n".text, 1⟩], []⟩ := by
  decide +kernel

end Dump
end SchemaLedger
