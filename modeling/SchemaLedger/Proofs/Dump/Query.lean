import SchemaLedger.Proofs.Dump.Part
import SchemaLedger.Proofs.Dump.WellFormed
import SchemaLedger.Proofs.Outcome
import SchemaLedger.Sql.Literal

/-!
# Views over any query

A query may hold string constants and quoted identifiers with semicolons in
them.  The scan knows no quotes: a view ends at the first semicolon with a blank
behind it, and that is its own one exactly when none in the quotes has a blank
behind it.
-/

namespace SchemaLedger

namespace Text

/-- No semicolon has a blank directly behind it. -/
def Tight (t : Text) : Prop :=
  t.IsChain fun (c next : CodePoint) => c = ';' → isBlank next = false

instance (t : Text) : Decidable (Tight t) :=
  inferInstanceAs (Decidable (List.IsChain _ t))

theorem not_tight_iff {t : Text} :
    ¬ Tight t ↔ ∃ front c back, t = front ++ .char ';' :: c :: back ∧ isBlank c = true := by
  unfold Tight
  rw [List.isChain_iff_forall_rel_of_append_cons_cons]
  constructor
  · intro h
    by_contra hnone
    refine h fun a b front back hsplit ha => ?_
    subst ha
    by_contra hblank
    exact hnone ⟨front, b, back, hsplit, by simpa using hblank⟩
  · rintro ⟨front, c, back, hsplit, hblank⟩ h
    rw [h hsplit rfl] at hblank
    cases hblank

theorem tight_append {t u : Text} (h : t.getLast? ≠ some (.char ';')) :
    Tight (t ++ u) ↔ Tight t ∧ Tight u := by
  unfold Tight
  rw [List.isChain_append]
  constructor
  · exact fun ⟨ht, hu, _⟩ => ⟨ht, hu⟩
  · rintro ⟨ht, hu⟩
    refine ⟨ht, hu, fun c hc _ _ heq => ?_⟩
    rw [heq] at hc
    exact absurd hc h

end Text

namespace Dump

open Text

/-! ## Where a statement ends -/

/-- A text up to a semicolon ends in a word that ends a statement. -/
theorem exists_closing_word (t : Text) :
    ∃ front word, t ++ [.char ';'] = front ++ word ∧ (front = [] ∨ EndsBlank front) ∧ IsWord word ∧
      endsStatement word = true := by
  obtain ⟨front, word, hsplit, hfront, hword⟩ := exists_front_append_word (t ++ [.char ';'])
  have hlast : (front ++ word).getLast? = some (.char ';') := by
    rw [← hsplit, List.getLast?_concat]
  have hne : word ≠ [] := by
    rintro rfl
    rw [List.append_nil] at hlast
    rcases hfront with rfl | hblank
    · cases hlast
    · unfold EndsBlank at hblank
      rw [hlast] at hblank
      exact absurd hblank (by decide)
  rw [List.getLast?_append_of_ne_nil _ hne] at hlast
  refine ⟨front, word, hsplit, hfront, ⟨hne, hword⟩, ?_⟩
  unfold endsStatement
  rw [hlast]
  rfl

theorem exists_closing_of_semicolon (t : Text) :
    ∃ word ∈ words (t ++ [.char ';', .char '\n']), endsStatement word = true := by
  obtain ⟨front, word, hsplit, hfront, hword, hends⟩ := exists_closing_word t
  have hgap : IsGap [.char '\n'] := isGap_singleton rfl
  have hshape : t ++ [.char ';', .char '\n'] = front ++ (word ++ [.char '\n']) := by
    rw [← List.append_assoc, ← hsplit, List.append_assoc]
    rfl
  refine ⟨word, ?_, hends⟩
  rw [hshape, words_append hfront (hword.startsWord.append _), words_word_append_gap hword hgap]
  simp

/-- The words of a text with a semicolon in front of a blank: one of them, not
the last, ends a statement. -/
theorem not_closesAtLast_of_loose {t : Text} (hloose : ¬ Tight t) :
    ¬ ClosesAtLast (words (t ++ [.char ';', .char '\n'])) := by
  obtain ⟨front, c, back, rfl, hblank⟩ := not_tight_iff.1 hloose
  obtain ⟨before, word, hword, hbefore, hisWord, hends⟩ := exists_closing_word front
  -- the blanks behind the semicolon, and what follows them
  have hrest : back ++ [.char ';', .char '\n'] = leadingBlanks (back ++ [.char ';', .char '\n']) ++
      trimLeft (back ++ [.char ';', .char '\n']) := (leadingBlanks_append_trimLeft _).symm
  have hgap : IsGap (c :: leadingBlanks (back ++ [.char ';', .char '\n'])) := by
    intro x hx
    rcases List.mem_cons.1 hx with rfl | hx
    · exact hblank
    · exact isGap_leadingBlanks _ x hx
  have hstart : StartsWord (trimLeft (back ++ [.char ';', .char '\n'])) := by
    rcases trimLeft_eq_nil_or_startsWord (back ++ [.char ';', .char '\n']) with hnil | hstart
    · rw [hnil, List.append_nil] at hrest
      have hsemicolon := isGap_leadingBlanks (back ++ [.char ';', .char '\n']) ';'
        (by rw [← hrest]; simp)
      exact absurd hsemicolon (by decide)
    · exact hstart
  have hshape : front ++ .char ';' :: c :: back ++ [.char ';', .char '\n'] =
      before ++ (word ++ (c :: leadingBlanks (back ++ [.char ';', .char '\n'])) ++
        trimLeft (back ++ [.char ';', .char '\n'])) := by
    have hfront : front ++ .char ';' :: c :: back ++ [.char ';', .char '\n'] =
        (front ++ [.char ';']) ++ (c :: (back ++ [.char ';', .char '\n'])) := by simp
    rw [hfront, hword]
    simp only [List.append_assoc, List.cons_append, ← hrest]
  have hwords : words (front ++ .char ';' :: c :: back ++ [.char ';', .char '\n']) =
      words before ++ word :: words (trimLeft (back ++ [.char ';', .char '\n'])) := by
    have hfirst := (hisWord.startsWord.append
      (c :: leadingBlanks (back ++ [.char ';', .char '\n']))).append
      (trimLeft (back ++ [.char ';', .char '\n']))
    rw [hshape, words_append hbefore hfirst,
      words_word_append_gap_append hisWord hgap (List.cons_ne_nil _ _) (.inr hstart)]
  rintro ⟨_, hopen⟩
  rw [hwords] at hopen
  have hmem : word ∈
      (words before ++ word :: words (trimLeft (back ++ [.char ';', .char '\n']))).dropLast := by
    rw [List.dropLast_append_of_ne_nil (List.cons_ne_nil _ _),
      List.dropLast_cons_of_ne_nil (words_ne_nil hstart)]
    simp
  rw [hopen word hmem] at hends
  cases hends

/-- A text with a word that ends a statement, cut behind the first such word. -/
theorem exists_closing_front {t : Text} (hstart : StartsWord t) (hend : EndsBlank t)
    (hcloses : ∃ word ∈ words t, endsStatement word = true) :
    ∃ front gap back, t = (front ++ [.char ';'] ++ gap) ++ back ∧ IsGap gap ∧ gap ≠ [] ∧
      (back = [] ∨ StartsWord back ∧ EndsBlank back) ∧
      ClosesAtLast (words (front ++ [.char ';'] ++ gap)) := by
  induction hn : t.length using Nat.strong_induction_on generalizing t with
  | _ n ih =>
    obtain ⟨first, gap, more, rfl, hfirst, hgap, hne, hmore⟩ := exists_first_word hend
    have hword : IsWord first := by
      refine ⟨?_, hfirst⟩
      rintro rfl
      obtain ⟨c, rest, rfl⟩ := List.exists_cons_of_ne_nil hne
      have hc := startsWord_cons.1 hstart
      rw [hgap c List.mem_cons_self] at hc
      cases hc
    by_cases hends : endsStatement first = true
    · have hlast : first.getLast? = some (.char ';') := by simpa [endsStatement] using hends
      obtain ⟨front, rfl⟩ := List.getLast?_eq_some_iff.1 hlast
      refine ⟨front, gap, more, rfl, hgap, hne, hmore, ?_⟩
      rw [words_word_append_gap hword hgap, closesAtLast_singleton]
      exact hends
    · obtain ⟨word, hmem, hwordEnds⟩ := hcloses
      rw [words_word_append_gap_append hword hgap hne (hmore.imp id And.left)] at hmem
      rcases List.mem_cons.1 hmem with rfl | hmem
      · exact absurd hwordEnds hends
      · rcases hmore with rfl | ⟨hmoreStart, hmoreEnd⟩
        · cases hmem
        · have hshorter : more.length < n := by
            rw [← hn]
            have hpos := List.length_pos_of_ne_nil hne
            simp only [List.length_append]
            omega
          obtain ⟨front, gap', back, hsplit, hgap', hne', hback, hfront⟩ :=
            ih more.length hshorter hmoreStart hmoreEnd ⟨word, hmem, hwordEnds⟩ rfl
          refine ⟨first ++ gap ++ front, gap', back, ?_, hgap', hne', hback, ?_⟩
          · rw [hsplit]
            simp only [List.append_assoc]
          · have hfrontStart : StartsWord (front ++ [.char ';'] ++ gap') := by
              rw [hsplit] at hmoreStart
              exact startsWord_of_append (by simp) hmoreStart
            have hshape : first ++ gap ++ front ++ [.char ';'] ++ gap' =
                first ++ gap ++ (front ++ [.char ';'] ++ gap') := by
              simp only [List.append_assoc]
            rw [hshape, words_word_append_gap_append hword hgap hne (.inr hfrontStart)]
            obtain ⟨next, others, hnext⟩ :=
              List.exists_cons_of_ne_nil (words_ne_nil hfrontStart)
            rw [hnext] at hfront ⊢
            exact closesAtLast_cons_cons.2 ⟨by simpa using hends, hfront⟩

/-- Behind a text that has no semicolon in front of a blank, the first closing
word is the last word. -/
theorem eq_nil_of_tight {t front gap back : Text} (htight : Tight t)
    (hsplit : t ++ [.char ';', .char '\n'] = (front ++ [.char ';'] ++ gap) ++ back)
    (hgap : IsGap gap)
    (hne : gap ≠ []) (hback : back = [] ∨ StartsWord back ∧ EndsBlank back) : back = [] := by
  rcases hback with rfl | ⟨hstart, hend⟩
  · rfl
  · exfalso
    -- a word and a blank are behind the cut, so it lies in front of the last semicolon
    have hlong : 2 ≤ back.length := by
      match back, hstart, hend with
      | [c], hstart, hend =>
        unfold StartsWord at hstart
        unfold EndsBlank at hend
        simp only [List.head?_cons, List.getLast?_singleton, Option.map_some,
          Option.some.injEq] at hstart hend
        rw [hstart] at hend
        cases hend
      | _ :: _ :: _, _, _ => simp
    have hlength := congrArg List.length hsplit
    simp only [List.length_append, List.length_cons, List.length_nil] at hlength
    have hwithin : front ++ [.char ';'] ++ gap <+: t := by
      refine List.prefix_of_prefix_length_le ⟨back, hsplit.symm⟩ (List.prefix_append _ _) ?_
      simp only [List.length_append, List.length_cons, List.length_nil]
      omega
    obtain ⟨more, hmore⟩ := hwithin
    obtain ⟨c, others, rfl⟩ := List.exists_cons_of_ne_nil hne
    refine not_tight_iff.2 ⟨front, c, others ++ more, ?_, hgap c List.mem_cons_self⟩ htight
    rw [← hmore]
    simp

/-! ## Queries -/

/-- A piece of a query: text outside of quotes, a string constant, or a name in
double quotes.  A double quote in a name is written twice and reads like two
names side by side. -/
inductive QueryPart
  | plain (t : Text)
  | constant (value : Text)
  | identifier (name : Text)

namespace QueryPart

def text : QueryPart → Text
  | plain t => t
  | constant value => Sql.literal value
  | identifier name => .char '"' :: name ++ [.char '"']

def WellFormed : QueryPart → Prop
  | plain t => ∀ c ∈ t, c ≠ '\'' ∧ c ≠ '"' ∧ c ≠ ';'
  | constant _ => True
  | identifier name => .char '"' ∉ name

instance (part : QueryPart) : Decidable part.WellFormed :=
  match part with
  | plain t => List.decidableBAll (fun (c : CodePoint) => c ≠ '\'' ∧ c ≠ '"' ∧ c ≠ ';') t
  | constant _ => inferInstanceAs (Decidable True)
  | identifier name => inferInstanceAs (Decidable (.char '"' ∉ name))

/-- A semicolon in a part stands inside quotes, so the part ends in another
character. -/
theorem getLast?_text_ne {part : QueryPart} (h : part.WellFormed) :
    part.text.getLast? ≠ some (.char ';') := by
  cases part with
  | plain t =>
    intro hlast
    exact (h ';' (List.mem_of_mem_getLast? hlast)).2.2 rfl
  | constant value =>
    have hlast : (text (constant value)).getLast? = some (.char '\'') := by
      rw [text, Sql.literal, List.getLast?_concat]
    rw [hlast]
    decide
  | identifier name =>
    have hlast : (text (identifier name)).getLast? = some (.char '"') := by
      rw [text, List.getLast?_concat]
    rw [hlast]
    decide

end QueryPart

/-- A view and the query behind its `AS`. -/
structure QueryView where
  name : Text
  query : List QueryPart

namespace QueryView

/-- The statement from the name on, without its semicolon. -/
def body (v : QueryView) : Text :=
  v.name ++ " AS ".text ++ v.query.flatMap QueryPart.text

def text (v : QueryView) : Text :=
  "CREATE VIEW ".text ++ (v.body ++ [.char ';', .char '\n'])

structure WellFormed (v : QueryView) : Prop where
  name_word : IsWord v.name
  name_plain : v.name.head? ≠ some (.char '(')
  name_open : v.name.getLast? ≠ some (.char ';')
  query : ∀ part ∈ v.query, part.WellFormed

/-- The whole view as it is stored, up to its semicolon. -/
def whole (v : QueryView) : Text :=
  viewOpening ++ (v.body ++ [.char ';'])

def statement (v : QueryView) : Statement :=
  ⟨.view, bareName v.name, viewOpening ++ (v.body ++ [.char ';', .char '\n']), 1⟩

theorem trimRight_statement (v : QueryView) : trimRight v.statement.text = v.whole := by
  have hgap : IsGap [.char '\n'] := isGap_singleton rfl
  have hshape : v.statement.text = (viewOpening ++ v.body ++ [.char ';']) ++ [.char '\n'] := by
    simp [statement]
  rw [hshape, trimRight_append_gap hgap, trimRight_semicolon, whole, List.append_assoc]

variable {v : QueryView}

/-- Outside of quotes a view has no semicolon but its last. -/
theorem tight_body (h : v.WellFormed) :
    Tight v.body ↔ ∀ part ∈ v.query, Tight part.text := by
  have hquery : ∀ parts : List QueryPart, (∀ part ∈ parts, part.WellFormed) →
      (Tight (parts.flatMap QueryPart.text) ↔ ∀ part ∈ parts, Tight part.text) := by
    intro parts hparts
    induction parts with
    | nil => simp [Tight]
    | cons part rest ih =>
      have hpart := hparts part List.mem_cons_self
      rw [List.flatMap_cons, tight_append (QueryPart.getLast?_text_ne hpart), List.forall_mem_cons,
        ih fun other ho => hparts other (List.mem_cons_of_mem _ ho)]
  have hname : Tight v.name := by
    by_contra hloose
    obtain ⟨front, c, back, hsplit, hblank⟩ := not_tight_iff.1 hloose
    have hc := h.name_word.2 c (by rw [hsplit]; simp)
    rw [hblank] at hc
    cases hc
  have has : Tight " AS ".text := by decide
  have hend : (v.name ++ " AS ".text).getLast? ≠ some (.char ';') := by
    rw [List.getLast?_append_of_ne_nil _ (by decide)]
    decide
  rw [body, tight_append hend, tight_append h.name_open, hquery v.query h.query]
  simp only [hname, has, true_and]

theorem startsWord_body (h : v.WellFormed) (t : Text) : StartsWord (v.body ++ t) := by
  unfold body
  rw [List.append_assoc, List.append_assoc]
  exact h.name_word.startsWord.append _

theorem words_body (h : v.WellFormed) (t : Text) :
    ∃ more, words (v.body ++ t) = v.name :: more := by
  have hshape : v.body ++ t = v.name ++ [.char ' '] ++
      ("AS ".text ++ (v.query.flatMap QueryPart.text ++ t)) := by
    have has : " AS ".text = [.char ' '] ++ "AS ".text := rfl
    rw [body, has]
    simp only [List.append_assoc]
  have hgap : IsGap [.char ' '] := isGap_singleton rfl
  have hstart : StartsWord ("AS ".text ++ (v.query.flatMap QueryPart.text ++ t)) := by
    have has : StartsWord "AS ".text := by decide
    exact has.append _
  rw [hshape, words_word_append_gap_append h.name_word hgap (List.cons_ne_nil _ _) (.inr hstart)]
  exact ⟨_, rfl⟩

theorem endsBlank_body (v : QueryView) : EndsBlank (v.body ++ [.char ';', .char '\n']) := by
  refine endsBlank_of_newline ?_
  rw [List.getLast?_append_of_ne_nil _ (List.cons_ne_nil _ _)]
  rfl

/-- The first semicolon with a blank behind it is the last one exactly when
there is none in the quotes. -/
theorem nothing_behind_iff (h : v.WellFormed) {front gap back : Text}
    (hsplit : v.body ++ [.char ';', .char '\n'] = (front ++ [.char ';'] ++ gap) ++ back)
    (hgap : IsGap gap)
    (hne : gap ≠ []) (hback : back = [] ∨ StartsWord back ∧ EndsBlank back)
    (hcloses : ClosesAtLast (words (front ++ [.char ';'] ++ gap))) :
    back = [] ↔ ∀ part ∈ v.query, Tight part.text := by
  rw [← tight_body h]
  constructor
  · rintro rfl
    rw [List.append_nil] at hsplit
    by_contra hloose
    refine not_closesAtLast_of_loose hloose ?_
    rw [hsplit]
    exact hcloses
  · exact fun htight => eq_nil_of_tight htight hsplit hgap hne hback

/-- A view is split off up to the first semicolon with a blank behind it.
Nothing of it is left exactly when there is no such semicolon in the query. -/
theorem exists_split_front (h : v.WellFormed) {rest : Text} (hrest : StartsWord rest)
    (noise : List Text) :
    ∃ front gap back, v.body ++ [.char ';', .char '\n'] = (front ++ [.char ';'] ++ gap) ++ back ∧
      IsGap gap ∧
      gap ≠ [] ∧ (back = [] ↔ ∀ part ∈ v.query, Tight part.text) ∧
      split (v.text ++ rest) noise =
        (separateFrom (1 + newlines ("CREATE VIEW ".text ++ (front ++ [.char ';'] ++ gap)))
          (back ++ rest)).map fun later =>
            ⟨⟨.view, bareName v.name, viewOpening ++ (front ++ [.char ';'] ++ gap), 1⟩ :: later.1,
              cleaned noise later.2⟩ := by
  obtain ⟨front, gap, back, hsplit, hgap, hne, hback, hcloses⟩ :=
    exists_closing_front (startsWord_body h _) v.endsBlank_body (exists_closing_of_semicolon _)
  refine ⟨front, gap, back, hsplit, hgap, hne,
    nothing_behind_iff h hsplit hgap hne hback hcloses, ?_⟩
  obtain ⟨more, hmore⟩ := words_body h [.char ';', .char '\n']
  have hstart : StartsWord (front ++ [.char ';'] ++ gap) := by
    have hwhole := startsWord_body h [.char ';', .char '\n']
    rw [hsplit] at hwhole
    exact startsWord_of_append (by simp) hwhole
  have hend : EndsBlank (front ++ [.char ';'] ++ gap) := (endsBlank_of_isGap hne hgap).append _
  -- the cut leaves the name in front
  obtain ⟨others, hwords⟩ : ∃ others, words (front ++ [.char ';'] ++ gap) = v.name :: others := by
    obtain ⟨first, others, hfirst⟩ := List.exists_cons_of_ne_nil (words_ne_nil hstart)
    rw [hsplit] at hmore
    rcases hback with rfl | ⟨hbackStart, _⟩
    · rw [List.append_nil] at hmore
      exact ⟨more, hmore⟩
    · rw [words_append (.inr hend) hbackStart, hfirst, List.cons_append] at hmore
      exact ⟨others, by rw [hfirst, (List.cons.inj hmore).1]⟩
  rw [hwords] at hcloses
  have hopening : StartsWord "CREATE VIEW ".text := by decide
  have hopeningEnd : EndsBlank "CREATE VIEW ".text := by decide
  have hopeningWords : (words "CREATE VIEW ".text).map capitals = Form.view.words := by
    decide +kernel
  have hform : Progress.scan {} (tokensFrom 1 "CREATE VIEW ".text) =
      .ok (Progress.capturing {} ⟨.view, 1, viewOpening, .name, [], []⟩) :=
    Progress.scan_form 1 rfl hopening hopeningWords
  have hscan : Progress.scan {}
      (tokensFrom 1 ("CREATE VIEW ".text ++ (front ++ [.char ';'] ++ gap))) =
      .ok (Progress.completed {} ⟨.view, bareName v.name, viewOpening ++
        (front ++ [.char ';'] ++ gap), 1⟩) := by
    rw [tokensFrom_append 1 hopeningEnd hstart, Progress.scan_append_of_ok hform]
    exact Progress.scan_view_text _ 1 hstart hwords h.name_plain hcloses
  have hbehind : StartsWord (back ++ rest) := by
    rcases hback with rfl | ⟨hbackStart, _⟩
    · exact hrest
    · exact hbackStart.append rest
  have hdump : v.text ++ rest =
      [] ++ ("CREATE VIEW ".text ++ (front ++ [.char ';'] ++ gap)) ++ (back ++ rest) := by
    have htext : v.text = "CREATE VIEW ".text ++ ((front ++ [.char ';'] ++ gap) ++ back) :=
      congrArg ("CREATE VIEW ".text ++ ·) hsplit
    rw [htext, List.nil_append]
    simp only [List.append_assoc]
  rw [hdump]
  exact split_append (.inl rfl) (hopening.append _) (.inr ⟨hend.append _, hbehind⟩) rfl hscan rfl
    noise

end QueryView

/-- A view with its query is split off as a whole exactly when no semicolon in
the quotes has a blank behind it; then the rest of the dump is split as if it
stood alone. -/
theorem split_query_view {v : QueryView} (h : v.WellFormed) {rest : Text}
    (hrest : StartsWord rest) (noise : List Text) :
    ((∀ part ∈ v.query, Tight part.text) → trimRight v.statement.text = v.whole ∧
      split (v.text ++ rest) noise = (separateFrom (1 + newlines v.text) rest).map fun later =>
        ⟨v.statement :: later.1, cleaned noise later.2⟩) ∧
    ((¬ ∀ part ∈ v.query, Tight part.text) → ∀ s, split (v.text ++ rest) noise = .ok s →
      ∀ first ∈ s.statements.head?, trimRight first.text ≠ v.whole) := by
  obtain ⟨front, gap, back, hsplit, hgap, hne, hback, hrun⟩ :=
    QueryView.exists_split_front h hrest noise
  constructor
  · intro htight
    refine ⟨v.trimRight_statement, ?_⟩
    obtain rfl := hback.2 htight
    rw [List.append_nil] at hsplit
    rw [hrun, ← hsplit]
    rfl
  · intro hloose s hs first hfirst hwhole
    rw [hrun] at hs
    obtain ⟨later, _, rfl⟩ := Outcome.map_eq_ok.1 hs
    cases hfirst
    refine hloose (hback.1 ?_)
    -- the whole text leaves one blank for the gap and nothing behind it
    have hshape : viewOpening ++ (front ++ [.char ';'] ++ gap) =
        (viewOpening ++ front ++ [.char ';']) ++ gap := by
      simp only [List.append_assoc]
    rw [hshape, trimRight_append_gap hgap, trimRight_semicolon, List.append_assoc] at hwhole
    have hbody : front ++ [.char ';'] = v.body ++ [.char ';'] := List.append_cancel_left hwhole
    rw [hbody] at hsplit
    have hlength := congrArg List.length hsplit
    have hpos := List.length_pos_of_ne_nil hne
    simp only [List.length_append, List.length_cons, List.length_nil] at hlength
    exact List.eq_nil_of_length_eq_zero (by omega)

def quotedView : QueryView :=
  ⟨"v".text, [.plain "SELECT ".text, .constant "a;b''".text, .plain " AS ".text,
    .identifier "c;".text]⟩

theorem split_query_view_quoted :
    (∀ part ∈ quotedView.query, Tight part.text) ∧
      split (quotedView.text ++ "SET x = 1;\n".text) [] =
        .ok ⟨[quotedView.statement], "SET x = 1;\n".text⟩ := by
  have htight : ∀ part ∈ quotedView.query, Tight part.text := by decide +kernel
  have hwell : quotedView.WellFormed := by
    constructor <;> decide +kernel
  obtain ⟨hwhole, _⟩ := split_query_view hwell (show StartsWord "SET x = 1;\n".text by decide) []
  refine ⟨htight, (hwhole htight).2.trans ?_⟩
  decide +kernel

def cutView : QueryView :=
  ⟨"v".text, [.plain "SELECT ".text, .constant "a; b".text]⟩

/-- The constant holds a semicolon and a blank behind it: the view ends there,
and the rest of the constant is left. -/
theorem split_query_view_cut :
    (∀ part ∈ cutView.query, part.WellFormed) ∧
      cutView.text = "CREATE VIEW v AS SELECT 'a; b';\n".text ∧
      split (cutView.text ++ "SET x = 1;\n".text) [] =
        .ok ⟨[⟨.view, "v".text, "CREATE OR REPLACE VIEW v AS SELECT 'a; ".text, 1⟩],
          "b';\nSET x = 1;\n".text⟩ := by
  decide +kernel

end Dump
end SchemaLedger
