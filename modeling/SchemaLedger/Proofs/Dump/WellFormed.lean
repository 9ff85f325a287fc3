import SchemaLedger.Proofs.Dump.Run

/-!
# Splitting a well-formed dump

Each kind of item is scanned from its first token to its last without a look at
its neighbours, so a dump of well-formed items is split item by item.
-/

namespace SchemaLedger
namespace Dump

open Text

/-! ## Headers -/

/-- No header is the beginning of another one. -/
theorem words_eq_of_prefix :
    ∀ header ∈ headers, ∀ other ∈ headers, header.words <+: other.words →
      header.words = other.words := by
  decide

theorem head_mem_introducing :
    ∀ header ∈ headers, ∃ word ∈ introducing, header.words.head? = some word := by
  decide

theorem pendingStep_of_header {held : List Token} {header : Header}
    (h : header? (headerWords held) = some header) :
    pendingStep held =
      ⟨.capturing ⟨header.kind, (held.head?.map Token.line).getD 0, header.opening, .name, [], []⟩,
        [], none⟩ := by
  rw [pendingStep, h]

/-- A header that lacks some of its words is held back. -/
theorem pendingStep_of_part {held : List Token} {header : Header} {lacking : List Text}
    (hmem : header ∈ headers) (hwords : header.words = headerWords held ++ lacking)
    (hlacking : lacking ≠ []) : pendingStep held = ⟨.pending held, [], none⟩ := by
  have hpart : headerWords held <+: header.words := ⟨lacking, hwords.symm⟩
  have hnone : header? (headerWords held) = none := by
    refine List.find?_eq_none.2 fun other hother hfull => ?_
    have hother_words : other.words = headerWords held := by simpa using hfull
    have hsame := words_eq_of_prefix other hother header hmem (hother_words ▸ hpart)
    rw [hother_words, hwords] at hsame
    exact hlacking (List.self_eq_append_right.1 hsame)
  have hstarts : startsHeader (headerWords held) = true :=
    List.any_eq_true.2 ⟨header, hmem, List.isPrefixOf_iff_prefix.2 hpart⟩
  rw [pendingStep, hnone]
  exact if_pos hstarts

namespace Form

theorem words_eq (form : Form) : form.words = "CREATE".text :: form.words.tail := by
  cases form <;> rfl

theorem header?_tail_words (form : Form) :
    header? form.words.tail = some ⟨form.words.tail, form.kind, form.normal⟩ := by
  cases form <;> rfl

end Form

namespace Progress

/-- The words of a header that are still to come start a capture. -/
theorem scan_pending {p : Progress} {held rest : List Token} {header : Header}
    (hstate : p.state = .pending held) (hheld : held ≠ []) (hrest : rest ≠ [])
    (h : header? (headerWords (held ++ rest)) = some header) :
    p.scan rest = .ok (p.capturing
      ⟨header.kind, (held.head?.map Token.line).getD 0, header.opening, .name, [], []⟩) := by
  induction rest generalizing p held with
  | nil => exact absurd rfl hrest
  | cons token more ih =>
    have hhead : (held ++ [token]).head? = held.head? := List.head?_append_of_ne_nil held hheld
    by_cases hmore : more = []
    · subst hmore
      have hstep : step p.state token = .ok (pendingStep (held ++ [token])) := by
        rw [hstate]
        rfl
      rw [pendingStep_of_header h, hhead] at hstep
      rw [scan_cons [] hstep, scan]
      simp [add, capturing]
    · have hmem : header ∈ headers := List.mem_of_find?_eq_some h
      have hwords : header.words = headerWords (held ++ [token]) ++ more.map Token.keyword := by
        have hfull : header.words = headerWords (held ++ token :: more) := by
          simpa using List.find?_some h
        rw [hfull]
        simp [headerWords, List.tail_append_of_ne_nil hheld]
      have hstep : step p.state token = .ok ⟨.pending (held ++ [token]), [], none⟩ := by
        rw [hstate, ← pendingStep_of_part hmem hwords (by simpa using hmore)]
        rfl
      have hnext : header? (headerWords (held ++ [token] ++ more)) = some header := by
        rwa [List.append_assoc]
      rw [scan_cons more hstep, ih rfl (by simp) hmore hnext, hhead]
      simp [add, capturing]

/-- The words of a form start a capture on the line of the first of them. -/
theorem scan_form {p : Progress} {form : Form} {opening : Text} (line : Int)
    (hstate : p.state = .scanning) (hstart : StartsWord opening)
    (hwords : (words opening).map capitals = form.words) :
    p.scan (tokensFrom line opening) =
      .ok (p.capturing ⟨form.kind, line, form.normal, .name, [], []⟩) := by
  rw [← map_keyword_tokensFrom line hstart, form.words_eq] at hwords
  obtain ⟨create, rest, htokens, hcreate, hrest⟩ := List.map_eq_cons_iff.1 hwords
  have hstep : step p.state create = .ok ⟨.pending [create], [], none⟩ := by
    rw [hstate]
    exact step_create hcreate
  have hheader : header? (headerWords ([create] ++ rest)) =
      some ⟨form.words.tail, form.kind, form.normal⟩ := by
    rw [← form.header?_tail_words, ← hrest]
    rfl
  have hne : rest ≠ [] := by
    rintro rfl
    cases form <;> cases hrest
  rw [htokens, scan_cons rest hstep, scan_pending rfl (List.cons_ne_nil _ _) hne hheader]
  simp [add, capturing, line_of_tokensFrom_eq_cons htokens]

/-! ## Ordinary text -/

/-- Tokens that are held back begin a form, or there are none. -/
def Held (held : List Token) : Prop :=
  ∃ header ∈ headers, held.map Token.keyword <+: "CREATE".text :: header.words

theorem held_nil : Held [] :=
  ⟨_, List.mem_cons_self, List.nil_prefix⟩

/-- The state between statements. -/
def holding : List Token → State
  | [] => .scanning
  | create :: rest => .pending (create :: rest)

/-- While no form is complete, a token is held back as well, or all that was held
is let go. -/
theorem step_holding {held : List Token} {token : Token} (h : Held held)
    (hfree : ∀ header ∈ headers,
      "CREATE".text :: header.words ≠ (held ++ [token]).map Token.keyword) :
    ∃ next residue, step (holding held) token = .ok ⟨holding next, residue, none⟩ ∧
      residue ++ written next = written (held ++ [token]) ∧ Held next ∧
      (next = [] ∨ next = held ++ [token]) := by
  cases held with
  | nil =>
    by_cases hcreate : token.keyword = "CREATE".text
    · refine ⟨[token], [], step_create hcreate, rfl, ⟨_, List.mem_cons_self, ?_⟩, .inr rfl⟩
      rw [List.map_singleton, hcreate]
      exact List.prefix_append ["CREATE".text] _
    · exact ⟨[], token.text, step_ordinary hcreate, by simp [written_cons, written_nil], held_nil,
        .inl rfl⟩
  | cons create more =>
    obtain ⟨_, _, hbegins⟩ := h
    have hcreate : create.keyword = "CREATE".text := (List.cons_prefix_cons.1 hbegins).1
    have hkeywords : (create :: more ++ [token]).map Token.keyword =
        "CREATE".text :: headerWords (create :: more ++ [token]) := by
      rw [← hcreate]
      rfl
    rw [hkeywords] at hfree
    have hnone : header? (headerWords (create :: more ++ [token])) = none := by
      refine List.find?_eq_none.2 fun header hmem hfull => hfree header hmem ?_
      rw [of_decide_eq_true hfull]
    have hstep : step (holding (create :: more)) token =
        .ok (pendingStep (create :: more ++ [token])) := rfl
    rw [pendingStep, hnone] at hstep
    by_cases hstarts : startsHeader (headerWords (create :: more ++ [token])) = true
    · obtain ⟨header, hmem, hpart⟩ := List.any_eq_true.1 hstarts
      rw [if_pos hstarts] at hstep
      refine ⟨create :: more ++ [token], [], hstep, rfl, ⟨header, hmem, ?_⟩, .inr rfl⟩
      rw [hkeywords]
      exact List.cons_prefix_cons.2 ⟨rfl, List.isPrefixOf_iff_prefix.1 hpart⟩
    · rw [if_neg hstarts] at hstep
      exact ⟨[], _, hstep, List.append_nil _, held_nil, .inl rfl⟩

/-- Where no form stands nothing is captured, and all is residual but what is held
back at the end. -/
theorem scan_holding {held tokens : List Token} (h : Held held)
    (hfree : ∀ header ∈ headers,
      ¬ "CREATE".text :: header.words <:+: (held ++ tokens).map Token.keyword)
    (residual : Text) (statements : List Statement) :
    ∃ rest more, scan ⟨holding held, residual, statements⟩ tokens =
        .ok ⟨holding rest, residual ++ more, statements⟩ ∧
      more ++ written rest = written (held ++ tokens) ∧ Held rest ∧ rest <:+ held ++ tokens := by
  induction tokens generalizing held residual with
  | nil => exact ⟨held, [], by rw [scan, List.append_nil], by simp, h, by simp⟩
  | cons token tokens ih =>
    have hshape : held ++ token :: tokens = held ++ [token] ++ tokens := by simp
    have hfirst : ∀ header ∈ headers,
        "CREATE".text :: header.words ≠ (held ++ [token]).map Token.keyword := by
      intro header hmem heq
      refine hfree header hmem ?_
      rw [heq, hshape]
      exact ((List.prefix_append _ tokens).map _).isInfix
    obtain ⟨next, residue, hstep, hwritten, hnext, hwhich⟩ := step_holding h hfirst
    have hsuffix : next ++ tokens <:+ held ++ token :: tokens := by
      rcases hwhich with rfl | rfl
      · exact ⟨held ++ [token], by simp⟩
      · exact ⟨[], by simp⟩
    obtain ⟨rest, more, hscan, hmore, hrest, hbehind⟩ := ih hnext
      (fun header hmem hinside => hfree header hmem (hinside.trans (hsuffix.map _).isInfix))
      (residual ++ residue)
    refine ⟨rest, residue ++ more, ?_, ?_, hrest, hbehind.trans hsuffix⟩
    · rw [scan_cons tokens hstep]
      simp only [add, Option.toList_none, List.append_nil]
      rw [hscan, List.append_assoc]
    · rw [List.append_assoc, hmore, written_append, ← List.append_assoc, hwritten,
        ← written_append, hshape]

/-- Text without a form, and without the beginning of one at its end, is residual. -/
theorem scan_unheaded {tokens : List Token}
    (hfree : ∀ header ∈ headers,
      ¬ "CREATE".text :: header.words <:+: tokens.map Token.keyword)
    (hend : ∀ rest, rest <:+ tokens → Held rest → rest = []) (residual : Text)
    (statements : List Statement) :
    scan ⟨.scanning, residual, statements⟩ tokens =
      .ok ⟨.scanning, residual ++ written tokens, statements⟩ := by
  obtain ⟨rest, more, hscan, hmore, hheld, hsuffix⟩ :=
    scan_holding held_nil hfree residual statements
  obtain rfl := hend rest hsuffix hheld
  rw [written_nil, List.append_nil, List.nil_append] at hmore
  rw [← hmore]
  exact hscan

theorem scan_ordinary (tokens : List Token) (residual : Text) (statements : List Statement)
    (hlast : (tokens.map Token.keyword).getLast? ≠ some "CREATE".text)
    (hchain : (tokens.map Token.keyword).IsChain fun word next =>
      word = "CREATE".text → next ∉ introducing) :
    scan ⟨.scanning, residual, statements⟩ tokens =
      .ok ⟨.scanning, residual ++ written tokens, statements⟩ := by
  refine scan_unheaded (fun header hmem hinside => ?_) (fun rest hsuffix hheld => ?_) _ _
  · obtain ⟨word, hword, hhead⟩ := head_mem_introducing header hmem
    obtain ⟨more, hwords⟩ := List.head?_eq_some_iff.1 hhead
    have hpair := hchain.infix hinside
    rw [hwords] at hpair
    exact (List.isChain_cons_cons.1 hpair).1 rfl hword
  · obtain ⟨header, hmem, hbegins⟩ := hheld
    obtain ⟨word, hword, hhead⟩ := head_mem_introducing header hmem
    obtain ⟨more, hwords⟩ := List.head?_eq_some_iff.1 hhead
    rw [hwords] at hbegins
    match rest with
    | [] => rfl
    | [create] =>
      have hcreate : create.keyword = "CREATE".text := (List.cons_prefix_cons.1 hbegins).1
      obtain ⟨front, rfl⟩ := hsuffix
      rw [List.map_append, List.map_singleton, List.getLast?_concat, hcreate] at hlast
      exact absurd rfl hlast
    | create :: next :: others =>
      have hpair := hchain.infix (hsuffix.map _).isInfix
      obtain ⟨hcreate, hbehind⟩ := List.cons_prefix_cons.1 hbegins
      have hnext : next.keyword = word := (List.cons_prefix_cons.1 hbehind).1
      have hnone := (List.isChain_cons_cons.1 hpair).1 hcreate
      exact absurd (hnext ▸ hword) hnone

/-! ## Views -/

theorem nameIn_of_isWord {word : Text} (h : IsWord word) : nameIn word = bareName word := by
  have hword := h.2
  clear h
  induction word with
  | nil => rfl
  | cons c rest ih =>
    have hc : isBlank c = false := hword c List.mem_cons_self
    have hrest := ih fun x hx => hword x (List.mem_cons_of_mem _ hx)
    unfold nameIn bareName at hrest ⊢
    rw [List.takeWhile_cons, List.takeWhile_cons, hrest, hc]
    simp

theorem nameIn_ne_nil {word : Text} (hword : IsWord word) (hplain : word.head? ≠ some (.char '(')) :
    nameIn word ≠ [] := by
  obtain ⟨c, rest, rfl⟩ := List.exists_cons_of_ne_nil hword.1
  have hc : c ≠ '(' := fun h => hplain (h ▸ rfl)
  simp [nameIn, hc, hword.2 c List.mem_cons_self]

/-- From its name on a view is captured up to the first closing word. -/
theorem scan_view_text {p : Progress} {opening t name : Text} {more : List Text}
    (line first : Int) (hstart : StartsWord t) (hwords : words t = name :: more)
    (hplain : name.head? ≠ some (.char '(')) (hcloses : ClosesAtLast (name :: more)) :
    (p.capturing ⟨.view, first, opening, .name, [], []⟩).scan (tokensFrom line t) =
      .ok (p.completed ⟨.view, bareName name, opening ++ t, first⟩) := by
  rw [← map_word_tokensFrom line hstart] at hwords
  obtain ⟨token, others, htokens, hname, hmore⟩ := List.map_eq_cons_iff.1 hwords
  have hmem : token ∈ tokensFrom line t := by
    rw [htokens]
    exact List.mem_cons_self
  have hword : IsWord token.word := (whole_of_mem_tokensFrom hstart hmem).isWord
  have hmoves : Capture.Moves ⟨.view, first, opening, .name, [], []⟩ token _ true :=
    .otherName rfl (nameIn_ne_nil hword (hname ▸ hplain)) nofun
  have htokenCloses : ClosesAtLast (token.word :: others.map Token.word) := by
    rw [hname, hmore]
    exact hcloses
  have htext : token.text ++ written others = t := by
    rw [← written_cons, ← htokens, written_tokensFrom]
  rw [htokens, scan_closing hmoves rfl htokenCloses]
  simp only [Capture.takeAll, Capture.take, Capture.statement, nameIn_of_isWord hword,
    List.append_assoc, htext]
  rw [hname]

theorem scan_view {p : Progress} {v : ViewItem} (h : v.WellFormed) (line first : Int) :
    (p.capturing ⟨.view, first, v.form.normal, .name, [], []⟩).scan (tokensFrom line v.rest) =
      .ok (p.completed (v.statement first)) :=
  scan_view_text line first h.rest_starts h.rest_words h.name_plain h.closes

/-! ## Functions -/

/-- The last word of a text that tokens end is that of the last token. -/
theorem followsBegin_append_written {t : Text} {tokens : List Token} {last : Token}
    (ht : t = [] ∨ EndsBlank t) (h : ∀ token ∈ tokens, token.Whole ∧ EndsBlank token.text)
    (hlast : tokens.getLast? = some last) :
    Capture.followsBegin (t ++ written tokens) = .ok (last.keyword == "BEGIN".text) := by
  unfold Capture.followsBegin
  rw [words_append_written ht h, List.getLast?_append, List.getLast?_map, hlast]
  rfl

theorem moves_type {c : Capture} (token : Token) (hphase : c.phase = .returnType) :
    c.Moves token { c.take token with
      kind := if token.keyword = "TRIGGER".text then .trigger else c.kind
      phase := .delimiter } false := by
  by_cases hword : token.keyword = "TRIGGER".text
  · rw [if_pos hword]
    exact .trigger hphase hword
  · rw [if_neg hword]
    exact .type hphase hword

/-- Clauses between the type and the body only lengthen the statement. -/
theorem scan_clauses {p : Progress} {c : Capture} {t : Text} {type : Token}
    {clauses : List Token} (hphase : c.phase = .delimiter) (htext : c.text = t ++ type.text)
    (ht : EndsBlank t) (hwhole : ∀ token ∈ type :: clauses, token.Whole ∧ EndsBlank token.text)
    (hplain : ∀ token ∈ clauses, ¬ StartsWithQuote token.word ∧ endsStatement token.word = false)
    (hchain : (type :: clauses).IsChain fun before token =>
      ¬ (before.keyword = "BEGIN".text ∧ token.keyword = "ATOMIC".text)) :
    (p.capturing c).scan clauses = .ok (p.capturing (c.takeAll clauses)) := by
  refine scan_takeAll fun front token back hsplit => ?_
  subst hsplit
  obtain ⟨hquote, hopen⟩ := hplain token (by simp)
  refine ⟨true, .clause hphase (dollarTag?_eq_none_iff.2 hquote) fun hatomic => ?_, fun _ => hopen⟩
  -- the token in front is a clause or the type, and it is no `BEGIN`
  obtain ⟨before, hbefore⟩ : ∃ before, (type :: front).getLast? = some before :=
    ⟨_, List.getLast?_eq_getLast_of_ne_nil (List.cons_ne_nil _ _)⟩
  have hbegin : before.keyword ≠ "BEGIN".text := fun hword =>
    (List.isChain_append.1 (hchain : ((type :: front) ++ token :: back).IsChain _)).2.2
      before hbefore token rfl ⟨hword, hatomic⟩
  have hfront : ∀ u ∈ type :: front, u.Whole ∧ EndsBlank u.text := fun u hu =>
    hwhole u (by
      rw [← List.cons_append]
      exact List.mem_append_left _ hu)
  have hshape : (c.takeAll front).text = t ++ written (type :: front) := by
    simp [Capture.takeAll, htext, written_cons]
  rw [hshape, followsBegin_append_written (.inr ht) hfront hbefore, beq_eq_false_iff_ne.2 hbegin]

/-- From the name to the clauses a function waits for its body. -/
theorem scan_head {p : Progress} {f : FunctionHead} (h : f.WellFormed) (opening : Text)
    (line first : Int) :
    (p.capturing ⟨.function, first, opening, .name, [], []⟩).scan (tokensFrom line f.text) =
      .ok (p.capturing ⟨f.kind, first, opening ++ f.text, .delimiter, bareName f.name, []⟩) := by
  have hwhole : ∀ token ∈ tokensFrom line f.text, token.Whole ∧ EndsBlank token.text :=
    fun _ ht => ⟨whole_of_mem_tokensFrom h.starts ht, endsBlank_of_mem_tokensFrom h.ends ht⟩
  have hwords := h.words_text
  rw [← map_word_tokensFrom line h.starts] at hwords
  obtain ⟨name, rest, htokens, hname, hrest⟩ := List.map_eq_cons_iff.1 hwords
  obtain ⟨signature, after, rfl, hsignature, hafter⟩ := List.map_eq_append_iff.1 hrest
  obtain ⟨returns, others, rfl, hreturns, hothers⟩ := List.map_eq_cons_iff.1 hafter
  obtain ⟨type, clauses, rfl, htype, hclauses⟩ := List.map_eq_cons_iff.1 hothers
  rw [htokens] at hwhole
  have hwritten : name.text ++ (written signature ++ (returns.text ++ (type.text ++
      written clauses))) = f.text := by
    have := written_tokensFrom line f.text
    rw [htokens] at this
    simpa [written_cons, written_append] using this
  have hnameWord := (hwhole name List.mem_cons_self).1.isWord
  have hsignaturePlain : ∀ token ∈ signature, token.keyword ≠ "RETURNS".text := fun token ht =>
    h.signature_plain token.word (hsignature ▸ List.mem_map_of_mem ht)
  have hisReturns : returns.keyword = "RETURNS".text := by
    rw [Token.keyword, hreturns]
    exact h.isReturns
  have hclausesPlain : ∀ token ∈ clauses,
      ¬ StartsWithQuote token.word ∧ endsStatement token.word = false := fun token ht =>
    h.clauses_plain token.word (hclauses ▸ List.mem_map_of_mem ht)
  have hchain : (type :: clauses).IsChain fun before token =>
      ¬ (before.keyword = "BEGIN".text ∧ token.keyword = "ATOMIC".text) := by
    have := h.clauses_atomic
    rwa [← htype, ← hclauses, ← List.map_cons, List.isChain_map] at this
  have hreturnsBlank : EndsBlank returns.text := (hwhole returns (by simp)).2
  rw [htokens, scan_moves _ (.functionName rfl
    (nameIn_ne_nil hnameWord (hname ▸ h.name_plain)) rfl) nofun]
  rw [scan_append_of_ok (scan_takeAll fun front token back hsplit =>
    ⟨false, .signature rfl (hsignaturePlain token (by simp [hsplit])), nofun⟩)]
  rw [scan_moves _ (.returns rfl hisReturns) nofun, scan_moves _ (moves_type type rfl) nofun]
  rw [scan_clauses rfl rfl (hreturnsBlank.append _) (fun token ht => hwhole token ?_) hclausesPlain
    hchain]
  · simp only [Capture.takeAll, Capture.take, List.append_assoc, hwritten,
      nameIn_of_isWord hnameWord]
    rw [hname, FunctionHead.kind, Token.keyword, htype]
  · simp only [List.mem_cons, List.mem_append]
    simp only [List.mem_cons] at ht
    tauto

theorem scan_function {p : Progress} {f : FunctionItem} (h : f.WellFormed) (line first : Int) :
    (p.capturing ⟨.function, first, f.form.normal, .name, [], []⟩).scan
        (tokensFrom line (f.head.text ++ f.quoted)) =
      .ok (p.completed (f.statement first)) := by
  have hquoted : StartsWord f.quoted := by
    unfold FunctionItem.quoted
    rw [List.append_assoc, List.append_assoc]
    exact (isWord_dollarQuote h.tag_name).startsWord.append _
  rw [tokensFrom_append line h.head.ends hquoted,
    scan_append_of_ok (scan_head h.head f.form.normal line first), FunctionItem.quoted,
    scan_quoted rfl h.tag_name h.body_free (endsBlank_of_newline h.tail_ends) h.closes,
    List.append_assoc]
  rfl

end Progress

/-! ## Items -/

namespace Item

theorem startsWord_text {item : Item} (h : item.WellFormed) : StartsWord item.text := by
  cases item with
  | ordinary text => exact h.1
  | view v => exact (show v.WellFormed from h).opening_starts.append _
  | function f => exact (show f.WellFormed from h).opening_starts.append _

theorem endsBlank_text {item : Item} (h : item.WellFormed) : EndsBlank item.text := by
  cases item with
  | ordinary text => exact endsBlank_of_newline h.2.1
  | view v => exact (endsBlank_of_newline (show v.WellFormed from h).rest_ends).append _
  | function f =>
    have htail := endsBlank_of_newline (show f.WellFormed from h).tail_ends
    exact ((htail.append _).append _).append _

theorem dump_nil_or_startsWord {items : List Item} (h : ∀ item ∈ items, item.WellFormed) :
    dump items = [] ∨ StartsWord (dump items) := by
  cases items with
  | nil => exact .inl rfl
  | cons item rest => exact .inr ((startsWord_text (h item List.mem_cons_self)).append _)

end Item

namespace Progress

/-- An item leaves the scan between statements, with its statement taken out or
with all of its text left behind. -/
theorem scan_item {item : Item} (h : item.WellFormed) (line : Int) (residual : Text)
    (statements : List Statement) :
    scan ⟨.scanning, residual, statements⟩ (tokensFrom line item.text) =
      .ok ⟨.scanning, residual ++ item.residue,
        statements ++ (item.statement? line).toList⟩ := by
  cases item with
  | ordinary text =>
    obtain ⟨hstart, _, hlast, hchain⟩ := h
    rw [← map_keyword_tokensFrom line hstart] at hlast hchain
    have := scan_ordinary _ residual statements hlast hchain
    simpa [Item.text, Item.residue, Item.statement?, written_tokensFrom] using this
  | view v =>
    have hv : v.WellFormed := h
    have hform := scan_form (p := ⟨.scanning, residual, statements⟩) line rfl hv.opening_starts
      hv.opening_words
    rw [hv.isView] at hform
    rw [Item.text, ViewItem.text, tokensFrom_append line hv.opening_ends hv.rest_starts,
      scan_append_of_ok hform, scan_view hv]
    simp [completed, Item.residue, Item.statement?]
  | function f =>
    have hf : f.WellFormed := h
    have hform := scan_form (p := ⟨.scanning, residual, statements⟩) line rfl hf.opening_starts
      hf.opening_words
    rw [hf.isFunction] at hform
    rw [Item.text, FunctionItem.text,
      tokensFrom_append line hf.opening_ends (hf.head.starts.append _),
      scan_append_of_ok hform, scan_function hf]
    simp [completed, Item.residue, Item.statement?]

theorem scan_dump {items : List Item} (h : ∀ item ∈ items, item.WellFormed) (line : Int)
    (residual : Text) (statements : List Statement) :
    scan ⟨.scanning, residual, statements⟩ (tokensFrom line (Item.dump items)) =
      .ok ⟨.scanning, residual ++ items.flatMap Item.residue,
        statements ++ Item.statements line items⟩ := by
  induction items generalizing line residual statements with
  | nil => simp [Item.dump, Item.statements, tokensFrom_nil, scan]
  | cons item rest ih =>
    have hitem := h item List.mem_cons_self
    have hrest : ∀ other ∈ rest, other.WellFormed := fun other ho =>
      h other (List.mem_cons_of_mem _ ho)
    have htokens : tokensFrom line (item.text ++ Item.dump rest) =
        tokensFrom line item.text ++ tokensFrom (line + newlines item.text) (Item.dump rest) := by
      rcases Item.dump_nil_or_startsWord hrest with hnil | hstart
      · rw [hnil, List.append_nil, tokensFrom_nil, List.append_nil]
      · exact tokensFrom_append line (Item.endsBlank_text hitem) hstart
    have hdump : Item.dump (item :: rest) = item.text ++ Item.dump rest := rfl
    rw [hdump, htokens, scan_append_of_ok (scan_item hitem line residual statements), ih hrest]
    simp [Item.statements]

end Progress

/-- The statements of a well-formed dump are those of its items, each on its own
line, and its ordinary text is what is left. -/
theorem split_dump (items : List Item) (noise : List Text)
    (h : ∀ item ∈ items, item.WellFormed) :
    split (Item.dump items) noise =
      .ok ⟨Item.statements 1 items, cleaned noise (items.flatMap Item.residue)⟩ := by
  have htrim : trimLeft (Item.dump items) = Item.dump items := by
    rcases Item.dump_nil_or_startsWord h with hnil | hstart
    · rw [hnil]
      rfl
    · exact trimLeft_of_startsWord hstart
  have hlead : leadingBlanks (Item.dump items) = [] := by
    have := leadingBlanks_append_trimLeft (Item.dump items)
    rw [htrim] at this
    exact List.append_left_eq_self.1 this
  have hscan := Progress.scan_dump h 1 [] []
  have htokens : tokens (Item.dump items) = tokensFrom 1 (Item.dump items) := by
    rw [tokens_eq_tokensFrom, hlead, htrim]
    rfl
  rw [← htokens] at hscan
  unfold split separate
  rw [show Progress.scan {} _ = _ from hscan]
  simp [finish, hlead, Except.map]

/-! ## A dump of three items -/

def commentedTable : Text :=
  "-- t\nCREATE TABLE t();\n".text

def replacedView : ViewItem :=
  ⟨.replacedView, "create or replace VIEW ".text, "v AS\n SELECT 1;\n".text, "v".text,
    ["AS".text, "SELECT".text, "1;".text]⟩

/-- A trigger function, whose body holds what would begin statements outside of it. -/
def quotingFunction : FunctionItem :=
  ⟨.function, "Create FUNCTION ".text,
    ⟨"f(a) RETURNS trigger AS ".text, "f(a)".text, [], "RETURNS".text, "trigger".text,
      ["AS".text]⟩,
    "b".text, "x; CREATE VIEW $$; RETURNS".text, ";\n".text⟩

theorem split_dump_three :
    split
        ("-- t\nCREATE TABLE t();\ncreate or replace VIEW v AS\n SELECT 1;\n" ++
          "Create FUNCTION f(a) RETURNS trigger AS $b$x; CREATE VIEW $$; RETURNS$b$;\n").text [] =
      .ok ⟨[⟨.view, "v".text, "CREATE OR REPLACE VIEW v AS\n SELECT 1;\n".text, 3⟩,
        ⟨.trigger, "f".text, ("CREATE OR REPLACE FUNCTION f(a) RETURNS trigger AS " ++
          "$b$x; CREATE VIEW $$; RETURNS$b$;\n").text, 5⟩], "CREATE TABLE t();\n".text⟩ := by
  have htable : (Item.ordinary commentedTable).WellFormed :=
    ⟨by decide, by decide, by decide, by decide⟩
  have hview : replacedView.WellFormed := ⟨by decide, by decide, by decide, by decide, by decide,
    by decide, by decide, by decide, by decide⟩
  have hhead : quotingFunction.head.WellFormed :=
    ⟨by decide, by decide, by decide, by decide, by decide, by decide, by decide, by decide⟩
  have hfree : ¬ dollarQuote quotingFunction.tag <:+: quotingFunction.body :=
    hasInfix_eq_false_iff.1 (by decide)
  have hfunction : quotingFunction.WellFormed :=
    ⟨by decide, by decide, by decide, by decide, hhead, by decide, hfree, by decide, by decide⟩
  have hsplit := split_dump [.ordinary commentedTable, .view replacedView,
      .function quotingFunction]
    [] (by
      simp only [List.forall_mem_cons, List.not_mem_nil, false_implies, implies_true, and_true]
      exact ⟨htable, hview, hfunction⟩)
  refine (congrArg₂ split ?_ rfl).trans (hsplit.trans (congrArg Except.ok ?_))
  · decide +kernel
  · decide +kernel

end Dump
end SchemaLedger
