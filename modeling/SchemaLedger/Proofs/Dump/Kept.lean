import SchemaLedger.Proofs.Dump.Cleaned
import SchemaLedger.Proofs.Dump.Part
import SchemaLedger.Proofs.Dump.Segment
import SchemaLedger.Proofs.Text.Line

/-!
# Lines that stay in the bootstrap migration

A line of a dump with no token of a statement on it is residual, but it is
cleaned as it stands in the residual and not as it stands in the dump.  A
statement takes the newline behind it along, and so the line behind a statement
goes on the residual line in front of the statement.  What decides about a line
is that joined line, cut at every character that ends a line.
-/

namespace SchemaLedger

namespace Text

/-- A line of a text, counted from zero, between what stands around it. -/
structure Between (t line : Text) (n : Nat) (pre post : Text) : Prop where
  split : t = pre ++ line ++ post
  opens : pre = [] ∨ pre.getLast? = some (.char '\n')
  closes : post = [] ∨ post.head? = some (.char '\n')
  unbroken : newlines line = 0
  number : newlines pre = n

theorem exists_between {t line : Text} {n : Nat} (h : (splitOn '\n' t)[n]? = some line) :
    ∃ pre post, Between t line n pre post := by
  fun_induction splitOn '\n' t generalizing n line with
  | case1 =>
    cases n with
    | zero =>
      obtain rfl : [] = line := by simpa using h
      exact ⟨[], [], rfl, .inl rfl, .inl rfl, rfl, rfl⟩
    | succ n => simp at h
  | case2 rest ih =>
    cases n with
    | zero =>
      obtain rfl : [] = line := by simpa using h
      exact ⟨[], .char '\n' :: rest, rfl, .inl rfl, .inr rfl, rfl, rfl⟩
    | succ n =>
      obtain ⟨pre, post, hsplit, hopens, hcloses, hunbroken, hnumber⟩ := ih (by simpa using h)
      refine ⟨.char '\n' :: pre, post, by rw [hsplit]; rfl, .inr ?_, hcloses, hunbroken, ?_⟩
      · rcases hopens with rfl | hlast
        · rfl
        · rw [List.getLast?_cons, hlast]
          rfl
      · rw [← hnumber]
        exact List.count_cons_self
  | case3 c rest hc hrest => exact absurd hrest (splitOn_ne_nil _ _)
  | case4 c rest hc piece pieces hrest ih =>
    rw [hrest] at ih
    cases n with
    | zero =>
      obtain rfl : c :: piece = line := by simpa using h
      obtain ⟨pre, post, hsplit, hopens, hcloses, hunbroken, hnumber⟩ := ih (n := 0) rfl
      have hpre : pre = [] := by
        refine hopens.resolve_right fun hlast => ?_
        exact absurd (List.mem_of_mem_getLast? hlast) (List.count_eq_zero.1 hnumber)
      refine ⟨[], post, by rw [hsplit, hpre]; rfl, .inl rfl, hcloses, ?_, rfl⟩
      rw [← hunbroken]
      exact List.count_cons_of_ne hc
    | succ n =>
      obtain ⟨pre, post, hsplit, hopens, hcloses, hunbroken, hnumber⟩ :=
        ih (n := n + 1) (by simpa using h)
      refine ⟨c :: pre, post, by rw [hsplit]; rfl, .inr ?_, hcloses, hunbroken, ?_⟩
      · rcases hopens with rfl | hlast
        · cases hnumber
        · rw [List.getLast?_cons, hlast]
          rfl
      · rw [← hnumber]
        exact List.count_cons_of_ne hc

end Text

namespace Dump

open Text

/-! ## What cleaning keeps -/

/-- Cleaning drops no word of a text. -/
def Survives (noise : List Text) (t : Text) : Prop :=
  ∀ piece ∈ lines t, isBlankText piece = false → isKept noise piece = true

instance (noise : List Text) (t : Text) : Decidable (Survives noise t) :=
  inferInstanceAs (Decidable (∀ piece ∈ lines t, _))

theorem words_eachLine (pieces : List Text) : words (eachLine pieces) = pieces.flatMap words := by
  induction pieces with
  | nil => rfl
  | cons piece rest ih =>
    rw [eachLine_cons, words_append_blank piece _ (by decide), ih, List.flatMap_cons]

theorem words_of_isBlankText {t : Text} (h : isBlankText t = true) : words t = [] :=
  words_of_isGap (List.all_eq_true.1 h)

theorem Survives.flatMap_words {noise : List Text} {t : Text} (h : Survives noise t) :
    ((lines t).filter (isKept noise)).flatMap words = words t := by
  rw [words_eq_flatMap_lines]
  unfold Survives at h
  generalize lines t = pieces at h ⊢
  induction pieces with
  | nil => rfl
  | cons piece rest ih =>
    have hrest := ih fun p hp => h p (List.mem_cons_of_mem _ hp)
    by_cases hkept : isKept noise piece = true
    · rw [List.filter_cons_of_pos hkept, List.flatMap_cons, List.flatMap_cons, hrest]
    · have hblank : isBlankText piece = true := by
        by_contra hnot
        exact hkept (h piece List.mem_cons_self (by simpa using hnot))
      rw [List.filter_cons_of_neg hkept, List.flatMap_cons, hrest, words_of_isBlankText hblank,
        List.nil_append]

theorem head?_of_startsWord {t : Text} (h : StartsWord t) : t.head? ≠ some (.char '\n') := by
  intro hc
  unfold StartsWord at h
  rw [hc] at h
  exact absurd h (by decide)

/-- A text survives with the line that it goes on. -/
theorem words_infix_cleaned {noise : List Text} {before t behind : Text}
    (hbefore : before = [] ∨ EndsBlank before) (ht : StartsWord t)
    (hbehind : behind = [] ∨ behind.head? = some (.char '\n'))
    (h : Survives noise (openLine before ++ t)) :
    words t <:+: words (cleaned noise (before ++ t ++ behind)) := by
  have hopen : openLine before = [] ∨ EndsBlank (openLine before) := by
    refine or_iff_not_imp_left.2 fun hne => ?_
    obtain ⟨front, hfront⟩ := openLine_suffix before
    have hends := hbefore.resolve_left fun hnil => by simp [hnil, openLine] at hne
    rw [← hfront] at hends
    exact (endsBlank_append hne).1 hends
  obtain ⟨front, hlines⟩ := exists_lines_append before (head?_of_startsWord (ht.append behind))
  obtain ⟨back, hback⟩ : ∃ back, lines (openLine before ++ t ++ behind) =
      lines (openLine before ++ t) ++ back := by
    rcases hbehind with rfl | hbehind
    · exact ⟨[], by rw [List.append_nil, List.append_nil]⟩
    · obtain ⟨rest, rfl⟩ := List.head?_eq_some_iff.1 hbehind
      obtain ⟨extra, _, hcut⟩ := lines_append_break (openLine before ++ t) rest
        (b := '\n') (by decide) nofun
      exact ⟨extra ++ lines rest, by rw [hcut, List.append_assoc]⟩
  rw [List.append_assoc, cleaned, hlines, ← List.append_assoc (openLine before), hback,
    words_eachLine, List.filter_append, List.filter_append, List.flatMap_append,
    List.flatMap_append, h.flatMap_words, words_append hopen ht]
  refine ⟨(front.filter (isKept noise)).flatMap words ++ words (openLine before),
    (back.filter (isKept noise)).flatMap words, ?_⟩
  simp only [List.append_assoc]

/-! ## Tokens of a line -/

theorem line_of_numbered {line : Int} {parts : List Text} {front back : List Token} {token : Token}
    (h : numbered line parts = front ++ token :: back) :
    token.line = line + newlines (written front) := by
  induction front generalizing line parts with
  | nil =>
    cases parts with
    | nil => simp [numbered] at h
    | cons part rest =>
      obtain ⟨rfl, _⟩ := List.cons.inj h
      simp [newlines, written_nil]
  | cons first more ih =>
    cases parts with
    | nil => simp [numbered] at h
    | cons part rest =>
      obtain ⟨rfl, hrest⟩ := List.cons.inj h
      rw [ih hrest, written_cons, newlines_append]
      push_cast
      omega

theorem written_tokens (t : Text) : written (tokens t) = trimLeft t := by
  rw [tokens_eq_tokensFrom, written_tokensFrom]

/-- The line of a token and those that end in the text behind. -/
theorem line_of_tokens {t : Text} {front back : List Token} {token : Token}
    (h : tokens t = front ++ token :: back) :
    token.line + newlines (token.text ++ written back) = 1 + newlines t := by
  have hwritten := written_tokens t
  rw [h, written_append, written_cons] at hwritten
  have hline := line_of_numbered h
  have hcount := congrArg newlines (leadingBlanks_append_trimLeft t)
  rw [← hwritten, newlines_append, newlines_append] at hcount
  omega

theorem not_isGap_of_startsWord {t : Text} (h : StartsWord t) : ¬ IsGap t := by
  intro hgap
  obtain ⟨c, rest, rfl⟩ := List.exists_cons_of_ne_nil h.ne_nil
  exact Bool.false_ne_true ((startsWord_cons.1 h).symm.trans (hgap c List.mem_cons_self))

section Line

variable {dump line pre post : Text} {n : Nat} {token : Token}

theorem newlines_front (h : Between dump line n pre post) :
    newlines (pre ++ leadingBlanks line) = n ∧ newlines (trimLeft line) = 0 := by
  have hparts := congrArg newlines (leadingBlanks_append_trimLeft line)
  rw [newlines_append, h.unbroken] at hparts
  rw [newlines_append, h.number]
  omega

/-- The text from the start of a token to the start of a later line ends the line
in front of that. -/
theorem suffix_of_token (h : Between dump line n pre post) {front back : List Token}
    (hsplit : tokens (pre ++ leadingBlanks line) = front ++ token :: back) :
    .char '\n' :: leadingBlanks line <:+ token.text ++ written back := by
  have hmem : token ∈ tokens (pre ++ leadingBlanks line) := by simp [hsplit]
  have hstart := (whole_of_mem_tokens hmem).startsWord.append (written back)
  have hsuffix : token.text ++ written back <:+ pre ++ leadingBlanks line := by
    have hwritten := written_tokens (pre ++ leadingBlanks line)
    rw [hsplit, written_append, written_cons] at hwritten
    have htrim : trimLeft (pre ++ leadingBlanks line) <:+ pre ++ leadingBlanks line :=
      List.dropWhile_suffix _
    exact (List.suffix_append (written front) _).trans (hwritten ▸ htrim)
  have hlead := isGap_leadingBlanks line
  rcases h.opens with rfl | hlast
  · exact absurd (fun c hc => hlead c (hsuffix.subset hc)) (not_isGap_of_startsWord hstart)
  · obtain ⟨above, rfl⟩ := List.getLast?_eq_some_iff.1 hlast
    have hend : .char '\n' :: leadingBlanks line <:+ above ++ [.char '\n'] ++ leadingBlanks line :=
      ⟨above, by simp⟩
    refine (List.suffix_or_suffix_of_suffix hsuffix hend).resolve_left fun hinside => ?_
    have hgap : IsGap (.char '\n' :: leadingBlanks line) := fun c hc =>
      (List.mem_cons.1 hc).elim (fun hc => by rw [hc]; decide) (hlead c)
    exact not_isGap_of_startsWord hstart fun c hc => hgap c (hinside.subset hc)

theorem line_lt_of_front (h : Between dump line n pre post)
    (hmem : token ∈ tokens (pre ++ leadingBlanks line)) : token.line < n + 1 := by
  obtain ⟨front, back, hsplit⟩ := List.append_of_mem hmem
  have hline := line_of_tokens hsplit
  have hnewline : 0 < newlines (token.text ++ written back) :=
    List.count_pos_iff.2 ((suffix_of_token h hsplit).subset List.mem_cons_self)
  rw [(newlines_front h).1] at hline
  omega

theorem line_eq_of_own (h : Between dump line n pre post) (hstart : StartsWord (trimLeft line))
    (hmem : token ∈ tokensFrom (n + 1) (trimLeft line ++ leadingBlanks post)) :
    token.line = n + 1 := by
  obtain ⟨front, back, hsplit⟩ := List.append_of_mem hmem
  have hwritten := written_tokensFrom (n + 1) (trimLeft line ++ leadingBlanks post)
  rw [hsplit, written_append, written_cons] at hwritten
  have hword := (whole_of_mem_tokensFrom (hstart.append _) hmem).startsWord.append (written back)
  -- a token does not start in the blanks behind the line
  have hinside : newlines (written front) ≤ newlines (trimLeft line) := by
    rcases List.append_eq_append_iff.1 hwritten with ⟨more, hfront, _⟩ | ⟨more, hfront, hblank⟩
    · rw [hfront, newlines_append]
      omega
    · refine absurd (fun c hc => isGap_leadingBlanks post c ?_) (not_isGap_of_startsWord hword)
      rw [hblank]
      exact List.mem_append_right _ hc
  have hline := line_of_numbered hsplit
  rw [(newlines_front h).2] at hinside
  omega

theorem lt_line_of_behind (h : Between dump line n pre post)
    (hmem : token ∈ tokensFrom (n + 1 + newlines (leadingBlanks post)) (trimLeft post)) :
    n + 1 < token.line := by
  obtain ⟨front, back, hsplit⟩ := List.append_of_mem hmem
  have hline := line_of_numbered hsplit
  have hpost := h.closes.resolve_left fun hnil => by
    rw [hnil] at hmem
    cases hmem
  obtain ⟨rest, rfl⟩ := List.head?_eq_some_iff.1 hpost
  have hnewline : 0 < newlines (leadingBlanks (.char '\n' :: rest)) :=
    List.count_pos_iff.2 (by simp [leadingBlanks, isBlank])
  omega

theorem eq_front_append (h : Between dump line n pre post) :
    dump = pre ++ leadingBlanks line ++ (trimLeft line ++ post) := by
  rw [List.append_assoc, ← List.append_assoc (leadingBlanks line), leadingBlanks_append_trimLeft,
    h.split, List.append_assoc]

theorem front_endsBlank (h : Between dump line n pre post) :
    pre ++ leadingBlanks line = [] ∨ EndsBlank (pre ++ leadingBlanks line) := by
  by_cases hlead : leadingBlanks line = []
  · rw [hlead, List.append_nil]
    exact h.opens.imp id endsBlank_of_newline
  · exact .inr ((endsBlank_of_isGap hlead (isGap_leadingBlanks line)).append pre)

/-- The tokens of a dump in front of a line, on it and behind it. -/
theorem tokens_between (h : Between dump line n pre post) (hstart : StartsWord (trimLeft line)) :
    tokens dump = tokens (pre ++ leadingBlanks line) ++
      (tokensFrom (n + 1) (trimLeft line ++ leadingBlanks post) ++
        tokensFrom (n + 1 + newlines (leadingBlanks post)) (trimLeft post)) := by
  have hshape : dump = pre ++ leadingBlanks line ++
      (trimLeft line ++ leadingBlanks post ++ trimLeft post) := by
    rw [List.append_assoc (trimLeft line), leadingBlanks_append_trimLeft, eq_front_append h]
  have hown := hstart.append (leadingBlanks post)
  rw [hshape, tokens_append (front_endsBlank h) (hown.append _), (newlines_front h).1, Int.add_comm]
  congr 1
  rcases trimLeft_eq_nil_or_startsWord post with hnil | hrest
  · rw [hnil, tokensFrom_nil, List.append_nil, List.append_nil]
  · have hpost := h.closes.resolve_left fun hnil => by
      rw [hnil] at hrest
      exact hrest.ne_nil rfl
    obtain ⟨below, hbelow⟩ := List.head?_eq_some_iff.1 hpost
    have hgap : leadingBlanks post ≠ [] := by simp [hbelow, leadingBlanks, isBlank]
    rw [tokensFrom_append _ ((endsBlank_of_isGap hgap (isGap_leadingBlanks post)).append _) hrest,
      newlines_append, (newlines_front h).2, Nat.zero_add]

end Line

/-! ## Residual tokens -/

namespace Segment

/-- The tokens of a segment that stay in the residual. -/
def spared : Segment → List Token
  | residual tokens => tokens
  | statement .. => []

/-- The tokens of a segment that belong to its statement. -/
def taken : Segment → List Token
  | residual _ => []
  | statement create header inner last _ => create :: header ++ inner ++ [last]

theorem residue_eq (segment : Segment) : segment.residue = written segment.spared := by
  cases segment <;> rfl

theorem spared_sublist (segment : Segment) : segment.spared.Sublist segment.tokens := by
  cases segment with
  | residual tokens => exact .refl tokens
  | statement _ _ _ _ _ => exact List.nil_sublist _

end Segment

theorem flatMap_residue (segments : List Segment) :
    segments.flatMap Segment.residue = written (segments.flatMap Segment.spared) := by
  induction segments with
  | nil => rfl
  | cons segment rest ih =>
    rw [List.flatMap_cons, List.flatMap_cons, written_append, ih, segment.residue_eq]

theorem flatMap_spared_sublist (segments : List Segment) :
    (segments.flatMap Segment.spared).Sublist (segments.flatMap Segment.tokens) := by
  induction segments with
  | nil => exact .refl []
  | cons segment rest ih => exact segment.spared_sublist.append ih

/-- Of tokens that no statement takes all are residual. -/
theorem filter_flatMap_spared {segments : List Segment} {p : Token → Bool}
    (h : ∀ token ∈ segments.flatMap Segment.taken, p token = false) :
    (segments.flatMap Segment.spared).filter p = (segments.flatMap Segment.tokens).filter p := by
  induction segments with
  | nil => rfl
  | cons segment rest ih =>
    rw [List.flatMap_cons, List.flatMap_cons, List.filter_append, List.filter_append,
      ih fun token htoken => h token (List.mem_append_right _ htoken)]
    cases segment with
    | residual tokens => rfl
    | statement create header inner last s =>
      have hnone : (create :: header ++ inner ++ [last]).filter p = [] :=
        List.filter_eq_nil_iff.2 fun token htoken =>
          Bool.not_eq_true _ ▸ h token (List.mem_append_left _ htoken)
      exact congrArg (· ++ _) hnone.symm

/-- What of a dump in front of a line is residual. -/
def residueBefore (dump : Text) (segments : List Segment) (line : Int) : Text :=
  leadingBlanks dump ++ written ((segments.flatMap Segment.spared).filter (·.line < line))

theorem filter_eq_nil_of_forall {α : Type} {p : α → Bool} {l : List α}
    (h : ∀ x ∈ l, p x = false) : l.filter p = [] :=
  List.filter_eq_nil_iff.2 fun x hx => Bool.not_eq_true _ ▸ h x hx

theorem endsBlank_of_mem_tokens {t : Text} {token : Token} (ht : EndsBlank t)
    (h : token ∈ tokens t) : EndsBlank token.text := by
  rw [tokens_eq_tokensFrom] at h
  refine endsBlank_of_mem_tokensFrom ?_ h
  rcases trimLeft_eq_nil_or_startsWord t with hnil | hstart
  · rw [hnil] at h
    cases h
  · rw [← leadingBlanks_append_trimLeft t] at ht
    exact (endsBlank_append hstart.ne_nil).1 ht

section Residue

variable {dump line pre post : Text} {n : Nat} {noise : List Text} {s : Split}
  {segments : List Segment}

/-- The lines of tokens tell where in the dump they are. -/
theorem filter_line (hline : Between dump line n pre post) (hstart : StartsWord (trimLeft line))
    {front own behind : List Token} (hfront : front ⊆ tokens (pre ++ leadingBlanks line))
    (hown : own ⊆ tokensFrom (n + 1) (trimLeft line ++ leadingBlanks post))
    (hbehind : behind ⊆ tokensFrom (n + 1 + newlines (leadingBlanks post)) (trimLeft post)) :
    (front ++ (own ++ behind)).filter (·.line < (n + 1 : Int)) = front ∧
      (front ++ (own ++ behind)).filter (·.line = (n + 1 : Int)) = own := by
  have hbefore : ∀ token ∈ front, token.line < n + 1 := fun token htoken =>
    line_lt_of_front hline (hfront htoken)
  have hon : ∀ token ∈ own, token.line = n + 1 := fun token htoken =>
    line_eq_of_own hline hstart (hown htoken)
  have hafter : ∀ token ∈ behind, n + 1 < token.line := fun token htoken =>
    lt_line_of_behind hline (hbehind htoken)
  constructor
  · rw [List.filter_append, List.filter_append,
      List.filter_eq_self.2 fun token htoken => decide_eq_true (hbefore token htoken),
      filter_eq_nil_of_forall fun token htoken => decide_eq_false (by simp [hon token htoken]),
      filter_eq_nil_of_forall fun token htoken =>
        decide_eq_false (Int.not_lt.2 (Int.le_of_lt (hafter token htoken))),
      List.append_nil, List.append_nil]
  · rw [List.filter_append, List.filter_append,
      filter_eq_nil_of_forall fun token htoken =>
        decide_eq_false (Int.ne_of_lt (hbefore token htoken)),
      List.filter_eq_self.2 fun token htoken => decide_eq_true (hon token htoken),
      filter_eq_nil_of_forall fun token htoken =>
        decide_eq_false (Int.ne_of_gt (hafter token htoken)),
      List.append_nil, List.nil_append]

/-- The residual tokens in front of a line, on it and behind it. -/
theorem exists_spared_parts (h : Segmentation dump noise s segments)
    (hline : Between dump line n pre post) (hstart : StartsWord (trimLeft line)) :
    ∃ own behind,
      segments.flatMap Segment.spared =
        (segments.flatMap Segment.spared).filter (·.line < (n + 1 : Int)) ++ (own ++ behind) ∧
      ((segments.flatMap Segment.spared).filter (·.line < (n + 1 : Int))).Sublist
        (tokens (pre ++ leadingBlanks line)) ∧
      (segments.flatMap Segment.spared).filter (·.line = (n + 1 : Int)) = own ∧
      behind.Sublist
        (tokensFrom (n + 1 + newlines (leadingBlanks post)) (trimLeft post)) := by
  have hsub := flatMap_spared_sublist segments
  rw [h.tokens, tokens_between hline hstart] at hsub
  obtain ⟨front, more, hsplit, hfront, hmore⟩ := List.sublist_append_iff.1 hsub
  obtain ⟨own, behind, rfl, hown, hbehind⟩ := List.sublist_append_iff.1 hmore
  obtain ⟨hbefore, hon⟩ := filter_line hline hstart hfront.subset hown.subset hbehind.subset
  rw [← hsplit] at hbefore hon
  exact ⟨own, behind, by rw [hbefore]; exact hsplit, by rwa [hbefore], hon, hbehind⟩

theorem residueBefore_endsBlank (h : Segmentation dump noise s segments)
    (hline : Between dump line n pre post) (hstart : StartsWord (trimLeft line)) :
    residueBefore dump segments (n + 1) = [] ∨
      EndsBlank (residueBefore dump segments (n + 1)) := by
  obtain ⟨_, _, _, hsub, _⟩ := exists_spared_parts h hline hstart
  unfold residueBefore
  rcases List.eq_nil_or_concat
    ((segments.flatMap Segment.spared).filter (·.line < (n + 1 : Int))) with
    hnil | ⟨more, last, hlast⟩
  · rw [hnil, written_nil, List.append_nil]
    exact or_iff_not_imp_left.2 fun hne => endsBlank_of_isGap hne (isGap_leadingBlanks dump)
  · have hmem : last ∈ tokens (pre ++ leadingBlanks line) := by
      refine hsub.subset ?_
      rw [hlast, List.concat_eq_append]
      exact List.mem_append_right _ (List.mem_singleton_self last)
    have hends := endsBlank_of_mem_tokens ((front_endsBlank hline).resolve_left fun hnil => by
      rw [hnil] at hmem
      cases hmem) hmem
    rw [hlast, List.concat_eq_append, written_append, written_cons, written_nil, List.append_nil,
      ← List.append_assoc]
    exact .inr (hends.append _)

/-- The residual of a dump in front of a line without a token of a statement, on it
and behind it. -/
theorem exists_residue_behind (h : Segmentation dump noise s segments)
    (hline : Between dump line n pre post) (hstart : StartsWord (trimLeft line))
    (hfree : ∀ token ∈ segments.flatMap Segment.taken, token.line ≠ n + 1) :
    ∃ behind, (behind = [] ∨ behind.head? = some (.char '\n')) ∧
      leadingBlanks dump ++ segments.flatMap Segment.residue =
        residueBefore dump segments (n + 1) ++ trimLeft line ++ behind := by
  obtain ⟨own, behind, hsplit, _, hown, hbehind⟩ := exists_spared_parts h hline hstart
  have hall : own = tokensFrom (n + 1) (trimLeft line ++ leadingBlanks post) := by
    have hon := filter_flatMap_spared (p := (·.line = (n + 1 : Int)))
      fun token htoken => decide_eq_false (hfree token htoken)
    rw [hown, h.tokens, tokens_between hline hstart] at hon
    exact hon.trans
      (filter_line hline hstart (List.Subset.refl _) (List.Subset.refl _) (List.Subset.refl _)).2
  refine ⟨leadingBlanks post ++ written behind, ?_, ?_⟩
  · refine hline.closes.imp (fun hnil => ?_) fun hhead => ?_
    · subst hnil
      rw [List.eq_nil_of_sublist_nil hbehind]
      rfl
    · obtain ⟨rest, rfl⟩ := List.head?_eq_some_iff.1 hhead
      simp [leadingBlanks, isBlank]
  · rw [flatMap_residue, hsplit, written_append, written_append, hall, written_tokensFrom,
      residueBefore]
    simp only [List.append_assoc]

/-- Without a token in front of the line, only blanks are there. -/
theorem openLine_of_no_token (hline : Between dump line n pre post)
    (hstart : StartsWord (trimLeft line)) (hnil : tokens (pre ++ leadingBlanks line) = []) :
    openLine (leadingBlanks dump) = openLine (leadingBlanks line) := by
  have hblank : trimLeft (pre ++ leadingBlanks line) = [] := by
    rw [← written_tokens, hnil, written_nil]
  have hlead : leadingBlanks dump = pre ++ leadingBlanks line := by
    rw [eq_front_append hline, leadingBlanks_append (hstart.append post)]
    conv_rhs => rw [← leadingBlanks_append_trimLeft (pre ++ leadingBlanks line)]
    rw [hblank, List.append_nil]
  rw [hlead]
  rcases hline.opens with rfl | hpre
  · rw [List.nil_append]
  · obtain ⟨above, rfl⟩ := List.getLast?_eq_some_iff.1 hpre
    rw [List.append_assoc]
    exact openLine_append_break (by decide)

/-- A token that reaches a line is residual if no statement reaches it. -/
theorem mem_spared_of_reaches (h : Segmentation dump noise s segments) {number : Int}
    (hreach : ∀ token ∈ segments.flatMap Segment.taken,
      token.line + newlines token.text ≠ number) {token : Token} (hmem : token ∈ tokens dump)
    (htoken : token.line + newlines token.text = number) :
    token ∈ segments.flatMap Segment.spared := by
  have hsame := filter_flatMap_spared
    (p := fun token => token.line + newlines token.text = number)
    fun token htaken => decide_eq_false (hreach token htaken)
  have hreaching : token ∈ (segments.flatMap Segment.tokens).filter
      fun token => token.line + newlines token.text = number := by
    rw [h.tokens]
    exact List.mem_filter.2 ⟨hmem, decide_eq_true htoken⟩
  rw [← hsame] at hreaching
  exact (List.mem_filter.1 hreaching).1

/-- Of the tokens in front of the line only the last reaches it. -/
theorem notMem_of_line (hline : Between dump line n pre post) {more : List Token} {last : Token}
    (hlast : tokens (pre ++ leadingBlanks line) = more ++ [last]) (hbreak : 0 < newlines last.text)
    (hnumber : last.line + newlines last.text = n + 1) : last ∉ more := by
  intro hmem
  obtain ⟨above, between, rfl⟩ := List.append_of_mem hmem
  rw [List.append_assoc, List.cons_append] at hlast
  have hearlier := line_of_tokens hlast
  rw [(newlines_front hline).1, newlines_append, written_append, newlines_append, written_cons,
    newlines_append] at hearlier
  omega

/-- Where no statement reaches the line, the residual in front of it ends as the dump
does. -/
theorem openLine_residueBefore (h : Segmentation dump noise s segments)
    (hline : Between dump line n pre post) (hstart : StartsWord (trimLeft line))
    (hreach : ∀ token ∈ segments.flatMap Segment.taken,
      token.line + newlines token.text ≠ n + 1) :
    openLine (residueBefore dump segments (n + 1)) = openLine (leadingBlanks line) := by
  obtain ⟨_, _, _, hsub, _⟩ := exists_spared_parts h hline hstart
  rcases List.eq_nil_or_concat' (tokens (pre ++ leadingBlanks line)) with hnil | ⟨more, last, hlast⟩
  · rw [hnil] at hsub
    rw [residueBefore, List.eq_nil_of_sublist_nil hsub, written_nil, List.append_nil]
    exact openLine_of_no_token hline hstart hnil
  · have hend := suffix_of_token hline hlast
    have hnumber := line_of_tokens hlast
    rw [written_nil, List.append_nil] at hend hnumber
    rw [(newlines_front hline).1, Int.add_comm 1] at hnumber
    have hbreak : 0 < newlines last.text := List.count_pos_iff.2 (hend.subset List.mem_cons_self)
    have hspared : last ∈ (segments.flatMap Segment.spared).filter (·.line < (n + 1 : Int)) := by
      have hmem : last ∈ tokens dump := by
        rw [tokens_between hline hstart, hlast]
        simp
      exact List.mem_filter.2
        ⟨mem_spared_of_reaches h hreach hmem hnumber, decide_eq_true (by omega)⟩
    rw [hlast] at hsub
    obtain ⟨front, back, hsplit, hfront, hback⟩ := List.sublist_append_iff.1 hsub
    rcases List.sublist_singleton.1 hback with rfl | rfl
    · rw [hsplit, List.append_nil] at hspared
      exact absurd (hfront.subset hspared) (notMem_of_line hline hlast hbreak hnumber)
    · obtain ⟨word, hword⟩ := hend
      rw [residueBefore, hsplit, written_append, written_cons, written_nil,
        List.append_nil, ← hword,
        ← List.append_assoc, ← List.append_assoc]
      exact openLine_append_break (by decide)

end Residue

/-- The words of a line without a token of a statement are in the bootstrap migration
if cleaning keeps the line as the residual has it.  Where no statement reaches the
line, it is enough that cleaning keeps the line itself. -/
theorem words_infix_bootstrap {dump : Text} {noise : List Text} {s : Split}
    {segments : List Segment} (h : Segmentation dump noise s segments) {n : Nat} {line : Text}
    (hline : (splitOn '\n' dump)[n]? = some line)
    (hfree : ∀ token ∈ segments.flatMap Segment.taken, token.line ≠ n + 1) :
    (Survives noise (openLine (residueBefore dump segments (n + 1)) ++ trimLeft line) →
      words line <:+: words s.bootstrap) ∧
    ((∀ token ∈ segments.flatMap Segment.taken, token.line + newlines token.text ≠ n + 1) →
      Survives noise line → words line <:+: words s.bootstrap) := by
  obtain ⟨pre, post, hbetween⟩ := exists_between hline
  have hwords : words line = words (trimLeft line) := by
    conv_lhs => rw [← leadingBlanks_append_trimLeft line]
    exact words_gap_append (isGap_leadingBlanks line) _
  rcases trimLeft_eq_nil_or_startsWord line with hnil | hstart
  · have hnone : words line = [] := by rw [hwords, hnil]; rfl
    rw [hnone]
    exact ⟨fun _ => List.nil_infix, fun _ _ => List.nil_infix⟩
  have hjoined : Survives noise (openLine (residueBefore dump segments (n + 1)) ++ trimLeft line) →
      words line <:+: words s.bootstrap := fun hkept => by
    obtain ⟨behind, hbehind, hresidue⟩ := exists_residue_behind h hbetween hstart hfree
    rw [hwords, h.bootstrap, hresidue]
    exact words_infix_cleaned (residueBefore_endsBlank h hbetween hstart) hstart hbehind hkept
  refine ⟨hjoined, fun hreach hkept => hjoined ?_⟩
  rw [openLine_residueBefore h hbetween hstart hreach]
  obtain ⟨front, hlines⟩ := exists_lines_append (leadingBlanks line) (head?_of_startsWord hstart)
  rw [leadingBlanks_append_trimLeft] at hlines
  intro piece hpiece
  exact hkept piece (hlines ▸ List.mem_append_right _ hpiece)

/-! ## A view between residual text -/

def oneView : Statement :=
  ⟨.view, [.char 'v'], viewOpening ++ "v AS SELECT 1;\n".text, 1⟩

def oneViewSegment : Segment :=
  .statement ⟨"CREATE ".text, 1⟩ [⟨"VIEW ".text, 1⟩] (tokensFrom 1 "v AS SELECT ".text)
    ⟨"1;\n".text, 1⟩ oneView

/-- The capture in front of the last token. -/
def oneViewCapture : Capture :=
  ⟨.view, 1, viewOpening ++ "v AS SELECT ".text, .terminator, "v".text, []⟩

theorem segmentation_oneView (dump bootstrap : Text) (front back : List Token) (residual : Text)
    (htokens : tokens dump = front ++ (oneViewSegment.tokens ++ back))
    (hseparate : separate dump =
      .ok ([oneView], leadingBlanks dump ++ (written front ++ written back)))
    (hbootstrap : bootstrap = cleaned [] (leadingBlanks dump ++ (written front ++ written back)))
    (hscan : Progress.scan {} (front ++ (⟨"CREATE ".text, 1⟩ :: [⟨"VIEW ".text, 1⟩] ++
      tokensFrom 1 "v AS SELECT ".text)) = .ok ⟨.capturing oneViewCapture, residual, []⟩) :
    Segmentation dump [] ⟨[oneView], bootstrap⟩
      [.residual front, oneViewSegment, .residual back] := by
  have hencloses : Segment.Encloses ⟨"CREATE ".text, 1⟩ [⟨"VIEW ".text, 1⟩]
      (tokensFrom 1 "v AS SELECT ".text) ⟨"1;\n".text, 1⟩ oneView :=
    ⟨by decide, ⟨⟨["VIEW".text], .view, viewOpening⟩, by simp [headers], by decide,
      by decide +kernel, .inl rfl⟩, rfl, by decide, ⟨" AS SELECT 1;\n".text, by decide +kernel⟩,
      List.forall_mem_singleton.2 (by decide), by decide⟩
  have hstep : step (.capturing oneViewCapture) ⟨"1;\n".text, 1⟩ =
      .ok ⟨.scanning, [], some oneView⟩ := by decide +kernel
  exact segmentation_of_one [front] [back] (by simpa [oneViewSegment, Segment.tokens] using htokens)
    (by simpa using hseparate) (by simpa using hbootstrap) hencloses
    (by rwa [List.flatten_singleton]) rfl hstep

/-- The line behind the statement goes on the line in front of it, and the last line
stands by itself. -/
theorem words_infix_bootstrap_joined :
    Segmentation "SET a; CREATE VIEW v AS SELECT 1;\nSET x = 1;\nSET y;\n".text []
        ⟨[oneView], "SET a; SET x = 1;\nSET y;\n".text⟩
        [.residual (tokensFrom 1 "SET a; ".text), oneViewSegment,
          .residual (tokensFrom 2 "SET x = 1;\nSET y;\n".text)] ∧
      words "SET x = 1;".text <:+: words "SET a; SET x = 1;\nSET y;\n".text ∧
      words "SET y;".text <:+: words "SET a; SET x = 1;\nSET y;\n".text := by
  have hseg := segmentation_oneView "SET a; CREATE VIEW v AS SELECT 1;\nSET x = 1;\nSET y;\n".text
    "SET a; SET x = 1;\nSET y;\n".text (tokensFrom 1 "SET a; ".text)
    (tokensFrom 2 "SET x = 1;\nSET y;\n".text) "SET a; ".text (by decide +kernel)
    (by decide +kernel) (by decide +kernel) (by decide +kernel)
  refine ⟨hseg, ?_, ?_⟩
  · exact (words_infix_bootstrap hseg (n := 1) (by decide +kernel) (by decide +kernel)).1
      (by decide +kernel)
  · exact (words_infix_bootstrap hseg (n := 2) (by decide +kernel) (by decide +kernel)).2
      (by decide +kernel) (by decide +kernel)

/-- Behind a statement in a comment, the line goes on the comment and is lost with it. -/
theorem lost_behind_comment :
    Segmentation "-- CREATE VIEW v AS SELECT 1;\nSET x = 1;\n".text [] ⟨[oneView], []⟩
        [.residual (tokensFrom 1 "-- ".text), oneViewSegment,
          .residual (tokensFrom 2 "SET x = 1;\n".text)] ∧
      (splitOn '\n' "-- CREATE VIEW v AS SELECT 1;\nSET x = 1;\n".text)[1]? =
        some "SET x = 1;".text ∧
      (∀ token ∈ oneViewSegment.tokens, token.line ≠ 2) ∧
      isKept [] "SET x = 1;".text = true ∧
      ¬ words "SET x = 1;".text <:+: words [] := by
  refine ⟨?_, by decide +kernel, by decide +kernel, by decide +kernel, by decide +kernel⟩
  exact segmentation_oneView _ _ (tokensFrom 1 "-- ".text) (tokensFrom 2 "SET x = 1;\n".text)
    "-- ".text (by decide +kernel) (by decide +kernel) (by decide +kernel) (by decide +kernel)

end Dump
end SchemaLedger
