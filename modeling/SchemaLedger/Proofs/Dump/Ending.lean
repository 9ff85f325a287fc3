import SchemaLedger.Proofs.Dump.Origin
import SchemaLedger.Proofs.Dump.Segment
import SchemaLedger.Proofs.Dump.WellFormed

/-!
# Where a function ends

A function without a quoted or atomic body has to end at its first semicolon, or
it takes the next statement with it.  The scan looks for that semicolon only
behind the return type: from there on the first one ends the function, and in
front of it none does.

The tokens of a capture are followed move by move from the header on.  What they
are is said phase by phase (`Reaches`), and the move that completes the function
turns it into the shape of the whole statement.
-/

namespace SchemaLedger

namespace Dump

open Text

/-! ## What a function has taken in -/

/-- A token that opens the body of a function behind the tokens in front of it:
a dollar quote, or the `ATOMIC` of a `BEGIN ATOMIC`. -/
def Opens (before : List Token) (token : Token) : Prop :=
  StartsWithQuote token.word ∨
    token.keyword = "ATOMIC".text ∧ before.getLast?.map Token.keyword = some "BEGIN".text

instance (before : List Token) (token : Token) : Decidable (Opens before token) :=
  inferInstanceAs (Decidable (_ ∨ _))

/-- Some token of the row opens a body. -/
def OpensWithin (tokens : List Token) : Prop :=
  ∃ front token back, tokens = front ++ token :: back ∧ Opens front token

/-- The head of a function from its name to its return type. -/
structure Heading where
  name : Token
  signature : List Token
  returns : Token
  type : Token
  plain : ∀ token ∈ signature, token.keyword ≠ "RETURNS".text
  isReturns : returns.keyword = "RETURNS".text

def Heading.tokens (h : Heading) : List Token :=
  h.name :: (h.signature ++ [h.returns, h.type])

/-- Tokens behind a heading of which none ends the function and none opens its
body. -/
def Heading.Clauses (h : Heading) (clauses : List Token) : Prop :=
  ∀ front token back, clauses = front ++ token :: back →
    endsStatement token.word = false ∧ ¬ Opens (h.tokens ++ front) token

/-- Tokens that reach up to the opening of a body and beyond. -/
def BodyOpened (tokens : List Token) : Prop :=
  ∃ (h : Heading) (clauses : List Token) (opening : Token) (more : List Token),
    tokens = h.tokens ++ clauses ++ opening :: more ∧ h.Clauses clauses ∧
      Opens (h.tokens ++ clauses) opening

/-- What a function has taken in when it is in a phase. -/
def Reaches : Phase → List Token → Prop
  | .name, tokens => tokens = []
  | .returns, tokens => ∃ name signature, tokens = name :: signature ∧
      ∀ token ∈ signature, token.keyword ≠ "RETURNS".text
  | .returnType, tokens => ∃ name signature returns, tokens = name :: (signature ++ [returns]) ∧
      (∀ token ∈ signature, token.keyword ≠ "RETURNS".text) ∧ returns.keyword = "RETURNS".text
  | .delimiter, tokens => ∃ (h : Heading) (clauses : List Token),
      tokens = h.tokens ++ clauses ∧ h.Clauses clauses
  | .body, tokens | .atomicBody, tokens | .terminator, tokens => BodyOpened tokens

theorem BodyOpened.snoc {tokens : List Token} (h : BodyOpened tokens) (token : Token) :
    BodyOpened (tokens ++ [token]) := by
  obtain ⟨heading, clauses, opening, more, rfl, hclauses, hopens⟩ := h
  exact ⟨heading, clauses, opening, more ++ [token], by simp, hclauses, hopens⟩

theorem Heading.Clauses.snoc {h : Heading} {clauses : List Token} {token : Token}
    (hclauses : h.Clauses clauses) (hopen : endsStatement token.word = false)
    (hplain : ¬ Opens (h.tokens ++ clauses) token) : h.Clauses (clauses ++ [token]) := by
  intro front next back hsplit
  rcases List.eq_nil_or_concat' back with rfl | ⟨inside, last, rfl⟩
  · obtain ⟨rfl, hlast⟩ := List.append_inj' hsplit rfl
    cases hlast
    exact ⟨hopen, hplain⟩
  · rw [← List.cons_append, ← List.append_assoc] at hsplit
    exact hclauses front next inside (List.append_inj' hsplit rfl).1

/-- Behind clauses a token opens the body exactly when the scan takes it so. -/
theorem opens_iff {t : Text} {before : List Token} {token : Token} (ht : EndsBlank t)
    (hbefore : ∀ token ∈ before, token.Whole ∧ EndsBlank token.text) (hne : before ≠ []) :
    Opens before token ↔ dollarTag? token.word ≠ none ∨
      token.keyword = "ATOMIC".text ∧
        Capture.followsBegin (t ++ written before) = .ok true := by
  obtain ⟨last, hlast⟩ : ∃ last, before.getLast? = some last :=
    ⟨_, List.getLast?_eq_getLast_of_ne_nil hne⟩
  rw [Progress.followsBegin_append_written (.inr ht) hbefore hlast, Opens, hlast, ne_eq,
    dollarTag?_eq_none_iff, Classical.not_not]
  simp

section Step

variable {c after : Capture} {token : Token} {closes : Bool} {t : Text} {tokens : List Token}

/-- A clause that the scan does not take for an opening is none. -/
theorem not_opens_of_clause {h : Heading} {clauses : List Token} (ht : EndsBlank t)
    (htext : c.text = t ++ written (h.tokens ++ clauses))
    (htokens : ∀ token ∈ h.tokens ++ clauses, token.Whole ∧ EndsBlank token.text)
    (htag : dollarTag? token.word = none)
    (hword : token.keyword = "ATOMIC".text → Capture.followsBegin c.text = .ok false) :
    ¬ Opens (h.tokens ++ clauses) token := by
  have hne : h.tokens ++ clauses ≠ [] := by simp [Heading.tokens]
  rw [opens_iff ht htokens hne]
  rintro (hquote | ⟨hatomic, hbegin⟩)
  · exact hquote htag
  · rw [← htext, hword hatomic] at hbegin
    cases hbegin

/-- What a function has taken in, with one more token that does not complete
it. -/
theorem Reaches.next (h : Reaches c.phase tokens) (hkind : c.phase = .name → c.kind = .function)
    (ht : EndsBlank t) (htext : c.text = t ++ written tokens)
    (htokens : ∀ token ∈ tokens, token.Whole ∧ EndsBlank token.text)
    (hmove : c.Moves token after closes)
    (hopen : closes = true → endsStatement token.word = false) :
    Reaches after.phase (tokens ++ [token]) := by
  cases hmove with
  | functionName hphase _ _ =>
    rw [hphase] at h
    obtain rfl : tokens = [] := h
    exact ⟨token, [], rfl, nofun⟩
  | otherName hphase _ hother => exact absurd (hkind hphase) hother
  | signature hphase hword =>
    show Reaches c.phase _
    rw [hphase] at h ⊢
    obtain ⟨name, signature, rfl, hplain⟩ := h
    refine ⟨name, signature ++ [token], rfl, fun u hu => ?_⟩
    rcases List.mem_append.1 hu with hu | hu
    · exact hplain u hu
    · rwa [List.mem_singleton.1 hu]
  | returns hphase hword =>
    rw [hphase] at h
    obtain ⟨name, signature, rfl, hplain⟩ := h
    exact ⟨name, signature, token, rfl, hplain, hword⟩
  | trigger hphase _ | type hphase _ =>
    rw [hphase] at h
    obtain ⟨name, signature, returns, rfl, hplain, hreturns⟩ := h
    exact ⟨⟨name, signature, returns, token, hplain, hreturns⟩, [], by simp [Heading.tokens],
      fun front next back hsplit => by simp at hsplit⟩
  | opens tag hphase htag _ | quotes tag hphase htag _ =>
    rw [hphase] at h
    obtain ⟨heading, clauses, rfl, hclauses⟩ := h
    have hquote : StartsWithQuote token.word := by
      by_contra hplain
      rw [dollarTag?_eq_none_iff.2 hplain] at htag
      cases htag
    exact ⟨heading, clauses, token, [], rfl, hclauses, .inl hquote⟩
  | atomic hphase _ hword hbegin =>
    rw [hphase] at h
    obtain ⟨heading, clauses, rfl, hclauses⟩ := h
    rw [htext] at hbegin
    have hne : heading.tokens ++ clauses ≠ [] := by simp [Heading.tokens]
    exact ⟨heading, clauses, token, [], rfl, hclauses,
      (opens_iff ht htokens hne).2 (.inr ⟨hword, hbegin⟩)⟩
  | clause hphase htag hword =>
    show Reaches c.phase _
    rw [hphase] at h ⊢
    obtain ⟨heading, clauses, rfl, hclauses⟩ := h
    have hplain := not_opens_of_clause ht htext htokens htag hword
    exact ⟨heading, clauses ++ [token], by simp, hclauses.snoc (hopen rfl) hplain⟩
  | insideAtomic hphase _ | insideBody hphase _ | behind hphase =>
    show Reaches c.phase _
    rw [hphase] at h ⊢
    exact BodyOpened.snoc h token
  | endsAtomic hphase _ | endsBody hphase _ =>
    rw [hphase] at h
    exact BodyOpened.snoc h token

/-- The token that completes a function is the first to end it behind the clauses,
or the body has been opened. -/
theorem Reaches.close (h : Reaches c.phase tokens) (hkind : c.phase = .name → c.kind = .function)
    (hmove : c.Moves token after true) :
    BodyOpened (tokens ++ [token]) ∨
      ∃ (heading : Heading) (clauses : List Token),
        tokens = heading.tokens ++ clauses ∧ heading.Clauses clauses := by
  cases hmove with
  | otherName hphase _ hother => exact absurd (hkind hphase) hother
  | quotes tag hphase _ _ | clause hphase _ _ =>
    rw [hphase] at h
    exact .inr h
  | endsAtomic hphase _ | endsBody hphase _ | behind hphase =>
    rw [hphase] at h
    exact .inl (BodyOpened.snoc h token)

/-- Along the way from its header a function takes in what its phase tells. -/
theorem reaches_of_path {first : Capture} (hphase : first.phase = .name)
    (hkind : first.kind = .function) (ht : EndsBlank first.text) (h : Capture.Path first tokens c)
    (htokens : ∀ token ∈ tokens, token.Whole ∧ EndsBlank token.text) :
    Reaches c.phase tokens ∧ (c.phase = .name → c.kind = .function) := by
  induction h with
  | start =>
    rw [hphase]
    exact ⟨rfl, fun _ => hkind⟩
  | next hpath hmove hopen ih =>
    have hearlier := fun u hu => htokens u (List.mem_append_left _ hu)
    obtain ⟨hreaches, hname⟩ := ih hearlier
    exact ⟨hreaches.next hname ht hpath.text hearlier hmove hopen,
      fun h => absurd h hmove.phase_ne_name⟩

end Step

/-! ## Functions of a dump -/

/-- A token that ends in a semicolon comes with or behind the opening of a body. -/
def NoEarlyEnd (tokens : List Token) : Prop :=
  ∀ front token back, tokens = front ++ token :: back → endsStatement token.word = true →
    OpensWithin (front ++ [token])

theorem OpensWithin.append {tokens : List Token} (h : OpensWithin tokens) (more : List Token) :
    OpensWithin (tokens ++ more) := by
  obtain ⟨front, token, back, rfl, hopens⟩ := h
  exact ⟨front, token, back ++ more, by simp, hopens⟩

theorem not_opensWithin {tokens : List Token}
    (h : ∀ token ∈ tokens, ¬ StartsWithQuote token.word ∧ token.keyword ≠ "ATOMIC".text) :
    ¬ OpensWithin tokens := by
  rintro ⟨front, token, back, rfl, hquote | ⟨hatomic, _⟩⟩
  · exact (h token (by simp)).1 hquote
  · exact (h token (by simp)).2 hatomic

theorem noEarlyEnd_of_open {tokens : List Token}
    (h : ∀ token ∈ tokens, endsStatement token.word = false) : NoEarlyEnd tokens := by
  rintro front token back rfl hends
  rw [h token (by simp)] at hends
  cases hends

/-- Only the tokens in front of the last one count. -/
theorem BodyOpened.of_snoc {tokens : List Token} {last : Token}
    (h : BodyOpened (tokens ++ [last])) :
    BodyOpened tokens ∨ ∃ (heading : Heading) (clauses : List Token),
      tokens = heading.tokens ++ clauses ∧ heading.Clauses clauses := by
  obtain ⟨heading, clauses, opening, more, hsplit, hclauses, hopens⟩ := h
  rcases List.eq_nil_or_concat' more with rfl | ⟨inside, final, rfl⟩
  · exact .inr ⟨heading, clauses, (List.append_inj' hsplit rfl).1, hclauses⟩
  · rw [← List.cons_append, ← List.append_assoc] at hsplit
    exact .inl ⟨heading, clauses, opening, inside, (List.append_inj' hsplit rfl).1, hclauses,
      hopens⟩

/-- Behind the heading the first semicolon ends a function. -/
theorem exists_heading {tokens : List Token} (h : BodyOpened tokens ∨
    ∃ (heading : Heading) (clauses : List Token),
      tokens = heading.tokens ++ clauses ∧ heading.Clauses clauses) :
    ∃ (heading : Heading) (behind : List Token), tokens = heading.tokens ++ behind ∧
      ∀ front token back, behind = front ++ token :: back → endsStatement token.word = true →
        OpensWithin (heading.tokens ++ front ++ [token]) := by
  rcases h with ⟨heading, clauses, opening, more, rfl, hclauses, hopens⟩ |
    ⟨heading, clauses, rfl, hclauses⟩
  · refine ⟨heading, clauses ++ opening :: more, by simp, fun front token back hsplit hends => ?_⟩
    -- the token is a clause, the opening or a token behind it
    rcases List.append_eq_append_iff.1 hsplit with ⟨inside, rfl, hrest⟩ | ⟨inside, rfl, hrest⟩
    · have hwithin : OpensWithin (heading.tokens ++ clauses ++ [opening]) :=
        ⟨heading.tokens ++ clauses, opening, [], by simp, hopens⟩
      cases inside with
      | nil =>
        obtain ⟨rfl, _⟩ := List.cons.inj hrest
        simpa using hwithin
      | cons first others =>
        obtain ⟨rfl, _⟩ := List.cons.inj hrest
        simpa using hwithin.append (others ++ [token])
    · cases inside with
      | nil =>
        obtain ⟨rfl, _⟩ := List.cons.inj hrest
        exact ⟨heading.tokens ++ front, token, [], by simp, by simpa using hopens⟩
      | cons first others =>
        obtain ⟨rfl, _⟩ := List.cons.inj hrest
        rw [(hclauses front token others rfl).1] at hends
        cases hends
  · refine ⟨heading, clauses, rfl, fun front token back hsplit hends => ?_⟩
    rw [(hclauses front token back hsplit).1] at hends
    cases hends

/-- What a header puts in front of a statement tells its kind. -/
theorem kind_eq_of_opening :
    ∀ header ∈ headers, ∀ other ∈ headers, header.opening <+: other.opening →
      header.opening = other.opening ∧ header.kind = other.kind := by
  decide

/-- The text of a statement tells where its header ends. -/
theorem eq_of_openings {one other : Header} (hone : one ∈ headers) (hother : other ∈ headers)
    {x y : List Token} {last : Token} (hx : ∀ token ∈ x, token.Whole) (hsuffix : y <:+ x)
    (h : one.opening ++ written (x ++ [last]) = other.opening ++ written (y ++ [last])) :
    x = y ∧ one.kind = other.kind := by
  obtain ⟨z, rfl⟩ := hsuffix
  rw [List.append_assoc, written_append, ← List.append_assoc] at h
  have hopening : one.opening ++ written z = other.opening := List.append_cancel_right h
  obtain ⟨hsame, hkind⟩ := kind_eq_of_opening one hone other hother ⟨_, hopening⟩
  rw [← hsame, List.append_right_eq_self] at hopening
  refine ⟨?_, hkind⟩
  cases z with
  | nil => rfl
  | cons token others =>
    rw [written_cons, List.append_eq_nil_iff] at hopening
    exact absurd hopening.1 (hx token (by simp)).startsWord.ne_nil

namespace Segmentation

variable {dump : Text} {noise : List Text} {s : Split} {segments : List Segment}
  {create last : Token} {words inner : List Token} {st : Statement}

/-- The tokens of a statement behind its header, as they stand in the dump. -/
theorem tokens_of_mem (h : Segmentation dump noise s segments)
    (hmem : .statement create words inner last st ∈ segments) :
    ∃ before behind, Dump.tokens dump = before ++ inner ++ last :: behind := by
  obtain ⟨earlier, later, rfl⟩ := List.append_of_mem hmem
  refine ⟨earlier.flatMap Segment.tokens ++ create :: words, later.flatMap Segment.tokens, ?_⟩
  rw [← h.tokens]
  simp [Segment.tokens]

theorem whole_of_inner (h : Segmentation dump noise s segments)
    (hmem : .statement create words inner last st ∈ segments) {token : Token}
    (htoken : token ∈ inner) : token.Whole ∧ EndsBlank token.text := by
  obtain ⟨before, behind, htokens⟩ := h.tokens_of_mem hmem
  have hthere : token ∈ (Dump.tokens dump).dropLast := by
    rw [htokens, List.dropLast_append_of_ne_nil (List.cons_ne_nil _ _)]
    simp [htoken]
  exact ⟨whole_of_mem_tokens (List.mem_of_mem_dropLast hthere),
    endsBlank_of_mem_dropLast_tokens hthere⟩

/-- The way from the header of a statement to its last token. -/
theorem exists_path (h : Segmentation dump noise s segments)
    (hmem : .statement create words inner last st ∈ segments) :
    ∃ header ∈ headers, ∃ line c after, Capture.Path (.opened header line) inner c ∧
      c.Moves last after true ∧
      (st.kind = header.kind ∨ header.kind = .function ∧ st.kind = .trigger) := by
  obtain ⟨earlier, later, hsegments⟩ := List.append_of_mem hmem
  obtain ⟨hencloses, p, hscan, _, hstep⟩ := h.sound earlier _ later hsegments
  obtain ⟨header, hheader, _, htext, hkind⟩ := hencloses.opening
  have hwhole : ∀ token ∈ earlier.flatMap Segment.tokens ++ (create :: words ++ inner),
      token.Whole := by
    intro token htoken
    have hthere : token ∈ Dump.tokens dump := by
      rw [← h.tokens, hsegments, List.flatMap_append, List.flatMap_cons, Segment.tokens]
      simp only [List.mem_append] at htoken ⊢
      tauto
    exact whole_of_mem_tokens hthere
  obtain ⟨c, hstate⟩ := capturing_of_extracted hstep rfl
  have horigin := origin_of_scan hscan
  rw [hstate] at horigin hstep
  generalize hread : earlier.flatMap Segment.tokens ++ (create :: words ++ inner) = read
    at horigin hwhole
  obtain _ | _ | @⟨before, words', inner', create', header', _, hbegins, hpath⟩ := horigin
  obtain ⟨after, closes, hmove, houtcome⟩ := Capture.moves_of_step hstep
  obtain ⟨rfl, _, hst⟩ := Capture.of_outcome_extracted (s := st) (by rw [← houtcome])
  -- both openings have the same text behind them, so they and the tokens behind are the same
  have htexts : header'.opening ++ written (inner' ++ [last]) =
      header.opening ++ written (inner ++ [last]) := by
    rw [← htext, ← hst]
    show _ = after.text
    rw [hmove.text, hpath.text, written_append, written_cons, written_nil, List.append_nil,
      List.append_assoc]
    rfl
  have hone : inner <:+ before ++ (create' :: words' ++ inner') :=
    ⟨earlier.flatMap Segment.tokens ++ create :: words, by rw [← hread]; simp⟩
  have hother : inner' <:+ before ++ (create' :: words' ++ inner') :=
    ⟨before ++ create' :: words', by simp⟩
  obtain ⟨rfl, hkinds⟩ : inner' = inner ∧ header'.kind = header.kind := by
    rcases List.suffix_or_suffix_of_suffix hone hother with hsuffix | hsuffix
    · exact eq_of_openings hbegins.mem hheader (fun t ht => hwhole t (hother.subset ht)) hsuffix
        htexts
    · obtain ⟨heq, hkinds⟩ := eq_of_openings hheader hbegins.mem
        (fun t ht => hwhole t (hone.subset ht)) hsuffix htexts.symm
      exact ⟨heq.symm, hkinds.symm⟩
  rw [← hkinds] at hkind
  exact ⟨header', hbegins.mem, _, c, after, hpath, hmove, hkind⟩

end Segmentation

/-- In a function or trigger of a split dump the first semicolon behind the return
type ends it, unless a body has been opened.  So no token of it but the last ends
in a semicolon in front of a body, exactly when none up to the return type does. -/
theorem noEarlyEnd_iff {dump : Text} {noise : List Text} {s : Split} {segments : List Segment}
    (h : Segmentation dump noise s segments) {create last : Token} {words inner : List Token}
    {st : Statement} (hmem : .statement create words inner last st ∈ segments)
    (hkind : st.kind ≠ .view) :
    ∃ (heading : Heading) (behind : List Token), inner = heading.tokens ++ behind ∧
      (∀ front token back, behind = front ++ token :: back → endsStatement token.word = true →
        OpensWithin (heading.tokens ++ front ++ [token])) ∧
      (NoEarlyEnd inner ↔ NoEarlyEnd heading.tokens) := by
  obtain ⟨header, hheader, line, c, after, hpath, hmove, hkinds⟩ := h.exists_path hmem
  have hfunction : header.kind = .function := by
    rcases hkinds with hsame | ⟨hfunction, _⟩
    · rw [hsame] at hkind
      exact function_of_ne_view header hheader hkind
    · exact hfunction
  have hwhole : ∀ token ∈ inner, token.Whole ∧ EndsBlank token.text :=
    fun token htoken => h.whole_of_inner hmem htoken
  obtain ⟨hreaches, hname⟩ := reaches_of_path rfl hfunction (endsBlank_opening header hheader) hpath
    hwhole
  have hshape := (hreaches.close hname hmove).elim BodyOpened.of_snoc .inr
  obtain ⟨heading, behind, rfl, hbehind⟩ := exists_heading hshape
  refine ⟨heading, behind, rfl, hbehind, ?_, ?_⟩
  · rintro hinner front token back hsplit hends
    refine hinner front token (back ++ behind) ?_ hends
    rw [hsplit]
    simp
  · intro hheading front token back hsplit hends
    rcases List.append_eq_append_iff.1 hsplit with ⟨inside, rfl, hrest⟩ | ⟨inside, hfront, hrest⟩
    · exact hbehind inside token back hrest hends
    · cases inside with
      | nil =>
        have := hbehind [] token back hrest.symm hends
        rw [List.append_nil] at this hfront
        rwa [hfront] at this
      | cons first others =>
        obtain ⟨rfl, _⟩ := List.cons.inj hrest
        exact hheading front token others hfront hends

/-! ## Functions from a library -/

/-- The statement of a function that closes with the name of its library.  `front`
reaches from the name to the last word before. -/
def libraryFunction (front : Text) : Statement :=
  ⟨.function, nameIn front, functionOpening ++ front ++ "'lib';\n".text, 1⟩

def librarySegment (front : Text) : Segment :=
  .statement ⟨"CREATE ".text, 1⟩ [⟨"FUNCTION ".text, 1⟩] (tokensFrom 1 front)
    ⟨"'lib';\n".text, 1 + newlines front⟩ (libraryFunction front)

/-- A dump of such a function and residual text behind it. -/
theorem segmentation_library (dump front bootstrap : Text) (rest : List Token) (c : Capture)
    (hname : nameIn front ≠ []) (htokens : tokens dump = (librarySegment front).tokens ++ rest)
    (hscan : Progress.scan {} (tokens ("CREATE FUNCTION ".text ++ front)) =
      .ok ⟨.capturing c, [], []⟩)
    (hfront : tokens ("CREATE FUNCTION ".text ++ front) =
      ⟨"CREATE ".text, 1⟩ :: [⟨"FUNCTION ".text, 1⟩] ++ tokensFrom 1 front)
    (hstep : c.step ⟨"'lib';\n".text, 1 + newlines front⟩ =
      .ok ⟨.scanning, [], some (libraryFunction front)⟩)
    (hseparate : separate dump =
      .ok ([libraryFunction front], leadingBlanks dump ++ written rest))
    (hbootstrap : bootstrap = cleaned [] (leadingBlanks dump ++ written rest)) :
    Segmentation dump [] ⟨[libraryFunction front], bootstrap⟩
      [librarySegment front, .residual rest] := by
  have hends : endsStatement (Token.word ⟨"'lib';\n".text, 1 + newlines front⟩) = true :=
    show endsStatement (trim "'lib';\n".text) = true by decide
  have hencloses : Segment.Encloses ⟨"CREATE ".text, 1⟩ [⟨"FUNCTION ".text, 1⟩]
      (tokensFrom 1 front) ⟨"'lib';\n".text, 1 + newlines front⟩ (libraryFunction front) := by
    refine ⟨by decide, ?_, rfl, hname, ?_, fun _ => nameIn_plain, hends⟩
    · refine ⟨⟨["FUNCTION".text], .function, functionOpening⟩, by simp [headers], by decide, ?_,
        .inl rfl⟩
      simp [libraryFunction, written_append, written_cons, written_nil, written_tokensFrom]
    · rw [written_append, written_tokensFrom]
      exact (List.takeWhile_prefix _).trans (List.prefix_append _ _)
  rw [hfront] at hscan
  exact segmentation_of_one [] [rest] (by simp [htokens, librarySegment, Segment.tokens])
    (by simpa [written_nil] using hseparate) (by simpa [written_nil] using hbootstrap) hencloses
    hscan rfl hstep

def plainFront : Text := "g() RETURNS int LANGUAGE c AS ".text

theorem noEarlyEnd_iff_library :
    Segmentation "CREATE FUNCTION g() RETURNS int LANGUAGE c AS 'lib';\nSET x;\n".text []
        ⟨[libraryFunction plainFront], "SET x;\n".text⟩
        [librarySegment plainFront, .residual (tokensFrom 2 "SET x;\n".text)] ∧
      NoEarlyEnd (tokensFrom 1 plainFront) := by
  have hseg : Segmentation
      "CREATE FUNCTION g() RETURNS int LANGUAGE c AS 'lib';\nSET x;\n".text []
      ⟨[libraryFunction plainFront], "SET x;\n".text⟩
      [librarySegment plainFront, .residual (tokensFrom 2 "SET x;\n".text)] :=
    segmentation_library _ plainFront _ _
      ⟨.function, 1, functionOpening ++ plainFront, .delimiter, "g".text, []⟩
      (by decide +kernel) (by decide +kernel) (by decide +kernel) (by decide +kernel)
      (by decide +kernel) (by decide +kernel) (by decide +kernel)
  refine ⟨hseg, ?_⟩
  obtain ⟨heading, behind, hinner, _, hiff⟩ := noEarlyEnd_iff hseg List.mem_cons_self nofun
  refine hiff.2 (noEarlyEnd_of_open fun token htoken => ?_)
  have hopen : ∀ token ∈ tokensFrom 1 plainFront, endsStatement token.word = false := by
    decide +kernel
  refine hopen token ?_
  rw [hinner]
  exact List.mem_append_left _ htoken

def outFront : Text :=
  ("f(OUT n int) LANGUAGE c AS 'lib';\nSET x;\n" ++
    "CREATE FUNCTION g() RETURNS int LANGUAGE c AS ").text

/-- A function with an `OUT` parameter has no return type of its own: it takes the
next statement with it and ends with the next function. -/
theorem earlyEnd_of_outFront :
    Segmentation ("CREATE FUNCTION f(OUT n int) LANGUAGE c AS 'lib';\nSET x;\n" ++
          "CREATE FUNCTION g() RETURNS int LANGUAGE c AS 'lib';\n").text []
        ⟨[libraryFunction outFront], []⟩ [librarySegment outFront, .residual []] ∧
      ¬ NoEarlyEnd (tokensFrom 1 outFront) := by
  constructor
  · exact segmentation_library _ outFront _ _
      ⟨.function, 1, functionOpening ++ outFront, .delimiter, "f".text, []⟩
      (by decide +kernel) (by decide +kernel) (by decide +kernel) (by decide +kernel)
      (by decide +kernel) (by decide +kernel) (by decide +kernel)
  · intro h
    have hsplit : tokensFrom 1 outFront = tokensFrom 1 "f(OUT n int) LANGUAGE c AS ".text ++
        ⟨"'lib';\n".text, 1⟩ :: tokensFrom 2
          "SET x;\nCREATE FUNCTION g() RETURNS int LANGUAGE c AS ".text := by
      decide +kernel
    refine not_opensWithin ?_ (h _ _ _ hsplit (by decide))
    decide +kernel

end Dump
end SchemaLedger
