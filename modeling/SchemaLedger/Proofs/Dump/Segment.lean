import SchemaLedger.Proofs.Dump.Capture

/-!
# Segments of a dump

A successful split cuts the tokens of a dump into segments.  A segment is
residual, and then its text stays as it is, or it is one statement, and then all
of it but the header is in the statement's text.  Nothing is lost, doubled or
moved.

The text of a dump is in three places while it is scanned: in the residual, in
the tokens held back behind `CREATE`, and in the captured statement.  The
invariant `Cut` says which part of the tokens read so far is in which of them.
-/

namespace SchemaLedger
namespace Dump

/-- A stretch of tokens.  That of a statement is its `CREATE`, the words of its
header, the tokens behind them and the last token. -/
inductive Segment
  | residual (tokens : List Token)
  | statement (create : Token) (header inner : List Token) (last : Token) (s : Statement)

namespace Segment

def tokens : Segment → List Token
  | residual tokens => tokens
  | statement create header inner last _ => create :: header ++ inner ++ [last]

/-- The text that a segment leaves in the residual. -/
def residue : Segment → Text
  | residual tokens => written tokens
  | statement .. => []

def statement? : Segment → Option Statement
  | residual _ => none
  | statement _ _ _ _ s => some s

/-- What a statement has from its segment. -/
structure Encloses (create : Token) (header inner : List Token) (last : Token)
    (s : Statement) : Prop where
  isCreate : create.keyword = "CREATE".text
  opening : ∃ h ∈ headers, header.map Token.keyword = h.words ∧
    s.text = h.opening ++ written (inner ++ [last]) ∧
    (s.kind = h.kind ∨ h.kind = .function ∧ s.kind = .trigger)
  line : s.line = create.line
  name_ne_nil : s.name ≠ []
  name_isPrefix : s.name <+: written (inner ++ [last])
  name_plain : ∀ c ∈ s.name, c ≠ '(' ∧ isBlank c = false
  ends : endsStatement last.word = true

/-- A segment as it stands behind earlier ones: the scan of everything up to
its last token has completed the earlier statements only, and the last token
completes the statement of the segment. -/
def Sound (earlier : List Segment) : Segment → Prop
  | residual _ => True
  | statement create header inner last s =>
    Encloses create header inner last s ∧
      ∃ p, Progress.scan {} (earlier.flatMap tokens ++ (create :: header ++ inner)) = .ok p ∧
        p.statements = earlier.filterMap statement? ∧
        step p.state last = .ok ⟨.scanning, [], some s⟩

end Segment

/-! ## Tokens held by a state -/

/-- What is known of a capture that started at `create` and took in `inner`. -/
structure Captured (header : Header) (create : Token) (inner : List Token)
    (c : Capture) : Prop where
  text : c.text = header.opening ++ written inner
  line : c.line = create.line
  kind : c.kind = header.kind ∨ header.kind = .function ∧ c.kind = .trigger
  ofFunction : c.phase ≠ .name → c.phase ≠ .terminator → header.kind = .function
  unnamed : c.phase = .name → inner = []
  named : c.phase ≠ .name →
    c.name ≠ [] ∧ c.name <+: written inner ∧ ∀ x ∈ c.name, x ≠ '(' ∧ isBlank x = false

/-- The tokens that a state holds, which are in no segment yet. -/
inductive Held : State → List Token → Prop
  | scanning : Held .scanning []
  | pending {create : Token} {more : List Token} (hcreate : create.keyword = "CREATE".text) :
      Held (.pending (create :: more)) (create :: more)
  | capturing {h : Header} {create : Token} {header inner : List Token} {c : Capture}
      (hcreate : create.keyword = "CREATE".text) (hmem : h ∈ headers)
      (hwords : header.map Token.keyword = h.words) (hc : Captured h create inner c) :
      Held (.capturing c) (create :: header ++ inner)

theorem nameIn_plain {word : Text} {x : CodePoint} (h : x ∈ nameIn word) :
    x ≠ '(' ∧ isBlank x = false := by
  have := List.mem_takeWhile_imp h
  simpa using this

theorem nameIn_prefix_text {token : Token} (h : token.Whole) :
    nameIn token.word <+: token.text := by
  obtain ⟨g, _, htext⟩ := h.gap
  rw [htext]
  exact (List.takeWhile_prefix _).trans (List.prefix_append _ _)

/-- A move keeps what is known of a capture. -/
theorem Captured.moves {header : Header} {create token : Token} {inner : List Token}
    {c after : Capture} {closes : Bool} (hc : Captured header create inner c)
    (htoken : token.Whole) (h : Capture.Moves c token after closes) :
    Captured header create (inner ++ [token]) after ∧ after.phase ≠ .name := by
  have htext : c.text ++ token.text = header.opening ++ written (inner ++ [token]) := by
    rw [hc.text, written_append, List.append_assoc, written_cons, written_nil, List.append_nil]
  have hnamed : c.phase ≠ .name → c.name ≠ [] ∧ c.name <+: written (inner ++ [token]) ∧
      ∀ x ∈ c.name, x ≠ '(' ∧ isBlank x = false := fun hphase => by
    obtain ⟨hne, hpre, hplain⟩ := hc.named hphase
    rw [written_append]
    exact ⟨hne, hpre.trans (List.prefix_append _ _), hplain⟩
  have hname : c.phase = .name → nameIn token.word <+: written (inner ++ [token]) :=
    fun hphase => by
      rw [hc.unnamed hphase, List.nil_append, written_cons, written_nil, List.append_nil]
      exact nameIn_prefix_text htoken
  -- a new name comes with its token; all other moves keep the name and need a phase behind it
  cases h with
  | functionName hphase hne hkind =>
    have hfunction : header.kind = .function := by
      rcases hc.kind with hk | ⟨hk, _⟩
      · rw [← hk, hkind]
      · exact hk
    exact ⟨⟨htext, hc.line, hc.kind, fun _ _ => hfunction, nofun,
      fun _ => ⟨hne, hname hphase, fun _ => nameIn_plain⟩⟩, nofun⟩
  | otherName hphase hne hkind =>
    exact ⟨⟨htext, hc.line, hc.kind, fun _ h => absurd rfl h, nofun,
      fun _ => ⟨hne, hname hphase, fun _ => nameIn_plain⟩⟩, nofun⟩
  | trigger hphase hword =>
    have hfunction := hc.ofFunction (by simp [hphase]) (by simp [hphase])
    exact ⟨⟨htext, hc.line, .inr ⟨hfunction, rfl⟩, fun _ _ => hfunction, nofun,
      fun _ => hnamed (by simp [hphase])⟩, nofun⟩
  | returns hphase _ | type hphase _ | opens _ hphase _ _ | quotes _ hphase _ _
  | atomic hphase _ _ _ | endsAtomic hphase _ | endsBody hphase _ =>
    have hfunction := hc.ofFunction (by simp [hphase]) (by simp [hphase])
    exact ⟨⟨htext, hc.line, hc.kind, fun _ _ => hfunction, nofun,
      fun _ => hnamed (by simp [hphase])⟩, nofun⟩
  | signature hphase _ | clause hphase _ _ | insideAtomic hphase _ | insideBody hphase _
  | behind hphase =>
    have hbehind : c.phase ≠ .name := by simp [hphase]
    exact ⟨⟨htext, hc.line, hc.kind, hc.ofFunction, fun h => absurd h hbehind,
      fun _ => hnamed hbehind⟩, hbehind⟩

/-! ## The cut behind a scan -/

/-- What a scan has made of the tokens read so far: the text of `segments` is in
the residual and in the statements, `held` is in the state. -/
structure Cut (read : List Token) (p : Progress) (segments : List Segment)
    (held : List Token) : Prop where
  scan : Progress.scan {} read = .ok p
  tokens : read = segments.flatMap Segment.tokens ++ held
  state : Held p.state held
  residual : p.residual = segments.flatMap Segment.residue
  statements : p.statements = segments.filterMap Segment.statement?
  sound : ∀ earlier segment later, segments = earlier ++ segment :: later →
    segment.Sound earlier

namespace Cut

variable {read segments held : _} {p : Progress} {token : Token}

theorem empty : Cut [] {} [] [] :=
  ⟨rfl, rfl, .scanning, rfl, rfl, fun earlier _ _ h => by simp at h⟩

/-- Behind one more segment each of them is still sound. -/
theorem sound_snoc (h : Cut read p segments held) {new : Segment} (hnew : new.Sound segments) :
    ∀ earlier segment later, segments ++ [new] = earlier ++ segment :: later →
      segment.Sound earlier := by
  intro earlier segment later hsplit
  rcases List.eq_nil_or_concat later with rfl | ⟨front, last, rfl⟩
  · obtain ⟨rfl, hlast⟩ := List.append_inj' hsplit rfl
    cases hlast
    exact hnew
  · rw [List.concat_eq_append, ← List.cons_append, ← List.append_assoc] at hsplit
    exact h.sound earlier segment front (List.append_inj' hsplit rfl).1

theorem scan_snoc (h : Cut read p segments held) {s : Step} (hs : step p.state token = .ok s) :
    Progress.scan {} (read ++ [token]) = .ok (p.add s) := by
  rw [Progress.scan_append_of_ok h.scan, Progress.scan_cons [] hs]
  rfl

/-- The state goes on holding what it held, and the token. -/
theorem hold (h : Cut read p segments held) {state : State}
    (hs : step p.state token = .ok ⟨state, [], none⟩) (hheld : Held state (held ++ [token])) :
    Cut (read ++ [token]) (p.add ⟨state, [], none⟩) segments (held ++ [token]) where
  scan := h.scan_snoc hs
  tokens := by rw [h.tokens, List.append_assoc]
  state := hheld
  residual := by simp [Progress.add, h.residual]
  statements := by simp [Progress.add, h.statements]
  sound := h.sound

/-- What was held becomes residual together with the token. -/
theorem flush (h : Cut read p segments held)
    (hs : step p.state token = .ok ⟨.scanning, written (held ++ [token]), none⟩) :
    Cut (read ++ [token]) (p.add ⟨.scanning, written (held ++ [token]), none⟩)
      (segments ++ [.residual (held ++ [token])]) [] where
  scan := h.scan_snoc hs
  tokens := by simp [h.tokens, Segment.tokens]
  state := .scanning
  residual := by simp [Progress.add, h.residual, Segment.residue]
  statements := by simp [Progress.add, h.statements, Segment.statement?]
  sound := h.sound_snoc trivial

/-- What was held becomes a statement whose last token came. -/
theorem complete {create : Token} {header inner : List Token} {s : Statement}
    (h : Cut read p segments (create :: header ++ inner))
    (hs : step p.state token = .ok ⟨.scanning, [], some s⟩)
    (hencloses : Segment.Encloses create header inner token s) :
    Cut (read ++ [token]) (p.add ⟨.scanning, [], some s⟩)
      (segments ++ [.statement create header inner token s]) [] where
  scan := h.scan_snoc hs
  tokens := by simp [h.tokens, Segment.tokens]
  state := .scanning
  residual := by simp [Progress.add, h.residual, Segment.residue]
  statements := by simp [Progress.add, h.statements, Segment.statement?]
  sound := h.sound_snoc ⟨hencloses, p, by rw [← h.tokens]; exact h.scan, h.statements, hs⟩

theorem step_scanning (h : Cut read p segments []) (hstate : p.state = .scanning) {s : Step}
    (hs : step p.state token = .ok s) :
    ∃ segments held, Cut (read ++ [token]) (p.add s) segments held := by
  have hs' := hs
  rw [hstate] at hs
  by_cases hcreate : token.keyword = "CREATE".text
  · rw [step_create hcreate] at hs
    cases hs
    exact ⟨_, _, h.hold hs' (.pending hcreate)⟩
  · rw [step_ordinary hcreate] at hs
    have htext : token.text = written ([] ++ [token]) := by
      rw [List.nil_append, written_cons, written_nil, List.append_nil]
    cases hs
    rw [htext] at hs' ⊢
    exact ⟨_, _, h.flush hs'⟩

theorem step_pending {create : Token} {more : List Token}
    (h : Cut read p segments (create :: more)) (hstate : p.state = .pending (create :: more))
    (hcreate : create.keyword = "CREATE".text) {s : Step} (hs : step p.state token = .ok s) :
    ∃ segments held, Cut (read ++ [token]) (p.add s) segments held := by
  have hs' := hs
  rw [hstate] at hs
  obtain rfl : pendingStep (create :: (more ++ [token])) = s := Except.ok.inj hs
  rcases pendingStep_cases create (more ++ [token]) with
    ⟨header, hmem, hwords, hstep⟩ | ⟨_, _, _, _, hstep⟩ | hstep
  · rw [hstep] at hs' ⊢
    have hheld : Held (.capturing (.opened header create.line))
        (create :: (more ++ [token]) ++ []) :=
      .capturing hcreate hmem hwords
        ⟨by rw [written_nil, List.append_nil]; rfl, rfl, .inl rfl, fun hp => absurd rfl hp,
          fun _ => rfl, fun hp => absurd rfl hp⟩
    rw [List.append_nil] at hheld
    exact ⟨_, _, h.hold hs' hheld⟩
  · rw [hstep] at hs' ⊢
    exact ⟨_, _, h.hold hs' (.pending hcreate)⟩
  · rw [hstep] at hs' ⊢
    exact ⟨_, _, h.flush hs'⟩

theorem step_capturing {header : Header} {create : Token} {words inner : List Token}
    {c : Capture} (h : Cut read p segments (create :: words ++ inner))
    (hstate : p.state = .capturing c) (hcreate : create.keyword = "CREATE".text)
    (hmem : header ∈ headers) (hwords : words.map Token.keyword = header.words)
    (hc : Captured header create inner c) (htoken : token.Whole) {s : Step}
    (hs : step p.state token = .ok s) :
    ∃ segments held, Cut (read ++ [token]) (p.add s) segments held := by
  have hs' := hs
  rw [hstate] at hs
  obtain ⟨after, closes, hmove, rfl⟩ := Capture.moves_of_step hs
  obtain ⟨hafter, hnamed⟩ := hc.moves htoken hmove
  rcases Capture.outcome_cases after token.word closes with hgo | ⟨hends, hdone⟩
  · rw [hgo] at hs' ⊢
    refine ⟨_, _, h.hold hs' ?_⟩
    rw [List.append_assoc]
    exact .capturing hcreate hmem hwords hafter
  · rw [hdone] at hs' ⊢
    obtain ⟨hne, hpre, hplain⟩ := hafter.named hnamed
    exact ⟨_, _, h.complete hs' ⟨hcreate, ⟨header, hmem, hwords, hafter.text, hafter.kind⟩,
      hafter.line, hne, hpre, hplain, hends⟩⟩

theorem step (h : Cut read p segments held) (htoken : token.Whole) {s : Step}
    (hs : step p.state token = .ok s) :
    ∃ segments held, Cut (read ++ [token]) (p.add s) segments held := by
  have hheld := h.state
  cases hstate : p.state with
  | scanning =>
    rw [hstate] at hheld
    cases hheld
    exact h.step_scanning hstate hs
  | pending tokens =>
    rw [hstate] at hheld
    obtain _ | hcreate := hheld
    exact h.step_pending hstate hcreate hs
  | capturing c =>
    rw [hstate] at hheld
    obtain _ | _ | ⟨hcreate, hmem, hwords, hc⟩ := hheld
    exact h.step_capturing hstate hcreate hmem hwords hc htoken hs

theorem run (h : Cut read p segments held) {more : List Token} {q : Progress}
    (hwhole : ∀ token ∈ more, token.Whole) (hscan : p.scan more = .ok q) :
    ∃ segments held, Cut (read ++ more) q segments held := by
  induction more generalizing read p segments held with
  | nil =>
    cases hscan
    exact ⟨segments, held, by rwa [List.append_nil]⟩
  | cons token rest ih =>
    cases hs : Dump.step p.state token with
    | error fault =>
      rw [Progress.scan, hs] at hscan
      cases hscan
    | ok s =>
      rw [Progress.scan_cons rest hs] at hscan
      obtain ⟨segments', held', h'⟩ := h.step (hwhole token List.mem_cons_self) hs
      have hrun := ih h' (fun t ht => hwhole t (List.mem_cons_of_mem _ ht)) hscan
      rwa [List.append_assoc] at hrun

/-- At the end of a dump what is held is residual, too. -/
theorem finish (h : Cut read p segments held) {rest : Text}
    (hfinish : Dump.finish p.state = .ok rest) :
    ∃ segments, segments.flatMap Segment.tokens = read ∧
      p.residual ++ rest = segments.flatMap Segment.residue ∧
      p.statements = segments.filterMap Segment.statement? ∧
      ∀ earlier segment later, segments = earlier ++ segment :: later →
        segment.Sound earlier := by
  have hrest : rest = written held := by
    have hheld := h.state
    cases hstate : p.state with
    | scanning =>
      rw [hstate] at hheld hfinish
      cases hheld
      cases hfinish
      rfl
    | pending tokens =>
      rw [hstate] at hheld hfinish
      cases hheld
      cases hfinish
      rfl
    | capturing c =>
      rw [hstate] at hfinish
      cases hfinish
  refine ⟨segments ++ [.residual held], ?_, ?_, ?_,
    h.sound_snoc (show (Segment.residual held).Sound segments from trivial)⟩
  · rw [h.tokens, List.flatMap_append]
    simp [Segment.tokens]
  · rw [h.residual, hrest, List.flatMap_append]
    simp [Segment.residue]
  · rw [h.statements, List.filterMap_append]
    simp [Segment.statement?]

end Cut

theorem separate_of_split {dump : Text} {noise : List Text} {s : Split}
    (h : split dump noise = .ok s) :
    ∃ residual, separate dump = .ok (s.statements, residual) ∧
      s.bootstrap = cleaned noise residual := by
  unfold split at h
  cases hseparate : separate dump with
  | error fault =>
    rw [hseparate] at h
    cases h
  | ok parts =>
    rw [hseparate] at h
    cases h
    exact ⟨parts.2, rfl, rfl⟩

theorem exists_segments_of_separate {dump residual : Text} {statements : List Statement}
    (h : separate dump = .ok (statements, residual)) :
    ∃ segments : List Segment, segments.flatMap Segment.tokens = tokens dump ∧
      residual = Text.leadingBlanks dump ++ segments.flatMap Segment.residue ∧
      statements = segments.filterMap Segment.statement? ∧
      ∀ earlier segment later, segments = earlier ++ segment :: later →
        segment.Sound earlier := by
  unfold separate at h
  cases hscan : Progress.scan {} (tokens dump) with
  | error fault =>
    rw [hscan] at h
    cases h
  | ok p =>
    rw [hscan] at h
    simp only at h
    cases hfinish : finish p.state with
    | error fault =>
      rw [hfinish] at h
      cases h
    | ok rest =>
      rw [hfinish] at h
      obtain ⟨hs, hresidual⟩ := Prod.mk.inj (Except.ok.inj h)
      obtain ⟨_, _, hcut⟩ := Cut.empty.run (fun _ ht => whole_of_mem_tokens ht) hscan
      obtain ⟨segments, htokens, hresidue, hstatements, hsound⟩ := hcut.finish hfinish
      rw [List.append_assoc, hresidue] at hresidual
      exact ⟨segments, htokens, hresidual.symm, hs ▸ hstatements, hsound⟩

/-- The name of a statement stands in its text. -/
theorem name_subset_text_of_split {dump : Text} {noise : List Text} {s : Split}
    (h : split dump noise = .ok s) {t : Statement} (ht : t ∈ s.statements) : t.name ⊆ t.text := by
  obtain ⟨_, hseparate, _⟩ := separate_of_split h
  obtain ⟨segments, _, _, hstatements, hsound⟩ := exists_segments_of_separate hseparate
  rw [hstatements] at ht
  obtain ⟨segment, hmem, hsegment⟩ := List.mem_filterMap.1 ht
  obtain ⟨earlier, later, hsegments⟩ := List.append_of_mem hmem
  have hsegmentSound := hsound earlier segment later hsegments
  cases segment with
  | residual tokens => cases hsegment
  | statement create header inner last s =>
    obtain rfl : s = t := Option.some.inj hsegment
    obtain ⟨hencloses, _⟩ := hsegmentSound
    obtain ⟨header, _, _, htext, _⟩ := hencloses.opening
    rw [htext]
    exact List.subset_append_of_subset_right _ hencloses.name_isPrefix.subset

/-- Segments that account for all of a split dump: their tokens are the tokens of
the dump, the residual before it is cleaned is the leading blanks and the
residual segments as they are, and the statements are those of the statement
segments in order. -/
structure Segmentation (dump : Text) (noise : List Text) (s : Split)
    (segments : List Segment) : Prop where
  tokens : segments.flatMap Segment.tokens = tokens dump
  residual : separate dump =
    .ok (s.statements, Text.leadingBlanks dump ++ segments.flatMap Segment.residue)
  bootstrap : s.bootstrap =
    cleaned noise (Text.leadingBlanks dump ++ segments.flatMap Segment.residue)
  statements : s.statements = segments.filterMap Segment.statement?
  sound : ∀ earlier segment later, segments = earlier ++ segment :: later →
    segment.Sound earlier

/-! ## One statement -/

section One

variable {front back : List (List Token)} {create : Token} {header inner : List Token}
  {last : Token} {s : Statement}

theorem flatMap_tokens_residual (parts : List (List Token)) :
    (parts.map Segment.residual).flatMap Segment.tokens = parts.flatten := by
  rw [List.flatMap_map, List.flatten_eq_flatMap]
  rfl

theorem flatMap_residue_residual (parts : List (List Token)) :
    (parts.map Segment.residual).flatMap Segment.residue = written parts.flatten := by
  induction parts with
  | nil => rfl
  | cons part rest ih =>
    rw [List.flatten_cons, written_append, ← ih]
    rfl

theorem filterMap_statement_residual (parts : List (List Token)) :
    (parts.map Segment.residual).filterMap Segment.statement? = [] := by
  rw [List.filterMap_map]
  exact List.filterMap_eq_nil_iff.2 fun _ _ => rfl

/-- Every residual segment is sound, so only the place of the statement matters. -/
theorem sound_of_one (hsound : (Segment.statement create header inner last s).Sound
      (front.map .residual)) (earlier : List Segment) (segment : Segment) (later : List Segment)
    (hsplit : front.map Segment.residual ++
      Segment.statement create header inner last s :: back.map Segment.residual =
        earlier ++ segment :: later) : segment.Sound earlier := by
  have hplain : ∀ parts : List (List Token), segment ∈ parts.map Segment.residual →
      segment.Sound earlier := by
    intro parts hmem
    obtain ⟨_, _, rfl⟩ := List.mem_map.1 hmem
    exact trivial
  rcases List.append_eq_append_iff.1 hsplit with ⟨more, hearlier, hrest⟩ | ⟨more, hfront, hrest⟩
  · cases more with
    | nil =>
      obtain ⟨rfl, _⟩ := List.cons.inj hrest
      rwa [hearlier, List.append_nil]
    | cons first others =>
      obtain ⟨_, hback⟩ := List.cons.inj hrest
      exact hplain back (hback ▸ List.mem_append_right others List.mem_cons_self)
  · cases more with
    | nil =>
      obtain ⟨rfl, _⟩ := List.cons.inj hrest
      rw [List.append_nil] at hfront
      rwa [← hfront]
    | cons first others =>
      obtain ⟨rfl, _⟩ := List.cons.inj hrest
      exact hplain front (hfront ▸ List.mem_append_right earlier List.mem_cons_self)

/-- A dump of one statement with residual text around it. -/
theorem segmentation_of_one (front back : List (List Token)) {dump bootstrap : Text}
    {noise : List Text} {p : Progress}
    (htokens : tokens dump =
      front.flatten ++ (create :: header ++ inner ++ [last] ++ back.flatten))
    (hseparate : separate dump =
      .ok ([s], Text.leadingBlanks dump ++ (written front.flatten ++ written back.flatten)))
    (hbootstrap : bootstrap =
      cleaned noise (Text.leadingBlanks dump ++ (written front.flatten ++ written back.flatten)))
    (hencloses : Segment.Encloses create header inner last s)
    (hscan : Progress.scan {} (front.flatten ++ (create :: header ++ inner)) = .ok p)
    (hnone : p.statements = []) (hstep : step p.state last = .ok ⟨.scanning, [], some s⟩) :
    Segmentation dump noise ⟨[s], bootstrap⟩ (front.map Segment.residual ++
      Segment.statement create header inner last s :: back.map Segment.residual) := by
  have hresidue : (front.map Segment.residual ++
      Segment.statement create header inner last s :: back.map Segment.residual).flatMap
        Segment.residue = written front.flatten ++ written back.flatten := by
    rw [List.flatMap_append, flatMap_residue_residual, List.flatMap_cons, flatMap_residue_residual]
    rfl
  refine ⟨?_, ?_, ?_, ?_, sound_of_one ⟨hencloses, p, ?_, ?_, hstep⟩⟩
  · rw [htokens, List.flatMap_append, flatMap_tokens_residual, List.flatMap_cons,
      flatMap_tokens_residual]
    rfl
  · rw [hresidue, hseparate]
  · rw [hresidue, hbootstrap]
  · rw [List.filterMap_append, filterMap_statement_residual, List.nil_append, List.filterMap_cons,
      filterMap_statement_residual]
    rfl
  · rwa [flatMap_tokens_residual]
  · rw [hnone, filterMap_statement_residual]

end One

theorem exists_segmentation_of_split {dump : Text} {noise : List Text} {s : Split}
    (h : split dump noise = .ok s) : ∃ segments, Segmentation dump noise s segments := by
  obtain ⟨residual, hseparate, hbootstrap⟩ := separate_of_split h
  obtain ⟨segments, htokens, rfl, hstatements, hsound⟩ := exists_segments_of_separate hseparate
  exact ⟨segments, htokens, hseparate, hbootstrap, hstatements, hsound⟩

theorem exists_segmentation_of_split_trigger :
    ∃ segments, Segmentation
      " SET a;\ncreate or\nreplace FUNCTION f(a int) RETURNS Trigger AS $b$ x;$b$;\n-- y\nCREATE".text
      [] ⟨[⟨.trigger, "f".text,
        "CREATE OR REPLACE FUNCTION f(a int) RETURNS Trigger AS $b$ x;$b$;\n".text, 2⟩],
        " SET a;\nCREATE\n".text⟩ segments :=
  exists_segmentation_of_split (by decide +kernel)

end Dump
end SchemaLedger
