import SchemaLedger.Proofs.Dump.Query
import SchemaLedger.Proofs.Dump.Segment

/-!
# Views with any identifier

The name of a view is read off its first word, up to the first bracket or
blank.  An identifier in double quotes may go on behind that, and its semicolons
may even end the statement, so what is taken for the name is a front of the
identifier only.
-/

namespace SchemaLedger
namespace Dump

open Text

/-! ## Names -/

theorem nameIn_append_blank {c : CodePoint} (hc : isBlank c = true) (t u : Text) :
    nameIn (t ++ c :: u) = nameIn t := by
  induction t with
  | nil => simp [nameIn, hc]
  | cons x rest ih =>
    unfold nameIn at ih ⊢
    rw [List.cons_append, List.takeWhile_cons, List.takeWhile_cons, ih]

/-- The name in a text is the name in its first word. -/
theorem nameIn_of_words {t word : Text} {more : List Text} (hstart : StartsWord t)
    (hend : EndsBlank t) (h : words t = word :: more) : nameIn word = nameIn t := by
  obtain ⟨first, gap, rest, rfl, hfirst, hgap, hne, hrest⟩ := exists_first_word hend
  have hword : IsWord first := by
    refine ⟨?_, hfirst⟩
    rintro rfl
    obtain ⟨c, others, rfl⟩ := List.exists_cons_of_ne_nil hne
    have hc := startsWord_cons.1 hstart
    rw [hgap c List.mem_cons_self] at hc
    cases hc
  rw [words_word_append_gap_append hword hgap hne (hrest.imp id And.left)] at h
  obtain ⟨c, others, rfl⟩ := List.exists_cons_of_ne_nil hne
  rw [List.append_assoc, List.cons_append, nameIn_append_blank (hgap c List.mem_cons_self)]
  rw [(List.cons.inj h).1]

theorem infix_of_notMem {α : Type} {l a b : List α} {x : α} (h : l <:+: a ++ x :: b)
    (hx : x ∉ l) : l <:+: a ∨ l <:+: b := by
  obtain ⟨front, back, h⟩ := h
  rcases List.append_eq_append_iff.1 h with ⟨more, rfl, _⟩ | ⟨more, hfront, hback⟩
  · exact .inl ⟨front, more, rfl⟩
  cases more with
  | nil => exact .inl ⟨front, [], by rw [hfront, List.append_nil, List.append_nil]⟩
  | cons y more =>
    obtain ⟨rfl, rfl⟩ := List.cons.inj hback
    rcases List.append_eq_append_iff.1 hfront with ⟨inside, _, rfl⟩ | ⟨inside, _, hinside⟩
    · simp at hx
    cases inside with
    | nil =>
      rw [List.nil_append] at hinside
      simp [← hinside] at hx
    | cons z inside =>
      obtain ⟨_, rfl⟩ := List.cons.inj hinside
      exact .inr ⟨inside, back, rfl⟩

/-- The words behind the first that ends in a semicolon. -/
def leftover (words : List Text) : List Text :=
  (words.dropWhile fun word => !endsStatement word).tail

theorem leftover_append {front : List Text} (h : ClosesAtLast front) (back : List Text) :
    leftover (front ++ back) = back := by
  obtain ⟨hlast, hinner⟩ := h
  obtain ⟨last, hlast, hends⟩ := Option.map_eq_some_iff.1 hlast
  obtain ⟨inner, rfl⟩ := List.getLast?_eq_some_iff.1 hlast
  rw [List.dropLast_concat] at hinner
  rw [leftover, List.append_assoc, List.dropWhile_append_of_pos fun word hword => by
    simp [hinner word hword]]
  simp [hends]

/-! ## Identifiers -/

/-- A plain name, or any text without a double quote in double quotes. -/
inductive NamePart
  | plain (t : Text)
  | quoted (t : Text)

namespace NamePart

def text : NamePart → Text
  | plain t => t
  | quoted t => .char '"' :: t ++ [.char '"']

def WellFormed : NamePart → Prop
  | plain t => t ≠ [] ∧ ∀ c ∈ t, isBlank c = false ∧ c ≠ '(' ∧ c ≠ ';'
  | quoted t => .char '"' ∉ t

instance (part : NamePart) : Decidable part.WellFormed :=
  match part with
  | plain t => decidable_of_iff
      (t ≠ [] ∧ t.all (fun c => isBlank c = false ∧ c ≠ '(' ∧ c ≠ ';') = true) (by
        simp [WellFormed])
  | quoted t => inferInstanceAs (Decidable (.char '"' ∉ t))

theorem exists_head {part : NamePart} (h : part.WellFormed) :
    ∃ c rest, part.text = c :: rest ∧ isBlank c = false ∧ c ≠ '(' := by
  cases part with
  | plain t =>
    obtain ⟨c, rest, rfl⟩ := List.exists_cons_of_ne_nil h.1
    obtain ⟨hblank, hbracket, _⟩ := h.2 c List.mem_cons_self
    exact ⟨c, rest, rfl, hblank, hbracket⟩
  | quoted t => exact ⟨'"', t ++ [.char '"'], rfl, by decide, by decide⟩

theorem exists_last {part : NamePart} (h : part.WellFormed) :
    ∃ front c, part.text = front ++ [c] ∧ isBlank c = false ∧ c ≠ ';' := by
  cases part with
  | plain t =>
    obtain ⟨front, c, rfl⟩ := (List.eq_nil_or_concat' t).resolve_left h.1
    obtain ⟨hblank, _, hsemicolon⟩ := h.2 c (by simp)
    exact ⟨front, c, rfl, hblank, hsemicolon⟩
  | quoted t => exact ⟨.char '"' :: t, '"', rfl, by decide, by decide⟩

end NamePart

structure Identifier where
  schema : Option NamePart := none
  name : NamePart

namespace Identifier

def text (i : Identifier) : Text :=
  match i.schema with
  | none => i.name.text
  | some schema => schema.text ++ .char '.' :: i.name.text

structure WellFormed (i : Identifier) : Prop where
  schema : ∀ part ∈ i.schema, part.WellFormed
  name : i.name.WellFormed

instance (i : Identifier) : Decidable i.WellFormed :=
  decidable_of_iff ((∀ part ∈ i.schema, part.WellFormed) ∧ i.name.WellFormed)
    ⟨fun h => ⟨h.1, h.2⟩, fun h => ⟨h.schema, h.name⟩⟩

/-- The view from its name on, without its semicolon. -/
def body (i : Identifier) : Text :=
  i.text ++ " AS SELECT 1".text

def line (i : Identifier) : Text :=
  "CREATE VIEW ".text ++ (i.body ++ [.char ';', .char '\n'])

/-- Behind a word of the identifier that ends in a semicolon, no words introduce
another statement. -/
def Quiet (i : Identifier) : Prop :=
  ∀ header ∈ headers,
    ¬ "CREATE".text :: header.words <:+: (leftover (words i.text)).map capitals

instance (i : Identifier) : Decidable i.Quiet :=
  inferInstanceAs (Decidable (∀ header ∈ headers, ¬ _))

/-- The statement that is split off for a view.  It is the whole view unless a
semicolon of the identifier ends it. -/
structure Makes (i : Identifier) (s : Statement) : Prop where
  kind : s.kind = .view
  name : s.name = nameIn i.text
  text : Tight i.text → s.text = viewOpening ++ (i.body ++ [.char ';', .char '\n'])

variable {i : Identifier}

theorem exists_head (h : i.WellFormed) :
    ∃ c rest, i.text = c :: rest ∧ isBlank c = false ∧ c ≠ '(' := by
  obtain ⟨schema, name⟩ := i
  cases schema with
  | none => exact NamePart.exists_head h.name
  | some part =>
    obtain ⟨c, rest, htext, hc⟩ := NamePart.exists_head (h.schema part rfl)
    refine ⟨c, rest ++ .char '.' :: name.text, ?_, hc⟩
    show part.text ++ .char '.' :: name.text = _
    rw [htext, List.cons_append]

theorem exists_last (h : i.WellFormed) :
    ∃ front c, i.text = front ++ [c] ∧ isBlank c = false ∧ c ≠ ';' := by
  obtain ⟨schema, name⟩ := i
  obtain ⟨front, c, htext, hc⟩ := NamePart.exists_last h.name
  cases schema with
  | none => exact ⟨front, c, htext, hc⟩
  | some part =>
    refine ⟨part.text ++ .char '.' :: front, c, ?_, hc⟩
    show part.text ++ .char '.' :: name.text = _
    rw [show name.text = front ++ [c] from htext]
    simp

theorem startsWord_text (h : i.WellFormed) : StartsWord i.text := by
  obtain ⟨c, rest, htext, hc, _⟩ := exists_head h
  rw [htext]
  exact startsWord_cons.2 hc

theorem startsWord_body (h : i.WellFormed) (t : Text) : StartsWord (i.body ++ t) := by
  unfold body
  rw [List.append_assoc]
  exact (startsWord_text h).append _

theorem endsBlank_body (i : Identifier) : EndsBlank (i.body ++ [.char ';', .char '\n']) := by
  refine endsBlank_of_newline ?_
  rw [List.getLast?_append_of_ne_nil _ (List.cons_ne_nil _ _)]
  rfl

theorem words_body (i : Identifier) :
    words (i.body ++ [.char ';', .char '\n']) =
      words i.text ++ ["AS".text, "SELECT".text, "1;".text] := by
  have hgap : IsGap [.char ' '] := isGap_singleton rfl
  have hshape : i.body ++ [.char ';', .char '\n'] =
      (i.text ++ [.char ' ']) ++ "AS SELECT 1;\n".text := by
    rw [body, List.append_assoc, List.append_assoc]
    rfl
  have hrest : words "AS SELECT 1;\n".text = ["AS".text, "SELECT".text, "1;".text] := by
    decide +kernel
  have hblank : EndsBlank (i.text ++ [.char ' ']) :=
    (endsBlank_of_isGap (List.cons_ne_nil _ _) hgap).append _
  rw [hshape, words_append (.inr hblank) (by decide), words_append_gap i.text hgap, hrest]

theorem tight_body (h : i.WellFormed) : Tight i.body ↔ Tight i.text := by
  obtain ⟨front, c, htext, _, hc⟩ := exists_last h
  have hlast : i.text.getLast? ≠ some (.char ';') := by
    rw [htext, List.getLast?_concat]
    simpa using hc
  have has : Tight " AS SELECT 1".text := by decide
  rw [body, tight_append hlast]
  simp only [has, and_true]

/-- A view in two parts, the first up to the first word that ends a statement. -/
structure Cut (i : Identifier) (front back : Text) : Prop where
  parts : i.body ++ [.char ';', .char '\n'] = front ++ back
  starts : StartsWord front
  ends : EndsBlank front
  closes : ClosesAtLast (words front)
  behind : back = [] ∨ StartsWord back
  whole : Tight i.text → back = []

theorem exists_cut (h : i.WellFormed) : ∃ front back, i.Cut front back := by
  obtain ⟨front, gap, back, hsplit, hgap, hne, hback, hcloses⟩ :=
    exists_closing_front (startsWord_body h _) i.endsBlank_body (exists_closing_of_semicolon _)
  have hstart : StartsWord (front ++ [.char ';'] ++ gap) := by
    have hall := startsWord_body h [.char ';', .char '\n']
    rw [hsplit] at hall
    exact startsWord_of_append (by simp) hall
  exact ⟨_, back, hsplit, hstart, (endsBlank_of_isGap hne hgap).append _, hcloses,
    hback.imp id And.left, fun htight =>
      eq_nil_of_tight ((tight_body h).2 htight) hsplit hgap hne hback⟩

namespace Cut

variable {front back : Text}

/-- The name in the first word is that of the identifier. -/
theorem exists_name (h : i.Cut front back) (hwell : i.WellFormed) :
    ∃ name others, words front = name :: others ∧ IsWord name ∧ nameIn name = nameIn i.text := by
  obtain ⟨name, others, hwords⟩ := List.exists_cons_of_ne_nil (words_ne_nil h.starts)
  have hword : IsWord name := by
    have hmem : name ∈ words front := by
      rw [hwords]
      exact List.mem_cons_self
    rw [← map_word_tokensFrom 1 h.starts] at hmem
    obtain ⟨token, htoken, rfl⟩ := List.mem_map.1 hmem
    exact (whole_of_mem_tokensFrom h.starts htoken).isWord
  have hfirst : ∃ more, words (i.body ++ [.char ';', .char '\n']) = name :: more := by
    rw [h.parts]
    rcases h.behind with rfl | hback
    · exact ⟨others, by rw [List.append_nil, hwords]⟩
    · exact ⟨others ++ words back, by rw [words_append (.inr h.ends) hback, hwords]; rfl⟩
  obtain ⟨more, hmore⟩ := hfirst
  have hshape : i.body ++ [.char ';', .char '\n'] =
      i.text ++ .char ' ' :: "AS SELECT 1;\n".text :=
    List.append_assoc i.text " AS SELECT 1".text [.char ';', .char '\n']
  refine ⟨name, others, hwords, hword, ?_⟩
  rw [nameIn_of_words (startsWord_body hwell _) i.endsBlank_body hmore, hshape]
  exact nameIn_append_blank (by decide) _ _

/-- The first part is captured as a view. -/
theorem scan_front (h : i.Cut front back) (hwell : i.WellFormed) (p : Progress) (line first : Int) :
    (p.capturing ⟨.view, first, viewOpening, .name, [], []⟩).scan (tokensFrom line front) =
      .ok (p.completed ⟨.view, nameIn i.text, viewOpening ++ front, first⟩) := by
  obtain ⟨name, others, hwords, hword, hname⟩ := h.exists_name hwell
  have hplain : name.head? ≠ some (.char '(') := by
    intro hbracket
    obtain ⟨rest, rfl⟩ := List.head?_eq_some_iff.1 hbracket
    obtain ⟨c, more, htext, hblank, hc⟩ := exists_head hwell
    rw [htext] at hname
    simp [nameIn, hblank, hc] at hname
  rw [← hname, Progress.nameIn_of_isWord hword]
  exact Progress.scan_view_text line first h.starts hwords hplain (hwords ▸ h.closes)

theorem words_back (h : i.Cut front back) (hback : StartsWord back) :
    words back = leftover (words i.text) ++ ["AS".text, "SELECT".text, "1;".text] := by
  have hall : leftover (words i.text ++ ["AS".text, "SELECT".text, "1;".text]) =
      words back := by
    rw [← words_body, h.parts, words_append (.inr h.ends) hback, leftover_append h.closes]
  rw [← hall, leftover, leftover, List.dropWhile_append]
  split
  · next hnone =>
    -- the only semicolon is the last one, so nothing is behind it
    have hnil : leftover (words i.text ++ ["AS".text, "SELECT".text, "1;".text]) = [] := by
      rw [leftover, List.dropWhile_append, if_pos hnone]
      decide
    rw [hall] at hnil
    exact absurd hnil (words_ne_nil hback)
  · next hsome =>
    rw [List.tail_append_of_ne_nil]
    simpa using hsome

/-- No statement starts in what a quiet identifier leaves behind its semicolon. -/
theorem scan_back (h : i.Cut front back) (hquiet : i.Quiet) (hback : StartsWord back)
    (first : Int) (residual : Text) (statements : List Statement) :
    Progress.scan ⟨.scanning, residual, statements⟩ (tokensFrom first back) =
      .ok ⟨.scanning, residual ++ back, statements⟩ := by
  have hkeywords := map_keyword_tokensFrom first hback
  rw [h.words_back hback, List.map_append] at hkeywords
  have hfree : ∀ header ∈ headers, ¬ "CREATE".text :: header.words <:+:
      (tokensFrom first back).map Token.keyword := by
    intro header hmem hinside
    rw [hkeywords] at hinside
    have has : ∀ header ∈ headers, capitals "AS".text ∉ "CREATE".text :: header.words := by
      decide
    have hselect : ∀ header ∈ headers, ¬ "CREATE".text :: header.words <:+:
        ["SELECT".text, "1;".text].map capitals := by
      decide
    exact (infix_of_notMem hinside (has header hmem)).elim (hquiet header hmem)
      (hselect header hmem)
  have hnone : ∀ rest, rest <:+ tokensFrom first back → Progress.Held rest → rest = [] := by
    rintro rest ⟨before, hbefore⟩ ⟨header, hmem, hbegins⟩
    rcases List.eq_nil_or_concat' rest with hnil | ⟨front, last, rfl⟩
    · exact hnil
    exfalso
    have hlast : last.keyword = capitals "1;".text := by
      have hends := congrArg List.getLast? hkeywords
      rw [← hbefore, ← List.append_assoc, List.map_append, List.map_singleton,
        List.getLast?_concat] at hends
      simpa using hends
    have hother : ∀ header ∈ headers, capitals "1;".text ∉ "CREATE".text :: header.words := by
      decide
    refine hother header hmem (hbegins.subset ?_)
    rw [← hlast, List.map_append]
    simp
  have hscan := Progress.scan_unheaded hfree hnone residual statements
  rwa [written_tokensFrom] at hscan

end Cut

/-- A line of the dump makes one statement; what is behind the word that ends it is
residual. -/
theorem scan_line (h : i.WellFormed) (hquiet : i.Quiet) (first : Int) (residual : Text)
    (statements : List Statement) :
    ∃ s more, Progress.scan ⟨.scanning, residual, statements⟩ (tokensFrom first i.line) =
        .ok ⟨.scanning, residual ++ more, statements ++ [s]⟩ ∧ i.Makes s := by
  obtain ⟨front, back, hcut⟩ := exists_cut h
  have hopening : StartsWord "CREATE VIEW ".text := by decide
  have hopeningEnd : EndsBlank "CREATE VIEW ".text := by decide
  have hopeningWords : (words "CREATE VIEW ".text).map capitals = Form.view.words := by
    decide +kernel
  have hform : Progress.scan ⟨.scanning, residual, statements⟩
      (tokensFrom first "CREATE VIEW ".text) =
        .ok (Progress.capturing ⟨.scanning, residual, statements⟩
          ⟨.view, first, viewOpening, .name, [], []⟩) :=
    Progress.scan_form first rfl hopening hopeningWords
  have htokens : tokensFrom first i.line = tokensFrom first "CREATE VIEW ".text ++
      tokensFrom (first + newlines "CREATE VIEW ".text) (front ++ back) := by
    rw [← hcut.parts]
    exact tokensFrom_append first hopeningEnd (startsWord_body h _)
  refine ⟨⟨.view, nameIn i.text, viewOpening ++ front, first⟩, back, ?_, rfl, rfl,
    fun htight => ?_⟩
  · rw [htokens, Progress.scan_append_of_ok hform]
    rcases hcut.behind with rfl | hback
    · rw [List.append_nil, List.append_nil]
      exact hcut.scan_front h _ _ _
    · rw [tokensFrom_append _ hcut.ends hback,
        Progress.scan_append_of_ok (hcut.scan_front h _ _ _)]
      exact hcut.scan_back hquiet hback _ _ _
  · rw [hcut.parts, hcut.whole htight, List.append_nil]

/-! ## Dumps of views -/

def dump (is : List Identifier) : Text :=
  is.flatMap line

theorem startsWord_line (i : Identifier) : StartsWord i.line := by
  have hopening : StartsWord "CREATE VIEW ".text := by decide
  exact hopening.append _

theorem endsBlank_line (i : Identifier) : EndsBlank i.line :=
  i.endsBlank_body.append _

theorem dump_nil_or_startsWord (is : List Identifier) : dump is = [] ∨ StartsWord (dump is) := by
  cases is with
  | nil => exact .inl rfl
  | cons i rest => exact .inr ((startsWord_line i).append _)

theorem scan_lines {is : List Identifier} (h : ∀ i ∈ is, i.WellFormed)
    (hquiet : ∀ i ∈ is, i.Quiet) (first : Int) (residual : Text)
    (statements : List Statement) :
    ∃ made more, Progress.scan ⟨.scanning, residual, statements⟩ (tokensFrom first (dump is)) =
        .ok ⟨.scanning, residual ++ more, statements ++ made⟩ ∧ List.Forall₂ Makes is made := by
  induction is generalizing first residual statements with
  | nil => exact ⟨[], [], by simp [dump, tokensFrom_nil, Progress.scan], .nil⟩
  | cons i rest ih =>
    obtain ⟨s, more, hscan, hmakes⟩ := scan_line (h i List.mem_cons_self)
      (hquiet i List.mem_cons_self) first residual statements
    obtain ⟨made, others, hrest, hall⟩ := ih (fun j hj => h j (List.mem_cons_of_mem _ hj))
      (fun j hj => hquiet j (List.mem_cons_of_mem _ hj)) (first + newlines i.line)
      (residual ++ more) (statements ++ [s])
    refine ⟨s :: made, more ++ others, ?_, .cons hmakes hall⟩
    have htokens : tokensFrom first (dump (i :: rest)) =
        tokensFrom first i.line ++ tokensFrom (first + newlines i.line) (dump rest) := by
      show tokensFrom first (i.line ++ dump rest) = _
      rcases dump_nil_or_startsWord rest with hnil | hstart
      · rw [hnil, List.append_nil, tokensFrom_nil, List.append_nil]
      · exact tokensFrom_append first i.endsBlank_line hstart
    rw [htokens, Progress.scan_append_of_ok hscan, hrest]
    simp

/-- Each view of the dump makes one statement. -/
theorem statements_of_split {is : List Identifier} (h : ∀ i ∈ is, i.WellFormed)
    (hquiet : ∀ i ∈ is, i.Quiet) {noise : List Text} {s : Split}
    (hsplit : split (dump is) noise = .ok s) : List.Forall₂ Makes is s.statements := by
  obtain ⟨residual, hseparate, _⟩ := separate_of_split hsplit
  obtain ⟨made, more, hscan, hmade⟩ := scan_lines h hquiet 1 [] []
  rw [separate_eq, tokens_of_startsWord (dump_nil_or_startsWord is),
    show Progress.scan {} _ = _ from hscan] at hseparate
  obtain ⟨hmadeAll, _⟩ := Prod.mk.inj (Except.ok.inj hseparate)
  rwa [← hmadeAll]

end Identifier

end Dump
end SchemaLedger
