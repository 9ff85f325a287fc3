import SchemaLedger.Proofs.Text.Word
import SchemaLedger.Text.Line

/-!
# Lines of a text put together

Cut at one of its line breaks, a text has the lines of its two parts, up to an
empty line between them.  A carriage return with the newline behind it is one
break, so there is no cut between these two.
-/

namespace SchemaLedger

theorem isBlank_of_isLineBreak {c : CodePoint} (h : isLineBreak c = true) : isBlank c = true := by
  simp only [isLineBreak, isBlank, Bool.or_eq_true, Bool.and_eq_true, decide_eq_true_eq,
    beq_iff_eq] at h ⊢
  omega

namespace Text

theorem lines_break {c : CodePoint} (hc : isLineBreak c = true) {t : Text}
    (hcut : c = '\r' → t.head? ≠ some (.char '\n')) : lines (c :: t) = [] :: lines t := by
  rw [lines]
  · rw [if_pos hc]
  · rintro rest rfl rfl
    exact hcut rfl rfl

theorem lines_cons {c : CodePoint} (hc : isLineBreak c = false) (t : Text) :
    lines (c :: t) = (c :: (lines t).headD []) :: (lines t).tail := by
  have hcr : c ≠ '\r' := by
    rintro rfl
    exact absurd hc (by decide)
  rw [lines]
  · rw [hc]
    cases lines t <;> rfl
  · rintro rest rfl
    exact absurd rfl hcr

theorem lines_eq_nil {t : Text} : lines t = [] ↔ t = [] := by
  fun_cases lines t <;> simp_all

/-- What a cut at a line break may leave between the lines of the parts. -/
def NoLine (extra : List Text) : Prop :=
  extra = [] ∨ extra = [[]]

/-- A text cut at a line break. -/
theorem lines_append_break (t u : Text) {b : CodePoint} (hb : isLineBreak b = true)
    (hcut : b = '\r' → u.head? ≠ some (.char '\n')) :
    ∃ extra, NoLine extra ∧ lines (t ++ b :: u) = lines t ++ extra ++ lines u := by
  fun_induction lines t with
  | case1 => exact ⟨[[]], .inr rfl, lines_break hb hcut⟩
  | case2 rest ih =>
    obtain ⟨extra, hextra, hrest⟩ := ih
    refine ⟨extra, hextra, ?_⟩
    rw [List.cons_append, List.cons_append, lines, hrest]
    rfl
  | case3 c rest hpair hc ih =>
    by_cases hjoin : c = '\r' ∧ rest = [] ∧ b = '\n'
    · obtain ⟨rfl, rfl, rfl⟩ := hjoin
      refine ⟨[], .inl rfl, ?_⟩
      rw [List.singleton_append, lines]
      simp [lines]
    · obtain ⟨extra, hextra, hrest⟩ := ih
      refine ⟨extra, hextra, ?_⟩
      rw [List.cons_append, lines_break hc, hrest]
      · rfl
      · rintro rfl hhead
        cases rest with
        | nil => exact hjoin ⟨rfl, rfl, by simpa using hhead⟩
        | cons x more =>
          obtain rfl : x = '\n' := by simpa using hhead
          exact hpair more rfl rfl
  | case4 c rest hpair hc hrest _ =>
    obtain rfl := lines_eq_nil.1 hrest
    have hplain : isLineBreak c = false := by simpa using hc
    refine ⟨[], .inl rfl, ?_⟩
    rw [List.singleton_append, lines_cons hplain, lines_break hb hcut]
    rfl
  | case5 c rest hpair hc line below hrest ih =>
    obtain ⟨extra, hextra, hmore⟩ := ih
    have hplain : isLineBreak c = false := by simpa using hc
    refine ⟨extra, hextra, ?_⟩
    rw [List.cons_append, lines_cons hplain, hmore, hrest]
    rfl

/-- Where empty lines do not count, the lines of a text are those of its parts. -/
theorem filter_lines_break {p : Text → Bool} (hp : p [] = false) (t u : Text) {b : CodePoint}
    (hb : isLineBreak b = true) (hcut : b = '\r' → u.head? ≠ some (.char '\n')) :
    (lines (t ++ b :: u)).filter p = (lines t).filter p ++ (lines u).filter p := by
  obtain ⟨extra, hextra, hlines⟩ := lines_append_break t u hb hcut
  have hnone : extra.filter p = [] := by
    rcases hextra with rfl | rfl
    · rfl
    · exact List.filter_cons_of_neg (by simp [hp])
  rw [hlines, List.filter_append, List.filter_append, hnone, List.append_nil]

/-- No character of the text ends a line. -/
def Unbroken (t : Text) : Prop :=
  ∀ c ∈ t, isLineBreak c = false

instance (t : Text) : Decidable (Unbroken t) :=
  decidable_of_iff (t.all (!isLineBreak ·) = true) (by simp [Unbroken])

theorem unbroken_append {t u : Text} : Unbroken (t ++ u) ↔ Unbroken t ∧ Unbroken u :=
  List.forall_mem_append

theorem lines_of_unbroken {t : Text} (ht : Unbroken t) (hne : t ≠ []) : lines t = [t] := by
  induction t with
  | nil => exact absurd rfl hne
  | cons c rest ih =>
    rw [lines_cons (ht c List.mem_cons_self)]
    by_cases hrest : rest = []
    · subst hrest
      rfl
    · rw [ih (fun x hx => ht x (List.mem_cons_of_mem _ hx)) hrest]
      rfl

/-- Lines put together, with a newline behind the last, are cut into the same
lines. -/
theorem lines_unlines {parts : List Text} (hne : parts ≠ [])
    (h : ∀ part ∈ parts, Unbroken part) : lines (unlines parts ++ [.char '\n']) = parts := by
  induction parts with
  | nil => exact absurd rfl hne
  | cons part rest ih =>
    obtain ⟨hpart, hrest⟩ := List.forall_mem_cons.1 h
    cases rest with
    | nil =>
      rw [unlines, joined, List.intercalate_singleton, lines_append_newline hpart]
      rfl
    | cons next more =>
      rw [unlines, joined_cons_cons, List.append_assoc, List.append_assoc, List.singleton_append,
        lines_append_newline hpart]
      exact congrArg (part :: ·) (ih (List.cons_ne_nil _ _) hrest)

theorem mem_unlines {parts : List Text} {c : CodePoint} (h : c ∈ unlines parts) :
    c = '\n' ∨ ∃ part ∈ parts, c ∈ part := by
  induction parts with
  | nil => cases h
  | cons part rest ih =>
    cases rest with
    | nil =>
      rw [unlines, joined, List.intercalate_singleton] at h
      exact .inr ⟨part, List.mem_cons_self, h⟩
    | cons next more =>
      rw [unlines, joined_cons_cons, List.append_assoc, List.singleton_append] at h
      rcases List.mem_append.1 h with hpart | hrest
      · exact .inr ⟨part, List.mem_cons_self, hpart⟩
      · rcases List.mem_cons.1 hrest with hbreak | hrest
        · exact .inl hbreak
        · obtain hbreak | ⟨other, hother, hc⟩ := ih hrest
          · exact .inl hbreak
          · exact .inr ⟨other, List.mem_cons_of_mem _ hother, hc⟩

/-- A piece cut off at a separator is a piece of its own. -/
theorem splitOn_append {c : CodePoint} {piece : Text} (h : c ∉ piece) (rest : Text) :
    splitOn c (piece ++ c :: rest) = piece :: splitOn c rest := by
  induction piece with
  | nil => rw [List.nil_append, splitOn, if_pos rfl]
  | cons x more ih =>
    obtain ⟨hx, hmore⟩ := not_or.1 (List.mem_cons.not.1 h)
    rw [List.cons_append, splitOn, if_neg (Ne.symm hx), ih hmore]

/-- Lines put together, with a newline behind the last, have an empty piece behind
that. -/
theorem splitOn_unlines {parts : List Text} (hne : parts ≠ [])
    (h : ∀ part ∈ parts, .char '\n' ∉ part) :
    splitOn '\n' (unlines parts ++ [.char '\n']) = parts ++ [[]] := by
  induction parts with
  | nil => exact absurd rfl hne
  | cons part rest ih =>
    obtain ⟨hpart, hrest⟩ := List.forall_mem_cons.1 h
    cases rest with
    | nil =>
      rw [unlines, joined, List.intercalate_singleton, splitOn_append hpart]
      rfl
    | cons next more =>
      rw [unlines, joined_cons_cons, List.append_assoc, List.append_assoc, List.singleton_append,
        splitOn_append hpart]
      exact congrArg (part :: ·) (ih (List.cons_ne_nil _ _) hrest)

theorem mem_of_mem_lines {t line : Text} (hline : line ∈ lines t) {c : CodePoint} (hc : c ∈ line) :
    c ∈ t := by
  fun_induction lines t generalizing line with
  | case1 => cases hline
  | case2 rest ih =>
    rcases List.mem_cons.1 hline with rfl | hline
    · cases hc
    · exact List.mem_cons_of_mem _ (List.mem_cons_of_mem _ (ih hline hc))
  | case3 x rest _ hx ih =>
    rcases List.mem_cons.1 hline with rfl | hline
    · cases hc
    · exact List.mem_cons_of_mem _ (ih hline hc)
  | case4 x rest _ hx hrest ih =>
    rw [List.mem_singleton.1 hline, List.mem_singleton] at hc
    exact hc ▸ List.mem_cons_self
  | case5 x rest _ hx first below hrest ih =>
    rw [hrest] at ih
    rcases List.mem_cons.1 hline with rfl | hline
    · rcases List.mem_cons.1 hc with rfl | hc
      · exact List.mem_cons_self
      · exact List.mem_cons_of_mem _ (ih List.mem_cons_self hc)
    · exact List.mem_cons_of_mem _ (ih (List.mem_cons_of_mem _ hline) hc)

/-- Where no carriage return stands a text file is read as it is. -/
theorem unifyNewlines_of_notMem {t : Text} (h : .char '\r' ∉ t) : unifyNewlines t = t := by
  fun_induction unifyNewlines t with
  | case1 => rfl
  | case2 rest ih => exact absurd List.mem_cons_self h
  | case3 c rest _ ih =>
    obtain ⟨hc, hrest⟩ := not_or.1 (List.mem_cons.not.1 h)
    rw [if_neg (Ne.symm hc), ih hrest]

/-! ## Lines with their ends -/

theorem eachLine_cons (line : Text) (rest : List Text) :
    eachLine (line :: rest) = line ++ .char '\n' :: eachLine rest := by
  rw [eachLine, List.flatMap_cons, List.append_assoc, List.singleton_append]
  rfl

theorem eachLine_append (a b : List Text) : eachLine (a ++ b) = eachLine a ++ eachLine b :=
  List.flatMap_append

theorem eachLine_singleton (line : Text) : eachLine [line] = line ++ [.char '\n'] :=
  List.flatMap_singleton _ _

theorem unlines_concat_newline {lines : List Text} (h : lines ≠ []) :
    unlines lines ++ [.char '\n'] = eachLine lines := by
  induction lines with
  | nil => exact absurd rfl h
  | cons line rest ih =>
    cases rest with
    | nil => rw [eachLine_singleton, unlines, joined, List.intercalate_singleton]
    | cons next more =>
      rw [← List.singleton_append, eachLine_append, ← ih (List.cons_ne_nil _ _), eachLine_singleton,
        List.singleton_append, unlines, joined_cons_cons]
      simp only [unlines, List.append_assoc]

theorem lines_eachLine {pieces : List Text}
    (h : ∀ piece ∈ pieces, ∀ c ∈ piece, isLineBreak c = false) :
    lines (eachLine pieces) = pieces := by
  induction pieces with
  | nil => rfl
  | cons piece rest ih =>
    rw [eachLine_cons, lines_append_newline (h piece List.mem_cons_self),
      ih fun p hp => h p (List.mem_cons_of_mem _ hp)]

/-- Behind a line that is not empty one newline stands and not two. -/
theorem eachLine_eq_nil_or {pieces : List Text} (hne : ∀ piece ∈ pieces, piece ≠ [])
    (h : ∀ piece ∈ pieces, Unbroken piece) :
    eachLine pieces = [] ∨ ∃ front, ∃ c : CodePoint, eachLine pieces = front ++ [c, '\n'] ∧
      c ≠ '\n' := by
  rcases List.eq_nil_or_concat pieces with rfl | ⟨others, last, rfl⟩
  · exact .inl rfl
  · have hlast : last ∈ others.concat last := by simp
    obtain ⟨body, c, hbody⟩ := (List.eq_nil_or_concat last).resolve_left (hne last hlast)
    refine .inr ⟨eachLine others ++ body, c, ?_, ?_⟩
    · rw [List.concat_eq_append, eachLine_append, eachLine_singleton, hbody]
      simp
    · rintro rfl
      exact absurd (h last hlast '\n' (by simp [hbody])) (by decide)

/-! ## The open line -/

/-- The text behind the last line break: what more text goes on. -/
def openLine (t : Text) : Text :=
  (t.reverse.takeWhile (!isLineBreak ·)).reverse

theorem not_isLineBreak_of_mem_openLine {t : Text} {c : CodePoint} (h : c ∈ openLine t) :
    isLineBreak c = false := by
  simpa using List.mem_takeWhile_imp (List.mem_reverse.1 h)

theorem openLine_suffix (t : Text) : openLine t <:+ t := by
  have h := (List.takeWhile_prefix (!isLineBreak ·) (l := t.reverse)).reverse
  rwa [List.reverse_reverse] at h

theorem openLine_append_break {t u : Text} {b : CodePoint} (hb : isLineBreak b = true) :
    openLine (t ++ b :: u) = openLine u := by
  have hshape : (t ++ b :: u).reverse = u.reverse ++ b :: t.reverse := by simp
  unfold openLine
  rw [hshape, List.takeWhile_append]
  split
  · next hall => simp [hb, (List.takeWhile_prefix _).eq_of_length hall]
  · rfl

/-- A text is its open line, or it ends a line in front of it. -/
theorem eq_openLine_or (t : Text) :
    openLine t = t ∨ ∃ front b, isLineBreak b = true ∧ t = front ++ b :: openLine t := by
  have hcut : (t.reverse.dropWhile (!isLineBreak ·)).reverse ++ openLine t = t := by
    unfold openLine
    rw [← List.reverse_append, List.takeWhile_append_dropWhile, List.reverse_reverse]
  cases hfront : t.reverse.dropWhile (!isLineBreak ·) with
  | nil =>
    rw [hfront] at hcut
    exact .inl hcut
  | cons b rest =>
    have hb := List.head_dropWhile_not (l := t.reverse) (!isLineBreak ·) (by simp [hfront])
    simp only [hfront, List.head_cons, Bool.not_eq_false'] at hb
    refine .inr ⟨rest.reverse, b, hb, ?_⟩
    rw [hfront] at hcut
    simpa using hcut.symm

theorem head?_openLine_append {t u : Text} (hu : u.head? ≠ some (.char '\n')) :
    (openLine t ++ u).head? ≠ some (.char '\n') := by
  cases hopen : openLine t with
  | nil => exact hu
  | cons c rest =>
    intro hc
    obtain rfl : c = '\n' := by simpa using hc
    exact absurd (not_isLineBreak_of_mem_openLine (hopen ▸ List.mem_cons_self)) (by decide)

/-- Further text goes on the open line. -/
theorem exists_lines_append (t : Text) {u : Text} (hu : u.head? ≠ some (.char '\n')) :
    ∃ front, lines (t ++ u) = front ++ lines (openLine t ++ u) := by
  rcases eq_openLine_or t with hsame | ⟨front, b, hb, hsplit⟩
  · exact ⟨[], by rw [hsame, List.nil_append]⟩
  · obtain ⟨extra, _, hlines⟩ := lines_append_break front (openLine t ++ u) hb fun _ =>
      head?_openLine_append hu
    refine ⟨lines front ++ extra, ?_⟩
    conv_lhs => rw [hsplit]
    rw [List.append_assoc, List.cons_append, hlines]

/-- Every text is one line or is cut at its last line break, and its lines with it. -/
theorem lines_induction {P : Text → Prop} (unbroken : ∀ t, Unbroken t → P t)
    (cut : ∀ front b rest extra, isLineBreak b = true → Unbroken rest → NoLine extra →
      lines (front ++ b :: rest) = lines front ++ extra ++ lines rest → P front →
      P (front ++ b :: rest)) (t : Text) : P t := by
  induction ht : t.length using Nat.strong_induction_on generalizing t with
  | _ n ih =>
    have hopen : Unbroken (openLine t) := fun _ hc => not_isLineBreak_of_mem_openLine hc
    rcases eq_openLine_or t with hsame | ⟨front, b, hb, hsplit⟩
    · exact unbroken t (hsame ▸ hopen)
    · have hhead : (openLine t).head? ≠ some (.char '\n') := by
        rw [← List.append_nil (openLine t)]
        exact head?_openLine_append (by simp)
      obtain ⟨extra, hextra, hlines⟩ := lines_append_break front (openLine t) hb fun _ => hhead
      have hshorter : front.length < n := by
        rw [← ht, hsplit, List.length_append, List.length_cons]
        omega
      rw [hsplit]
      exact cut front b (openLine t) extra hb hopen hextra hlines (ih _ hshorter front rfl)

/-! ## Words of lines -/

theorem NoLine.flatMap_words {extra : List Text} (h : NoLine extra) :
    extra.flatMap words = [] := by
  rcases h with rfl | rfl <;> rfl

/-- No word goes over the end of a line. -/
theorem words_eq_flatMap_lines (t : Text) : words t = (lines t).flatMap words := by
  have hunbroken : ∀ line, Unbroken line → words line = (lines line).flatMap words := by
    intro line hline
    by_cases hnil : line = []
    · rw [hnil]
      rfl
    · rw [lines_of_unbroken hline hnil, List.flatMap_singleton]
  induction t using lines_induction with
  | unbroken t ht => exact hunbroken t ht
  | cut front b rest extra hb hrest hextra hlines ih =>
    rw [words_append_blank front rest (isBlank_of_isLineBreak hb), hlines, List.flatMap_append,
      List.flatMap_append, hextra.flatMap_words, List.append_nil, ← ih, ← hunbroken rest hrest]

end Text
end SchemaLedger
