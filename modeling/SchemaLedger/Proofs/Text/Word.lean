import Mathlib.Data.List.SplitBy
import Mathlib.Data.List.TakeWhile
import SchemaLedger.Proofs.Text.CodePoint
import SchemaLedger.Text.Blank

/-!
# Words and gaps

A text that starts with a word is cut into pieces, each a word with the blanks
behind it.  The cut of two texts put together is the two cuts put together where
a blank meets a word, and this is what lets a long text be taken apart.
-/

namespace SchemaLedger
namespace Text

/-- The first character belongs to a word. -/
def StartsWord (t : Text) : Prop :=
  t.head?.map isBlank = some false

def EndsBlank (t : Text) : Prop :=
  t.getLast?.map isBlank = some true

instance (t : Text) : Decidable (StartsWord t) :=
  inferInstanceAs (Decidable (_ = _))

instance (t : Text) : Decidable (EndsBlank t) :=
  inferInstanceAs (Decidable (_ = _))

def IsWord (w : Text) : Prop :=
  w ≠ [] ∧ ∀ c ∈ w, isBlank c = false

-- by the elements of the list: the quantifier alone would go through all characters
instance (w : Text) : Decidable (IsWord w) :=
  decidable_of_iff (w ≠ [] ∧ w.all (!isBlank ·) = true) (by simp [IsWord])

def IsGap (g : Text) : Prop :=
  ∀ c ∈ g, isBlank c = true

theorem not_isBlankText_iff {t : Text} : (!isBlankText t) = true ↔ ¬IsGap t := by
  rw [Bool.not_eq_true', ← Bool.not_eq_true, isBlankText, List.all_eq_true]
  rfl

/-! ## Ends of texts -/

theorem startsWord_cons {c : CodePoint} {t : Text} : StartsWord (c :: t) ↔ isBlank c = false := by
  simp [StartsWord]

theorem StartsWord.ne_nil {t : Text} (h : StartsWord t) : t ≠ [] := by
  rintro rfl
  simp [StartsWord] at h

theorem EndsBlank.ne_nil {t : Text} (h : EndsBlank t) : t ≠ [] := by
  rintro rfl
  simp [EndsBlank] at h

theorem StartsWord.append {t : Text} (h : StartsWord t) (u : Text) : StartsWord (t ++ u) := by
  obtain ⟨c, rest, rfl⟩ := List.exists_cons_of_ne_nil h.ne_nil
  exact startsWord_cons.2 (startsWord_cons.1 h)

theorem startsWord_of_append {t u : Text} (ht : t ≠ []) (h : StartsWord (t ++ u)) :
    StartsWord t := by
  obtain ⟨c, rest, rfl⟩ := List.exists_cons_of_ne_nil ht
  exact startsWord_cons.2 (startsWord_cons.1 h)

theorem EndsBlank.append {u : Text} (h : EndsBlank u) (t : Text) : EndsBlank (t ++ u) := by
  have hne := h.ne_nil
  unfold EndsBlank at h ⊢
  rw [List.getLast?_append_of_ne_nil t hne]
  exact h

theorem endsBlank_append {t u : Text} (hu : u ≠ []) : EndsBlank (t ++ u) ↔ EndsBlank u := by
  unfold EndsBlank
  rw [List.getLast?_append_of_ne_nil t hu]

theorem IsWord.startsWord {w : Text} (h : IsWord w) : StartsWord w := by
  obtain ⟨c, rest, rfl⟩ := List.exists_cons_of_ne_nil h.1
  exact startsWord_cons.2 (h.2 c List.mem_cons_self)

theorem isGap_singleton {c : CodePoint} (h : isBlank c = true) : IsGap [c] := by
  intro x hx
  rw [List.mem_singleton.1 hx]
  exact h

theorem endsBlank_of_isGap {g : Text} (hne : g ≠ []) (h : IsGap g) : EndsBlank g := by
  unfold EndsBlank
  rw [List.getLast?_eq_getLast_of_ne_nil hne]
  simp [h _ (List.getLast_mem hne)]

theorem not_endsBlank_of_isWord {w : Text} (h : IsWord w) : ¬ EndsBlank w := by
  unfold EndsBlank
  rw [List.getLast?_eq_getLast_of_ne_nil h.1]
  simp [h.2 _ (List.getLast_mem h.1)]

theorem endsBlank_of_newline {t : Text} (h : t.getLast? = some (.char '\n')) : EndsBlank t := by
  unfold EndsBlank
  rw [h]
  rfl

/-! ## Trimming -/

theorem trimLeft_of_startsWord {t : Text} (h : StartsWord t) : trimLeft t = t := by
  obtain ⟨c, rest, rfl⟩ := List.exists_cons_of_ne_nil h.ne_nil
  simp [trimLeft, startsWord_cons.1 h]

theorem trimLeft_gap_append {g : Text} (h : IsGap g) (t : Text) :
    trimLeft (g ++ t) = trimLeft t :=
  List.dropWhile_append_of_pos h

theorem trimLeft_eq_nil_or_startsWord (t : Text) : trimLeft t = [] ∨ StartsWord (trimLeft t) := by
  cases h : trimLeft t with
  | nil => exact .inl rfl
  | cons c rest =>
    have hc := List.head?_dropWhile_not isBlank t
    rw [show t.dropWhile isBlank = c :: rest from h] at hc
    exact .inr (startsWord_cons.2 (by simpa using hc))

theorem isGap_leadingBlanks (t : Text) : IsGap (leadingBlanks t) :=
  fun _ hc => List.mem_takeWhile_imp hc

theorem trimRight_append_gap {g : Text} (hg : IsGap g) (t : Text) :
    trimRight (t ++ g) = trimRight t := by
  have hrev : ∀ c ∈ g.reverse, isBlank c = true := fun c hc => hg c (List.mem_reverse.1 hc)
  unfold trimRight dropEndWhile
  rw [List.reverse_append, List.dropWhile_append_of_pos hrev]

theorem trimRight_append_word {w : Text} (hw : IsWord w) (t : Text) :
    trimRight (t ++ w) = t ++ w := by
  obtain ⟨c, rest, hcons⟩ := List.exists_cons_of_ne_nil (List.reverse_ne_nil_iff.2 hw.1)
  have hc : isBlank c = false := hw.2 c (List.mem_reverse.1 (hcons ▸ List.mem_cons_self))
  unfold trimRight dropEndWhile
  rw [List.reverse_append, hcons, List.cons_append, List.dropWhile_cons_of_neg (by simp [hc]),
    ← List.cons_append, ← hcons, ← List.reverse_append, List.reverse_reverse]

theorem trimRight_semicolon (t : Text) : trimRight (t ++ [.char ';']) = t ++ [.char ';'] :=
  trimRight_append_word (by decide) t

theorem trimRight_word_append_gap {w g : Text} (hw : IsWord w) (hg : IsGap g) :
    trimRight (w ++ g) = w := by
  rw [trimRight_append_gap hg]
  exact trimRight_append_word hw []

theorem trim_word_append_gap {w g : Text} (hw : IsWord w) (hg : IsGap g) :
    trim (w ++ g) = w := by
  unfold trim
  rw [trimLeft_of_startsWord (hw.startsWord.append g), trimRight_word_append_gap hw hg]

/-! ## Pieces -/

theorem flatten_wordsWithGaps (t : Text) : (wordsWithGaps t).flatten = t :=
  List.flatten_splitBy _ t

theorem wordsWithGaps_append {t u : Text} (ht : EndsBlank t) (hu : StartsWord u) :
    wordsWithGaps (t ++ u) = wordsWithGaps t ++ wordsWithGaps u := by
  refine List.splitBy_append fun x hx y hy => ?_
  have hxb : isBlank x = true := by
    unfold EndsBlank at ht
    rw [Option.mem_def.1 hx] at ht
    simpa using ht
  have hyb : isBlank y = false := by
    unfold StartsWord at hu
    rw [Option.mem_def.1 hy] at hu
    simpa using hu
  simp [hxb, hyb]

theorem wordsWithGaps_word_append_gap {w g : Text} (hw : IsWord w) (hg : IsGap g) :
    wordsWithGaps (w ++ g) = [w ++ g] := by
  refine List.splitBy_of_isChain (by simp [hw.1]) ?_
  refine List.isChain_append.2 ⟨?_, ?_, ?_⟩
  · exact (List.pairwise_of_forall_mem_list fun a ha _ _ => by simp [hw.2 a ha]).isChain
  · exact (List.pairwise_of_forall_mem_list fun _ _ b hb => by simp [hg b hb]).isChain
  · intro a ha _ _
    simp [hw.2 a (List.mem_of_mem_getLast? ha)]

/-- Behind the first blank of a piece nothing but blanks follows. -/
theorem exists_word_append_gap {p : Text} (hp : StartsWord p)
    (hchain : p.IsChain fun a b => !(isBlank a && !isBlank b)) :
    ∃ w g, p = w ++ g ∧ IsWord w ∧ IsGap g := by
  refine ⟨p.takeWhile (!isBlank ·), p.dropWhile (!isBlank ·),
    List.takeWhile_append_dropWhile.symm, ⟨?_, ?_⟩, ?_⟩
  · obtain ⟨c, rest, rfl⟩ := List.exists_cons_of_ne_nil hp.ne_nil
    simp [startsWord_cons.1 hp]
  · intro c hc
    simpa using List.mem_takeWhile_imp hc
  · have hgap : (p.dropWhile (!isBlank ·)).IsChain fun a b => !(isBlank a && !isBlank b) :=
      hchain.suffix (List.dropWhile_suffix _)
    refine List.IsChain.induction (isBlank · = true) _ hgap ?_ ?_
    · intro a b hab ha
      simpa [ha] using hab
    · intro hne
      simpa using List.head_dropWhile_not (!isBlank ·) hne

theorem startsWord_of_mem_wordsWithGaps {t p : Text} (ht : StartsWord t)
    (hp : p ∈ wordsWithGaps t) : StartsWord p := by
  have hcut := List.isChain_getLast_head_splitBy (fun a b => !(isBlank a && !isBlank b)) t
  refine List.IsChain.induction StartsWord _ hcut ?_ ?_ p hp
  · rintro a b ⟨ha, hb, hab⟩ -
    unfold StartsWord
    rw [List.head?_eq_some_head hb]
    simp only [Bool.not_eq_false', Bool.and_eq_true, Bool.not_eq_true'] at hab
    simp [hab.2]
  · intro hne
    have hhead := List.head_head_splitBy (fun a b => !(isBlank a && !isBlank b)) ht.ne_nil
    unfold StartsWord at ht ⊢
    rw [List.head?_eq_some_head (List.ne_nil_of_mem_splitBy (List.head_mem hne)), hhead]
    rwa [List.head?_eq_some_head] at ht

/-- A piece is its word with blanks behind it. -/
theorem exists_gap_of_mem_wordsWithGaps {t p : Text} (ht : StartsWord t)
    (hp : p ∈ wordsWithGaps t) : IsWord (trim p) ∧ ∃ g, IsGap g ∧ p = trim p ++ g := by
  obtain ⟨w, g, rfl, hw, hg⟩ := exists_word_append_gap (startsWord_of_mem_wordsWithGaps ht hp)
    (List.isChain_of_mem_splitBy hp)
  rw [trim_word_append_gap hw hg]
  exact ⟨hw, g, hg, rfl⟩

theorem endsBlank_of_mem_wordsWithGaps {t p : Text} (ht : EndsBlank t)
    (hp : p ∈ wordsWithGaps t) : EndsBlank p := by
  obtain ⟨front, back, hsplit⟩ := List.append_of_mem hp
  have hcut := List.isChain_getLast_head_splitBy (fun a b => !(isBlank a && !isBlank b)) t
  rw [show t.splitBy _ = front ++ p :: back from hsplit] at hcut
  cases back with
  | nil =>
    have hflat := flatten_wordsWithGaps t
    rw [hsplit, List.flatten_append] at hflat
    rw [← hflat] at ht
    have hp' : p ≠ [] := List.ne_nil_of_mem_splitBy hp
    simpa using (endsBlank_append (by simpa using hp')).1 ht
  | cons next more =>
    obtain ⟨hne, _, hbreak⟩ := (List.isChain_cons_cons.1 (List.isChain_append.1 hcut).2.1).1
    unfold EndsBlank
    rw [List.getLast?_eq_getLast_of_ne_nil hne]
    simp only [Bool.not_eq_false', Bool.and_eq_true] at hbreak
    simp [hbreak.1]

/-- Only the last piece of a text may end in a word. -/
theorem endsBlank_of_mem_dropLast {t p : Text} (h : p ∈ (wordsWithGaps t).dropLast) :
    EndsBlank p := by
  obtain ⟨front, back, hsplit⟩ := List.append_of_mem h
  have hne : wordsWithGaps t ≠ [] := by
    intro hnil
    rw [hnil] at h
    cases h
  have hcut := List.isChain_getLast_head_splitBy (fun a b => !(isBlank a && !isBlank b)) t
  have hpieces : wordsWithGaps t = front ++ p :: (back ++ [(wordsWithGaps t).getLast hne]) := by
    rw [← List.cons_append, ← List.append_assoc, ← hsplit, List.dropLast_append_getLast]
  obtain ⟨next, more, hnext⟩ := List.exists_cons_of_ne_nil
    (show back ++ [(wordsWithGaps t).getLast hne] ≠ [] by simp)
  rw [show t.splitBy _ = _ from hpieces, hnext] at hcut
  obtain ⟨hpne, _, hbreak⟩ := (List.isChain_cons_cons.1 (List.isChain_append.1 hcut).2.1).1
  simp only [Bool.not_eq_false', Bool.and_eq_true] at hbreak
  unfold EndsBlank
  rw [List.getLast?_eq_getLast_of_ne_nil hpne, Option.map_some, hbreak.1]

/-! ## Words -/

theorem words_of_startsWord {t : Text} (h : StartsWord t) :
    words t = (wordsWithGaps t).map trim := by
  rw [words, trimLeft_of_startsWord h]

theorem words_ne_nil {t : Text} (h : StartsWord t) : words t ≠ [] := by
  intro hnil
  rw [words_of_startsWord h, List.map_eq_nil_iff] at hnil
  have hflat := flatten_wordsWithGaps t
  rw [hnil] at hflat
  exact h.ne_nil hflat.symm

theorem trimLeft_append {t u : Text} (hu : StartsWord u) :
    trimLeft (t ++ u) = trimLeft t ++ u := by
  have hrest : u.dropWhile isBlank = u := trimLeft_of_startsWord hu
  unfold trimLeft
  rw [List.dropWhile_append, hrest]
  split
  · next hnil => rw [List.isEmpty_iff.1 hnil, List.nil_append]
  · rfl

theorem leadingBlanks_append {t u : Text} (hu : StartsWord u) :
    leadingBlanks (t ++ u) = leadingBlanks t := by
  have hwhole := leadingBlanks_append_trimLeft (t ++ u)
  rw [trimLeft_append hu, ← List.append_assoc] at hwhole
  have hfront := List.append_cancel_right hwhole
  refine List.append_cancel_right (hfront.trans ?_)
  exact (leadingBlanks_append_trimLeft t).symm

theorem leadingBlanks_of_startsWord {t : Text} (h : StartsWord t) : leadingBlanks t = [] :=
  leadingBlanks_append (t := []) h

theorem words_append {t u : Text} (ht : t = [] ∨ EndsBlank t) (hu : StartsWord u) :
    words (t ++ u) = words t ++ words u := by
  rcases ht with rfl | ht
  · simp [words, trimLeft, wordsWithGaps]
  · rcases trimLeft_eq_nil_or_startsWord t with hnil | hstart
    · simp [words, trimLeft_append hu, hnil, trimLeft_of_startsWord hu, wordsWithGaps]
    · have hends : EndsBlank (trimLeft t) := by
        rw [← leadingBlanks_append_trimLeft t] at ht
        exact (endsBlank_append hstart.ne_nil).1 ht
      rw [words, words, words, trimLeft_append hu, wordsWithGaps_append hends hu, List.map_append,
        trimLeft_of_startsWord hu]

theorem words_word_append_gap {w g : Text} (hw : IsWord w) (hg : IsGap g) :
    words (w ++ g) = [w] := by
  rw [words_of_startsWord (hw.startsWord.append g), wordsWithGaps_word_append_gap hw hg,
    List.map_singleton, trim_word_append_gap hw hg]

/-- A gap in front of a text adds no word. -/
theorem words_gap_append {g : Text} (hg : IsGap g) (t : Text) : words (g ++ t) = words t := by
  rw [words, words, trimLeft_gap_append hg]

theorem words_word_append_gap_append {w g t : Text} (hw : IsWord w) (hg : IsGap g)
    (hne : g ≠ []) (ht : t = [] ∨ StartsWord t) : words (w ++ g ++ t) = w :: words t := by
  rcases ht with rfl | ht
  · rw [List.append_nil, words_word_append_gap hw hg]
    rfl
  · rw [words_append (.inr ((endsBlank_of_isGap hne hg).append w)) ht,
      words_word_append_gap hw hg, List.singleton_append]

/-- A text that ends in a blank is a first word, which may be empty, the blanks
behind it and the rest. -/
theorem exists_first_word {t : Text} (ht : EndsBlank t) :
    ∃ first gap more, t = first ++ gap ++ more ∧ (∀ c ∈ first, isBlank c = false) ∧
      IsGap gap ∧ gap ≠ [] ∧ (more = [] ∨ StartsWord more ∧ EndsBlank more) := by
  have hcut : t.takeWhile (!isBlank ·) ++ t.dropWhile (!isBlank ·) = t :=
    List.takeWhile_append_dropWhile
  have hfirst : ∀ c ∈ t.takeWhile (!isBlank ·), isBlank c = false := fun c hc => by
    simpa using List.mem_takeWhile_imp hc
  have hrest : t.dropWhile (!isBlank ·) ≠ [] := by
    intro hnil
    rw [hnil, List.append_nil] at hcut
    rw [hcut] at hfirst
    exact not_endsBlank_of_isWord ⟨ht.ne_nil, hfirst⟩ ht
  have hgap := leadingBlanks_append_trimLeft (t.dropWhile (!isBlank ·))
  refine ⟨t.takeWhile (!isBlank ·), leadingBlanks (t.dropWhile (!isBlank ·)),
    trimLeft (t.dropWhile (!isBlank ·)), ?_, hfirst, isGap_leadingBlanks _, ?_, ?_⟩
  · rw [List.append_assoc, hgap, hcut]
  · obtain ⟨c, more, hcons⟩ := List.exists_cons_of_ne_nil hrest
    have hblank : isBlank c = true := by
      simpa [hcons] using List.head_dropWhile_not (!isBlank ·) hrest
    simp [hcons, leadingBlanks, hblank]
  · refine (trimLeft_eq_nil_or_startsWord _).imp id fun hstart => ⟨hstart, ?_⟩
    rw [← hcut, ← hgap] at ht
    exact (endsBlank_append hstart.ne_nil).1
      ((endsBlank_append (by simp [hstart.ne_nil])).1 ht)

/-- Every text is a front that ends where a word may start and a rest without
blanks. -/
theorem exists_front_append_word (t : Text) :
    ∃ front back, t = front ++ back ∧ (front = [] ∨ EndsBlank front) ∧
      ∀ c ∈ back, isBlank c = false := by
  refine ⟨(t.reverse.dropWhile (!isBlank ·)).reverse, (t.reverse.takeWhile (!isBlank ·)).reverse,
    ?_, ?_, ?_⟩
  · rw [← List.reverse_append, List.takeWhile_append_dropWhile, List.reverse_reverse]
  · cases h : t.reverse.dropWhile (!isBlank ·) with
    | nil => exact .inl rfl
    | cons c rest =>
      have hc := List.head_dropWhile_not (l := t.reverse) (!isBlank ·) (by simp [h])
      refine .inr ?_
      simp only [h, List.head_cons, Bool.not_eq_false'] at hc
      simp [EndsBlank, hc]
  · intro c hc
    simpa using List.mem_takeWhile_imp (List.mem_reverse.1 hc)

theorem trimRight_append_trailingBlanks (t : Text) : trimRight t ++ trailingBlanks t = t := by
  unfold trimRight dropEndWhile trailingBlanks
  rw [← List.reverse_append, List.takeWhile_append_dropWhile, List.reverse_reverse]

theorem isChar_of_isBlank {c : CodePoint} (h : isBlank c = true) : c.isChar = true := by
  cases c with
  | char c => rfl
  | surrogate offset =>
    simp only [isBlank, Bool.or_eq_true, Bool.and_eq_true, decide_eq_true_eq, beq_iff_eq] at h
    simp only [CodePoint.toNat, CodePoint.firstSurrogate] at h
    omega

theorem plain_of_trimRight {t : Text} (h : (trimRight t).Plain) : t.Plain := by
  rw [← trimRight_append_trailingBlanks t]
  exact plain_append.2 ⟨h, fun _ hc =>
    isChar_of_isBlank (List.mem_takeWhile_imp (List.mem_reverse.1 hc))⟩

theorem isGap_trailingBlanks (t : Text) : IsGap (trailingBlanks t) :=
  fun _ hc => List.mem_takeWhile_imp (List.mem_reverse.1 hc)

theorem words_of_isGap {g : Text} (h : IsGap g) : words g = [] := by
  have := words_gap_append h []
  rwa [List.append_nil] at this

/-- Behind a trimmed text blanks add no word. -/
theorem words_trimRight_append {g : Text} (hg : IsGap g) (t : Text) :
    words (trimRight t ++ g) = words (trimRight t) := by
  by_cases hnil : trimRight t = []
  · rw [hnil, List.nil_append, words_of_isGap hg]
    rfl
  obtain ⟨front, back, hsplit, hfront, hback⟩ := exists_front_append_word (trimRight t)
  have hne : back ≠ [] := by
    intro hempty
    rw [hempty, List.append_nil] at hsplit
    rw [hsplit] at hnil
    have hlast := List.head?_dropWhile_not isBlank t.reverse
    have hend : EndsBlank (trimRight t) := by
      rw [hsplit]
      exact hfront.resolve_left hnil
    unfold EndsBlank trimRight dropEndWhile at hend
    rw [List.getLast?_reverse] at hend
    cases hhead : (t.reverse.dropWhile isBlank).head? with
    | none => simp [hhead] at hend
    | some c =>
      rw [hhead] at hlast hend
      simp_all
  have hword : IsWord back := ⟨hne, hback⟩
  have hlast : words back = [back] := by
    have := words_word_append_gap hword (g := []) (by simp [IsGap])
    rwa [List.append_nil] at this
  rw [hsplit, List.append_assoc, words_append hfront (hword.startsWord.append g),
    words_append hfront hword.startsWord, words_word_append_gap hword hg, hlast]

/-- Blanks behind a text add no word. -/
theorem words_append_gap (t : Text) {g : Text} (hg : IsGap g) : words (t ++ g) = words t := by
  have hsplit := trimRight_append_trailingBlanks t
  have hgap := isGap_trailingBlanks t
  have hboth : IsGap (trailingBlanks t ++ g) := fun c hc =>
    (List.mem_append.1 hc).elim (hgap c) (hg c)
  calc words (t ++ g) = words (trimRight t ++ (trailingBlanks t ++ g)) := by
        rw [← List.append_assoc, hsplit]
    _ = words (trimRight t) := words_trimRight_append hboth t
    _ = words (trimRight t ++ trailingBlanks t) := (words_trimRight_append hgap t).symm
    _ = words t := by rw [hsplit]

/-- A blank ends a word wherever it stands. -/
theorem words_append_blank (t u : Text) {c : CodePoint} (hc : isBlank c = true) :
    words (t ++ c :: u) = words t ++ words u := by
  have hgap : IsGap (c :: leadingBlanks u) := fun x hx =>
    (List.mem_cons.1 hx).elim (fun h => h ▸ hc) (isGap_leadingBlanks u x)
  have hshape : t ++ c :: u = (t ++ c :: leadingBlanks u) ++ trimLeft u := by
    rw [List.append_assoc, List.cons_append, leadingBlanks_append_trimLeft]
  have hrest : words u = words (trimLeft u) := by
    conv_lhs => rw [← leadingBlanks_append_trimLeft u]
    exact words_gap_append (isGap_leadingBlanks u) _
  rw [hshape, hrest]
  rcases trimLeft_eq_nil_or_startsWord u with hnil | hstart
  · rw [hnil, List.append_nil, words_append_gap t hgap]
    exact (List.append_nil _).symm
  · have hend : EndsBlank (t ++ c :: leadingBlanks u) :=
      (endsBlank_of_isGap (List.cons_ne_nil _ _) hgap).append t
    rw [words_append (.inr hend) hstart, words_append_gap t hgap]

end Text
end SchemaLedger
