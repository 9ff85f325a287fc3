import SchemaLedger.Path
import SchemaLedger.Proofs.Text.Utf8
import SchemaLedger.Tree.Name

/-!
# Texts that can be names

A text is usable when the operating system can be given it.  A path is usable
when all its names are, and every name that a folder holds has a usable text.
-/

/-- The name that a string spells. -/
def String.name (s : String) : SchemaLedger.Name :=
  .ofText s.text

namespace SchemaLedger

namespace Text

/-- Neither null nor a surrogate that no byte stands behind. -/
def Usable (t : Text) : Prop :=
  ∀ c ∈ t, (c.isChar = true ∨ c.isEscape = true) ∧ c ≠ '\x00'

instance (t : Text) : Decidable (Usable t) :=
  inferInstanceAs (Decidable (∀ c ∈ t, _))

theorem unencodable?_eq_none {t : Text} :
    t.unencodable? = none ↔ ∀ c ∈ t, c.isChar = true ∨ c.isEscape = true := by
  rw [unencodable?, Utf8.unencodable?_eq_none]
  simp only [Bool.or_eq_true]

theorem unusable?_eq_none {t : Text} : t.unusable? = none ↔ t.Usable := by
  unfold unusable? Usable
  rw [forall₂_and]
  cases h : t.unencodable? with
  | some fault =>
    have hsome : t.unencodable? ≠ none := by simp [h]
    rw [ne_eq, unencodable?_eq_none] at hsome
    simp [hsome]
  | none =>
    rw [and_iff_right (unencodable?_eq_none.1 h)]
    simp only [List.contains_iff_mem, ite_eq_right_iff, reduceCtorEq, imp_false]
    exact ⟨fun hmem c hc heq => hmem (heq ▸ hc), fun hall hmem => hall _ hmem rfl⟩

theorem usable_append {a b : Text} : Usable (a ++ b) ↔ Usable a ∧ Usable b :=
  List.forall_mem_append

theorem Plain.usable {t : Text} (h : t.Plain) (hnull : .char '\x00' ∉ t) : t.Usable :=
  fun c hc => ⟨.inl (h c hc), fun heq => hnull (heq ▸ hc)⟩

end Text

namespace Name

/-- The name of the text of a name is that name. -/
theorem ofText_text (name : Name) : ofText name.text = name := by
  obtain ⟨bytes, hnull⟩ := name
  have hkeep : bytes.filter (· ≠ 0) = bytes :=
    List.filter_eq_self.2 fun b hb => decide_eq_true fun h : b = 0 => hnull (h ▸ hb)
  rw [text, ofText]
  simp only [Utf8.encode_readName, hkeep]

theorem text_injective {a b : Name} (h : a.text = b.text) : a = b := by
  rw [← ofText_text a, h, ofText_text]

theorem usable_text (name : Name) : name.text.Usable := by
  intro c hc
  refine ⟨Utf8.fits_of_mem_readName hc, ?_⟩
  rintro rfl
  refine name.noNull ?_
  rw [← Utf8.encode_readName name.bytes]
  exact List.mem_flatMap.2 ⟨_, hc, by decide⟩

theorem bytes_ofText {t : Text} (h : t.Usable) : (ofText t).bytes = Utf8.encode t := by
  refine List.filter_eq_self.2 fun b hb => decide_eq_true ?_
  rintro rfl
  exact (h _ (Utf8.char_mem_of_mem_encode hb (by decide))).2 rfl

/-- A plain text is read back from its name. -/
theorem text_ofText {t : Text} (hplain : t.Plain) (hnull : .char '\x00' ∉ t) :
    (ofText t).text = t := by
  rw [text, bytes_ofText (hplain.usable hnull), Utf8.readName_encode hplain]

theorem eq_of_ofText_eq {a b : Text} (ha : a.Plain) (hb : b.Plain) (ha' : a.Usable)
    (hb' : b.Usable) (h : ofText a = ofText b) : a = b := by
  have hnull : ∀ {t : Text}, t.Usable → .char '\x00' ∉ t := fun husable hmem =>
    (husable _ hmem).2 rfl
  rw [← text_ofText ha (hnull ha'), h, text_ofText hb (hnull hb')]

end Name

namespace Path

theorem usable_joined {names : List Text} :
    (Text.joined [.char '/'] names).Usable ↔ ∀ name ∈ names, name.Usable := by
  have hslash : Text.Usable [.char '/'] := by decide
  induction names with
  | nil => simp [Text.joined, Text.Usable]
  | cons name rest ih =>
    cases rest with
    | nil => simp [Text.joined]
    | cons next more =>
      have hrest : (Text.joined [.char '/'] (next :: more)).Usable ↔
          ∀ name ∈ next :: more, name.Usable := ih
      simp only [Text.joined_cons_cons, Text.usable_append, hrest, hslash, and_true,
        List.forall_mem_cons]

theorem usable_text_iff {p : Path} : p.text.Usable ↔ ∀ name ∈ p.names, name.Usable := by
  unfold text
  split
  · next hempty =>
    have hdot : Text.Usable [.char '.'] := by decide
    simp [hempty.2, hdot]
  · have hanchor : p.anchor.text.Usable := by
      cases p.anchor <;> decide
    rw [Text.usable_append, usable_joined, and_iff_right hanchor]

theorem usable_child {p : Path} {name : Text} :
    (p.child name).text.Usable ↔ p.text.Usable ∧ name.Usable := by
  simp only [usable_text_iff, child, List.forall_mem_append, List.forall_mem_singleton]

theorem usable_parent {p : Path} (h : p.text.Usable) : p.parent.text.Usable :=
  usable_text_iff.2 fun name hname =>
    usable_text_iff.1 h name ((List.dropLast_sublist _).subset hname)

end Path

end SchemaLedger
