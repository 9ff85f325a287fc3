import Mathlib.Data.List.Infix
import SchemaLedger.Proofs.Dump.Token

/-!
# Dollar quotes

A dollar quote is a name between two dollar signs.  A word that starts with one
starts with exactly one, whatever follows, so a quote is recognised in front of
any body.
-/

namespace SchemaLedger

namespace Text

theorem hasInfix_iff {part t : Text} : hasInfix part t = true ↔ part <:+: t := by
  induction t with
  | nil => simp [hasInfix]
  | cons c rest ih =>
    rw [hasInfix, Bool.or_eq_true, ih, List.isPrefixOf_iff_prefix, List.infix_cons_iff]

theorem hasInfix_eq_false_iff {part t : Text} : hasInfix part t = false ↔ ¬ part <:+: t := by
  rw [← hasInfix_iff, Bool.not_eq_true]

end Text

namespace Dump

open Text

/-- A name that may stand between the dollar signs, the empty one included. -/
def IsTagName (name : Text) : Prop :=
  (∀ c ∈ name.head?, isTagStart c = true) ∧ ∀ c ∈ name, isTagChar c = true

instance (name : Text) : Decidable (IsTagName name) :=
  decidable_of_iff (name.head?.all isTagStart = true ∧ name.all isTagChar = true) (by
    rw [IsTagName, Option.all_eq_true, List.all_eq_true]
    rfl)

def dollarQuote (name : Text) : Text :=
  .char '$' :: name ++ [.char '$']

def StartsWithQuote (word : Text) : Prop :=
  ∃ name, IsTagName name ∧ dollarQuote name <+: word

theorem isTagChar_dollar : isTagChar '$' = false := by decide

theorem not_isBlank_of_isTagChar {c : CodePoint} (h : isTagChar c = true) : isBlank c = false := by
  have hrange : c.isAlpha = true ∨ c = '_' ∨ c.isDigit = true := by
    simp only [isTagChar, isTagStart, Bool.or_eq_true, beq_iff_eq] at h
    tauto
  cases hblank : isBlank c with
  | false => rfl
  | true =>
    exfalso
    simp only [isBlank, Bool.or_eq_true, Bool.and_eq_true, decide_eq_true_eq, beq_iff_eq]
      at hblank
    rcases hrange with hletter | rfl | hdigit
    · simp only [CodePoint.isAlpha, CodePoint.isUpper, CodePoint.isLower, Bool.or_eq_true,
        Bool.and_eq_true, decide_eq_true_eq] at hletter
      omega
    · simp at hblank
    · simp only [CodePoint.isDigit, Bool.and_eq_true, decide_eq_true_eq] at hdigit
      omega

theorem isWord_dollarQuote {name : Text} (h : IsTagName name) : IsWord (dollarQuote name) := by
  refine ⟨by simp [dollarQuote], fun c hc => ?_⟩
  have hdollar : isBlank '$' = false := by decide
  simp only [dollarQuote, List.cons_append, List.mem_cons, List.mem_append,
    List.not_mem_nil, or_false] at hc
  rcases hc with rfl | hc | rfl
  · exact hdollar
  · exact not_isBlank_of_isTagChar (h.2 c hc)
  · exact hdollar

theorem endsStatement_append_dollarQuote (t name : Text) :
    endsStatement (t ++ dollarQuote name) = false := by
  unfold endsStatement dollarQuote
  rw [← List.append_assoc, List.getLast?_append_of_ne_nil _ (List.cons_ne_nil _ _)]
  rfl

theorem dollarTag?_dollarQuote_append {name : Text} (h : IsTagName name) (rest : Text) :
    dollarTag? (dollarQuote name ++ rest) = some (dollarQuote name) := by
  cases name with
  | nil => rfl
  | cons c more =>
    have hstart : isTagStart c = true := h.1 c rfl
    have hmore : ∀ x ∈ more, isTagChar x = true := fun x hx => h.2 x (List.mem_cons_of_mem _ hx)
    have hne : c ≠ '$' := by
      rintro rfl
      exact absurd hstart (by decide)
    have hdrop : (more ++ .char '$' :: rest).dropWhile isTagChar = .char '$' :: rest := by
      rw [List.dropWhile_append_of_pos hmore]
      simp [isTagChar_dollar]
    have htake : (more ++ .char '$' :: rest).takeWhile isTagChar = more := by
      rw [List.takeWhile_append_of_pos hmore]
      simp [isTagChar_dollar]
    have hshape : dollarQuote (c :: more) ++ rest =
        .char '$' :: c :: (more ++ .char '$' :: rest) := by
      simp [dollarQuote]
    rw [hshape, dollarTag?]
    · rw [if_pos hstart, hdrop, htake]
      rfl
    · exact hne

theorem startsWithQuote_of_dollarTag? {word tag : Text} (h : dollarTag? word = some tag) :
    ∃ name, IsTagName name ∧ tag = dollarQuote name ∧ tag <+: word := by
  unfold dollarTag? at h
  split at h
  · next rest =>
    cases h
    exact ⟨[], ⟨nofun, nofun⟩, rfl, ⟨rest, rfl⟩⟩
  · next c rest _ =>
    split at h
    · next hstart =>
      split at h
      · next behind hdrop =>
        cases h
        refine ⟨c :: rest.takeWhile isTagChar, ⟨?_, ?_⟩, rfl, ⟨behind, ?_⟩⟩
        · rintro x hx
          cases hx
          exact hstart
        · intro x hx
          rcases List.mem_cons.1 hx with rfl | hx
          · simp [isTagChar, hstart]
          · exact List.mem_takeWhile_imp hx
        · have hrest := List.takeWhile_append_dropWhile (p := isTagChar) (l := rest)
          rw [hdrop] at hrest
          simp [hrest]
      · cases h
    · cases h
  · cases h

theorem dollarTag?_eq_none_iff {word : Text} :
    dollarTag? word = none ↔ ¬ StartsWithQuote word := by
  constructor
  · rintro h ⟨name, hname, rest, rfl⟩
    rw [dollarTag?_dollarQuote_append hname] at h
    cases h
  · intro h
    cases htag : dollarTag? word with
    | none => rfl
    | some tag =>
      obtain ⟨name, hname, rfl, hpre⟩ := startsWithQuote_of_dollarTag? htag
      exact absurd ⟨name, hname, hpre⟩ h

instance (word : Text) : Decidable (StartsWithQuote word) :=
  decidable_of_iff (dollarTag? word ≠ none) (dollarTag?_eq_none_iff.not.trans Classical.not_not)

end Dump
end SchemaLedger
