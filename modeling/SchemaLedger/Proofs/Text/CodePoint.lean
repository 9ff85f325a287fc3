import Mathlib.Order.Lattice
import SchemaLedger.Text.Basic

/-!
# Code points and their numbers

Code points are as many numbers, in their order.  A text is plain when no
surrogate is in it.
-/

theorem String.text_append (a b : String) : (a ++ b).text = a.text ++ b.text := by
  unfold String.text
  rw [String.toList_append, List.map_append]

namespace SchemaLedger

namespace CodePoint

instance : LinearOrder CodePoint :=
  LinearOrder.lift' CodePoint.toNat fun _ _ => CodePoint.toNat_injective

theorem toNat_inj {a b : CodePoint} : a.toNat = b.toNat ↔ a = b :=
  ⟨toNat_injective, congrArg toNat⟩

theorem isDigit_iff {c : CodePoint} :
    c.isDigit = true ↔ '0'.toNat ≤ c.toNat ∧ c.toNat ≤ '9'.toNat := by
  rw [isDigit, Bool.and_eq_true, decide_eq_true_eq, decide_eq_true_eq]
  rfl

theorem isDigit_char (c : Char) : (char c).isDigit = c.isDigit := rfl

theorem isChar_of_isDigit {c : CodePoint} (h : c.isDigit = true) : c.isChar = true := by
  cases c with
  | char c => rfl
  | surrogate offset =>
    obtain ⟨_, hhigh⟩ := isDigit_iff.1 h
    exact absurd (Nat.le_trans (Nat.le_add_right firstSurrogate _) hhigh) (by decide)

theorem ofNat_toNat (c : CodePoint) : ofNat c.toNat = c := by
  cases c with
  | char c =>
    have hvalid := c.valid
    unfold UInt32.isValidChar Nat.isValidChar at hvalid
    have hout : ¬(firstSurrogate ≤ c.toNat ∧ c.toNat < firstSurrogate + 0x800) := by
      unfold firstSurrogate Char.toNat
      omega
    rw [ofNat, toNat, dif_neg hout, Char.ofNat_toNat]
  | surrogate offset =>
    have hin : firstSurrogate ≤ firstSurrogate + offset ∧
        firstSurrogate + offset.val < firstSurrogate + 0x800 := by omega
    rw [ofNat, toNat, dif_pos hin]
    exact congrArg surrogate (Fin.ext (Nat.add_sub_cancel_left _ _))

theorem ofNat_eq_char {n : Nat} (h : n.isValidChar) :
    ofNat n = .char (Char.ofNat n) ∧ (Char.ofNat n).val.toNat = n := by
  have hout : ¬(firstSurrogate ≤ n ∧ n < firstSurrogate + 0x800) := by
    unfold Nat.isValidChar at h
    unfold firstSurrogate
    omega
  refine ⟨dif_neg hout, ?_⟩
  rw [Char.ofNat, dif_pos h]
  rfl

theorem toNat_ofNat_of_ascii {n : Nat} (h : n < 0x80) : (ofNat n).toNat = n := by
  obtain ⟨hchar, hvalue⟩ := ofNat_eq_char (n := n) (.inl (by omega))
  rw [hchar]
  exact hvalue

end CodePoint

namespace Text

/-- A text that holds characters only. -/
def Plain (t : Text) : Prop :=
  ∀ c ∈ t, c.isChar = true

instance (t : Text) : Decidable (Plain t) :=
  inferInstanceAs (Decidable (∀ c ∈ t, _))

theorem plain_nil : Plain [] := nofun

theorem plain_cons {c : CodePoint} {t : Text} : Plain (c :: t) ↔ c.isChar = true ∧ Plain t :=
  List.forall_mem_cons

theorem plain_append {a b : Text} : Plain (a ++ b) ↔ Plain a ∧ Plain b :=
  List.forall_mem_append

theorem plain_text (s : String) : Plain s.text := by
  intro c hc
  obtain ⟨_, _, rfl⟩ := List.mem_map.1 hc
  rfl

theorem Plain.of_subset {a b : Text} (h : Plain b) (hsub : a ⊆ b) : Plain a :=
  fun c hc => h c (hsub hc)

end Text

end SchemaLedger
