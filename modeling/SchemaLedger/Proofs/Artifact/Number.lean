import Mathlib.Algebra.Group.Nat.Defs
import SchemaLedger.Proofs.Artifact.Name

/-!
# Numbers of artifacts

The next name in a folder is read back as the number that it was made from, and
that number is one more than the highest in the folder.  Names with the same
number of digits are listed in the order of their numbers; names with different
numbers of digits are not.
-/

namespace SchemaLedger

/-! ## Reading digits -/

theorem decimalValue?_of_isDigit {c : CodePoint} (h : c.isDigit = true) :
    decimalValue? c = some (c.toNat - '0'.toNat) := by
  obtain ⟨hlow, hhigh⟩ := CodePoint.isDigit_iff.1 h
  have hrun : (decide ('0'.toNat ≤ c.toNat) && decide (c.toNat < '0'.toNat + 10)) = true := by
    rw [Bool.and_eq_true, decide_eq_true_eq, decide_eq_true_eq]
    exact ⟨hlow, Nat.lt_succ_of_le hhigh⟩
  -- the first run of the table is the one from '0' to '9'
  have hzeros : decimalZeros = '0'.toNat :: decimalZeros.tail := rfl
  rw [decimalValue?, hzeros, List.find?_cons]
  simp only [hrun, Option.map_some]

namespace Text

variable {a b t : Text}

theorem mapM_decimalValue? (h : ∀ c ∈ t, c.isDigit = true) :
    t.mapM decimalValue? = some (t.map fun c => c.toNat - '0'.toNat) := by
  induction t with
  | nil => rfl
  | cons c rest ih =>
    obtain ⟨hc, hrest⟩ := List.forall_mem_cons.1 h
    rw [List.mapM_cons, decimalValue?_of_isDigit hc, ih hrest]
    rfl

/-- The number that digits spell. -/
def spelled (t : Text) : Nat :=
  t.foldl (fun n c => 10 * n + (c.toNat - '0'.toNat)) 0

theorem foldl_eq_spelled (n : Nat) (t : Text) :
    t.foldl (fun n c => 10 * n + (c.toNat - '0'.toNat)) n = 10 ^ t.length * n + spelled t := by
  induction t generalizing n with
  | nil => simp [spelled]
  | cons c rest ih =>
    rw [spelled, List.foldl_cons, List.foldl_cons, ih, ih, List.length_cons, Nat.pow_succ,
      Nat.mul_zero, Nat.zero_add, Nat.mul_add, Nat.mul_assoc, Nat.add_assoc]

theorem spelled_cons (c : CodePoint) (t : Text) :
    spelled (c :: t) = 10 ^ t.length * (c.toNat - '0'.toNat) + spelled t := by
  rw [spelled, List.foldl_cons, foldl_eq_spelled, Nat.mul_zero, Nat.zero_add]

theorem spelled_zeros (n : Nat) (t : Text) :
    spelled (List.replicate n (.char '0') ++ t) = spelled t := by
  induction n with
  | zero => rfl
  | succ n ih => rw [List.replicate_succ, List.cons_append, spelled_cons, ih]; simp

theorem spelled_ofNat (n : Nat) : spelled (ofNat n) = n := by
  have hdigits : Nat.ofDigitChars 10 (Nat.toDigits 10 n) 0 = n := Nat.ofDigitChars_ten_toDigits
  rw [Nat.ofDigitChars_eq_foldl] at hdigits
  rw [spelled, ofNat, List.foldl_map]
  exact hdigits

theorem decimal?_of_digits (hne : t ≠ []) (h : ∀ c ∈ t, c.isDigit = true) :
    decimal? t = some (spelled t) := by
  unfold decimal?
  rw [if_neg (by simpa using hne), mapM_decimalValue? h, Option.map_some, List.foldl_map]
  rfl

theorem isDigits_of_digits (hne : t ≠ []) (h : ∀ c ∈ t, c.isDigit = true) :
    isDigits t = true := by
  have hall : t.all SchemaLedger.isDigit = true := List.all_eq_true.2 fun c hc => by
    simp [SchemaLedger.isDigit, isDecimalDigit, decimalValue?_of_isDigit (h c hc)]
  simp [isDigits, hne, hall]

/-! ## Order -/

theorem spelled_lt (h : ∀ c ∈ t, c.isDigit = true) : spelled t < 10 ^ t.length := by
  induction t with
  | nil => exact Nat.one_pos
  | cons c rest ih =>
    obtain ⟨hc, hrest⟩ := List.forall_mem_cons.1 h
    obtain ⟨_, hhigh⟩ := CodePoint.isDigit_iff.1 hc
    have hdigit : c.toNat - '0'.toNat ≤ 9 := Nat.sub_le_sub_right hhigh _
    rw [spelled_cons, List.length_cons, Nat.pow_succ]
    calc 10 ^ rest.length * (c.toNat - '0'.toNat) + spelled rest
        < 10 ^ rest.length * (c.toNat - '0'.toNat) + 10 ^ rest.length :=
          Nat.add_lt_add_left (ih hrest) _
      _ = 10 ^ rest.length * (c.toNat - '0'.toNat + 1) := (Nat.mul_succ _ _).symm
      _ ≤ 10 ^ rest.length * 10 := Nat.mul_le_mul_left _ (Nat.succ_le_succ hdigit)

/-- The quotient decides before the remainder does. -/
theorem mul_add_lt_iff {k x y u v : Nat} (hu : u < k) (hv : v < k) :
    k * x + u < k * y + v ↔ x < y ∨ x = y ∧ u < v := by
  have outweighs : ∀ {x y u v : Nat}, u < k → x < y → k * x + u < k * y + v := by
    intro x y u v hu hxy
    calc k * x + u < k * x + k := Nat.add_lt_add_left hu _
      _ = k * (x + 1) := (Nat.mul_succ k x).symm
      _ ≤ k * y := Nat.mul_le_mul_left k hxy
      _ ≤ k * y + v := Nat.le_add_right _ _
  rcases Nat.lt_trichotomy x y with hlt | rfl | hgt
  · exact iff_of_true (outweighs hu hlt) (.inl hlt)
  · simp
  · refine iff_of_false (Nat.lt_asymm (outweighs hv hgt)) ?_
    omega

/-- Digits of one length compare like the numbers that they are read as,
whatever follows both. -/
theorem digits_lt_iff (behind : Text) (hlength : a.length = b.length)
    (ha : ∀ c ∈ a, c.isDigit = true) (hb : ∀ c ∈ b, c.isDigit = true) :
    a ++ behind < b ++ behind ↔ spelled a < spelled b := by
  induction a generalizing b with
  | nil =>
    obtain rfl := List.length_eq_zero_iff.1 hlength.symm
    simp
  | cons x xs ih =>
    cases b with
    | nil => cases hlength
    | cons y ys =>
      obtain ⟨hx, hxs⟩ := List.forall_mem_cons.1 ha
      obtain ⟨hy, hys⟩ := List.forall_mem_cons.1 hb
      have hrest : xs.length = ys.length := Nat.succ.inj hlength
      obtain ⟨hxlow, _⟩ := CodePoint.isDigit_iff.1 hx
      obtain ⟨hylow, _⟩ := CodePoint.isDigit_iff.1 hy
      have hlt : x < y ↔ x.toNat - '0'.toNat < y.toNat - '0'.toNat := by
        rw [show x < y ↔ x.toNat < y.toNat from Iff.rfl]
        omega
      have heq : x = y ↔ x.toNat - '0'.toNat = y.toNat - '0'.toNat := by
        rw [← CodePoint.toNat_inj]
        omega
      have hbound := spelled_lt hxs
      rw [hrest] at hbound
      rw [List.cons_append, List.cons_append, List.cons_lt_cons_iff, ih hrest hxs hys,
        spelled_cons, spelled_cons, hrest,
        mul_add_lt_iff hbound (spelled_lt hys), hlt, heq]

/-- Digits of one length are told apart by the number that they are read as. -/
theorem eq_of_digits (hlength : a.length = b.length) (ha : ∀ c ∈ a, c.isDigit = true)
    (hb : ∀ c ∈ b, c.isDigit = true)
    (h : spelled a = spelled b) : a = b := by
  have hforward := digits_lt_iff [] hlength ha hb
  have hback := digits_lt_iff [] hlength.symm hb ha
  simp only [List.append_nil, h, lt_irrefl, iff_false, not_lt] at hforward hback
  exact le_antisymm hback hforward

end Text

namespace Artifact

/-- The stem of the file with a number. -/
def numeral (n : Nat) : Text :=
  Text.padZeros Layout.sequenceWidth (Text.ofNat n)

theorem numeral_ne_nil (n : Nat) : numeral n ≠ [] :=
  (recordable_number n).ne_nil

theorem isDigit_of_mem_numeral {n : Nat} {c : CodePoint} (h : c ∈ numeral n) : c.isDigit = true :=
  isDigit_of_mem_padZeros h

/-- The zeros in front leave the value as it is. -/
theorem plain_fileName_numeral (n : Nat) : (Layout.fileName (numeral n)).Plain :=
  Text.plain_append.2
    ⟨fun _ hc => CodePoint.isChar_of_isDigit (isDigit_of_mem_numeral hc), by decide⟩

theorem spelled_numeral (n : Nat) : Text.spelled (numeral n) = n := by
  rw [numeral, Text.padZeros, Text.spelled_zeros, Text.spelled_ofNat]

theorem decimal?_numeral (n : Nat) : Text.decimal? (numeral n) = some n := by
  rw [Text.decimal?_of_digits (numeral_ne_nil n) fun _ => isDigit_of_mem_numeral,
    spelled_numeral]

/-- The numbers below a hundred thousand have the same number of digits. -/
theorem length_numeral_iff (n : Nat) :
    (numeral n).length = Layout.sequenceWidth ↔ n < 10 ^ Layout.sequenceWidth := by
  have hwidth : 0 < Layout.sequenceWidth := by decide
  rw [← Nat.length_toDigits_le_iff (by decide) hwidth, numeral, Text.padZeros, Text.ofNat,
    List.length_append, List.length_replicate, List.length_map]
  omega

theorem numberOf_of_stem {path : Path} {n : Nat} (h : path.stem = numeral n) :
    numberOf path = .ok (some n) := by
  have hdigits : Text.isDigits (numeral n) = true :=
    Text.isDigits_of_digits (numeral_ne_nil n) fun _ => isDigit_of_mem_numeral
  unfold numberOf
  simp only [h, hdigits, if_true, decimal?_numeral]

theorem numberOf_numeral (folder : Path) (n : Nat) :
    numberOf (folder.child (Layout.fileName (numeral n))) = .ok (some n) :=
  numberOf_of_stem (stem_fileName (numeral_ne_nil n) folder)

/-- A stem of digits, as many as a numbered artifact has at least. -/
def IsLabel (stem : Text) : Prop :=
  stem.length = Layout.sequenceWidth ∧ ∀ c ∈ stem, c.isDigit = true

-- as it stands the second part may be decided over all characters
instance (stem : Text) : Decidable (IsLabel stem) :=
  decidable_of_iff (stem.length = Layout.sequenceWidth ∧ stem.all CodePoint.isDigit = true)
    (and_congr_right fun _ => List.all_eq_true)

theorem isLabel_numeral_iff (n : Nat) : IsLabel (numeral n) ↔ n < 10 ^ Layout.sequenceWidth := by
  rw [← length_numeral_iff]
  exact and_iff_left fun _ => isDigit_of_mem_numeral

theorem IsLabel.numberOf {path : Path} (h : IsLabel path.stem) :
    numberOf path = .ok (some (Text.spelled path.stem)) := by
  have hne : path.stem ≠ [] := by
    intro hnil
    rw [IsLabel, hnil] at h
    exact absurd h.1 (by decide)
  unfold Artifact.numberOf
  rw [if_pos (Text.isDigits_of_digits hne h.2), Text.decimal?_of_digits hne h.2]

/-- A maximum from zero bounds the numbers and is zero or one of them. -/
theorem foldl_max_spec (numbers : List Nat) :
    (∀ n ∈ numbers, n ≤ numbers.foldl max 0) ∧
      (numbers.foldl max 0 = 0 ∨ numbers.foldl max 0 ∈ numbers) := by
  rw [List.foldl_max, Nat.zero_max]
  cases hmax : numbers.max? with
  | none =>
    obtain rfl := List.max?_eq_none_iff.1 hmax
    exact ⟨nofun, .inl rfl⟩
  | some highest =>
    obtain ⟨hmem, hbound⟩ := List.max?_eq_some_iff.1 hmax
    exact ⟨hbound, .inr hmem⟩

/-- Where the next name comes from: `highest` bounds the numbers in the folder and
is one of them, unless it is zero. -/
structure Counted (d : Disk) (folder : Path) (paths : List Path) (highest : Nat) : Prop where
  listed : list d folder = .ok paths
  bound : ∀ path ∈ paths, ∀ n, numberOf path = .ok (some n) → n ≤ highest
  attained : highest = 0 ∨ ∃ path ∈ paths, numberOf path = .ok (some highest)

theorem exists_counted_of_nextName {d : Disk} {folder : Path} {name : Text}
    (h : nextName d folder = .ok name) : ∃ paths highest, Counted d folder paths highest ∧
      name = Layout.fileName (numeral (highest + 1)) := by
  obtain ⟨paths, hpaths, h⟩ := Outcome.bind_eq_ok.1 h
  obtain ⟨numbers, hnumbers, h⟩ := Outcome.bind_eq_ok.1 h
  obtain ⟨hbound, hattained⟩ := foldl_max_spec (numbers.filterMap id)
  have hmem : ∀ n, n ∈ numbers.filterMap id ↔ ∃ path ∈ paths, numberOf path = .ok (some n) := by
    intro n
    rw [List.mem_filterMap, ← Outcome.mem_of_mapM hnumbers]
    simp
  refine ⟨paths, _, ⟨hpaths, fun path hpath n hn => ?_, ?_⟩, (Outcome.pure_eq_ok.1 h).symm⟩
  · exact hbound n ((hmem n).2 ⟨path, hpath, hn⟩)
  · exact hattained.imp id fun hin => (hmem _).1 hin

/-- The next name is not that of a file in the folder. -/
theorem Counted.fresh {d : Disk} {folder : Path} {paths : List Path} {highest : Nat}
    (h : Counted d folder paths highest) :
    folder.child (Layout.fileName (numeral (highest + 1))) ∉ paths := fun hmem =>
  Nat.not_succ_le_self highest (h.bound _ hmem _ (numberOf_numeral folder (highest + 1)))

end Artifact
end SchemaLedger
