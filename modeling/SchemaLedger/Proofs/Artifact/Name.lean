import SchemaLedger.Proofs.Artifact.Writing

/-!
# Names of artifacts

A file whose name was accepted is recorded under that very name: the suffix that
was put behind it is the suffix that is taken off, whatever full stops the name
has of its own.
-/

namespace SchemaLedger

namespace Text

theorem splitSuffix_fileName {name : Text} (hne : name ≠ []) :
    splitSuffix (Layout.fileName name) = (name, Layout.suffix) := by
  have hreverse : (Layout.fileName name).reverse = "lqs".text ++ .char '.' :: name.reverse := by
    rw [Layout.fileName, List.reverse_append]
    rfl
  have hbehind : ((Layout.fileName name).reverse.takeWhile (· != .char '.')).reverse =
      "sql".text := by
    rw [hreverse]
    rfl
  have hfront : (((Layout.fileName name).reverse.dropWhile (· != .char '.')).drop 1).reverse =
      name := by
    rw [hreverse]
    exact List.reverse_reverse name
  unfold splitSuffix
  simp only [hbehind, hfront]
  rw [if_neg (by simpa [String.text] using hne)]
  rfl

end Text

namespace Artifact

/-- A name that a file may be recorded under. -/
def Recordable (name : Text) : Prop :=
  Text.isOnlyDots name = false ∧ .char '\'' ∉ name

theorem Recordable.ne_nil {name : Text} (h : Recordable name) : name ≠ [] := by
  rintro rfl
  exact Bool.noConfusion h.1

theorem stem_fileName {name : Text} (hne : name ≠ []) (p : Path) :
    (p.child (Layout.fileName name)).stem = name := by
  rw [Path.stem, Path.name_child, Text.splitSuffix_fileName hne]

theorem suffix_fileName {name : Text} (hne : name ≠ []) (p : Path) :
    (p.child (Layout.fileName name)).suffix = Layout.suffix := by
  rw [Path.suffix, Path.name_child, Text.splitSuffix_fileName hne]

theorem nameOf_fileName {name : Text} (h : Recordable name) (p : Path) :
    nameOf (p.child (Layout.fileName name)) = .ok name := by
  unfold nameOf
  rw [stem_fileName h.ne_nil, if_neg]
  simp [h.1, h.2]

/-- Two spellings of one file name have the same bytes, so if the one can be
recorded the other can be, too. -/
theorem Recordable.of_encode_eq {a b : Text} (h : Recordable b)
    (heq : Utf8.encode a = Utf8.encode b) :
    Recordable a := by
  obtain ⟨hdots, hquote⟩ := h
  refine ⟨Bool.eq_false_iff.2 fun hall => ?_, fun hmem => hquote ?_⟩
  · refine Bool.eq_false_iff.1 hdots (List.all_eq_true.2 fun c hc => ?_)
    obtain ⟨byte, hbyte⟩ := Utf8.exists_mem_bytesOf c
    have hinside : byte ∈ Utf8.encode a := heq ▸ List.mem_flatMap.2 ⟨c, hc, hbyte⟩
    obtain ⟨d, hd, hsame⟩ := List.mem_flatMap.1 hinside
    have hdot : d = '.' := by simpa using List.all_eq_true.1 hall d hd
    rw [hdot] at hsame
    obtain rfl : byte = 0x2E := List.mem_singleton.1 hsame
    have hnumber := Utf8.toNat_of_mem_bytesOf hbyte (by decide)
    exact beq_iff_eq.2 (CodePoint.toNat_injective hnumber)
  · have hinside : (0x27 : UInt8) ∈ Utf8.encode b := heq ▸ List.mem_flatMap.2 ⟨_, hmem, by decide⟩
    exact Utf8.char_mem_of_mem_encode hinside (by decide)

/-- A file whose name stands for an accepted one can be named. -/
theorem nameOf_of_ofText {path : Path} {stem : Text} (hsuffix : path.suffix = Layout.suffix)
    (hpath : path.name.Usable) (hname : Name.ofText path.name = .ofText (Layout.fileName stem))
    (hstem : Recordable stem) (husable : stem.Usable) : nameOf path = .ok path.stem := by
  have hcut : path.name = path.stem ++ Layout.suffix := by
    rw [← hsuffix]
    exact (Text.splitSuffix_append path.name).symm
  have hbytes := congrArg Name.bytes hname
  have hfile : (Layout.fileName stem).Usable := Text.usable_append.2 ⟨husable, by decide⟩
  rw [Name.bytes_ofText hpath, Name.bytes_ofText hfile, hcut, Layout.fileName, Utf8.encode_append,
    Utf8.encode_append] at hbytes
  have hsame := hstem.of_encode_eq (List.append_cancel_right hbytes)
  unfold nameOf
  rw [if_neg]
  simp [hsame.1, hsame.2]

theorem recordable_of_isStorable {name : Text} (h : isStorable name = true) : Recordable name := by
  simp only [isStorable, Bool.and_eq_true, Bool.not_eq_true', List.all_eq_true, bne_iff_ne] at h
  exact ⟨h.1, fun hmem => (h.2 _ hmem).2 rfl⟩

/-! ## Numbered names -/

theorem isDigit_of_mem_ofNat {n : Nat} {c : CodePoint} (h : c ∈ Text.ofNat n) : c.isDigit = true :=
  by
  obtain ⟨digit, hdigit, rfl⟩ := List.mem_map.1 h
  have hrange := Nat.isDigit_of_mem_toDigits (by decide) (by decide) hdigit
  rwa [CodePoint.isDigit_char]

theorem isDigit_of_mem_padZeros {width n : Nat} {c : CodePoint}
    (h : c ∈ Text.padZeros width (Text.ofNat n)) : c.isDigit = true := by
  rcases List.mem_append.1 h with h | h
  · rw [List.eq_of_mem_replicate h]
    rfl
  · exact isDigit_of_mem_ofNat h

theorem recordable_of_digits {name : Text} (hne : name ≠ []) (h : ∀ c ∈ name, c.isDigit = true) :
    Recordable name := by
  refine ⟨?_, fun hquote => ?_⟩
  · obtain ⟨c, rest, rfl⟩ := List.exists_cons_of_ne_nil hne
    have hc : c ≠ '.' := by
      rintro rfl
      exact absurd (h '.' List.mem_cons_self) (by decide)
    simp [Text.isOnlyDots, hc]
  · exact absurd (h _ hquote) (by decide)

theorem recordable_number (n : Nat) :
    Recordable (Text.padZeros Layout.sequenceWidth (Text.ofNat n)) := by
  refine recordable_of_digits (fun hnil => ?_) fun c hc => isDigit_of_mem_padZeros hc
  obtain ⟨hzeros, hdigits⟩ := List.append_eq_nil_iff.1 hnil
  rw [hdigits] at hzeros
  cases hzeros

theorem exists_number_of_nextName {d : Disk} {folder : Path} {name : Text}
    (h : nextName d folder = .ok name) : ∃ stem, Recordable stem ∧ name = Layout.fileName stem := by
  obtain ⟨paths, _, h⟩ := Outcome.bind_eq_ok.1 h
  obtain ⟨numbers, _, h⟩ := Outcome.bind_eq_ok.1 h
  exact ⟨_, recordable_number _, (Outcome.pure_eq_ok.1 h).symm⟩

/-- The file of the bootstrap migration is numbered, too. -/
theorem recordable_bootstrap : Recordable "00000".text := recordable_number 0

/-! ## Accepted names -/

theorem isStorable_of_checkNames {split : Dump.Split} (h : checkNames split = .ok ())
    {s : Dump.Statement} (hs : s ∈ split.statements) : isStorable s.name = true := by
  unfold checkNames at h
  split at h
  · cases h
  · next hnone => simpa using List.find?_eq_none.1 hnone s hs

variable {w w' : World}

theorem createObject_ok {root path : Path} {kindName name : Text} {force : Bool}
    (h : (createObject root kindName name force).runIn w = (.ok path, w')) :
    isStorable name = true ∧ ∃ kind, path = objectPath root kind name := by
  unfold createObject at h
  obtain ⟨_, _, _, h⟩ := Act.bind_eq_ok.1 h
  split at h
  · cases h
  · next kind _ =>
    split at h
    · cases h
    · next hstorable =>
      obtain ⟨present, middle, _, h⟩ := Act.bind_eq_ok.1 h
      split at h
      · cases h
      · obtain ⟨_, _, _, h⟩ := Act.bind_eq_ok.1 h
        refine ⟨by simpa using hstorable, kind, ?_⟩
        exact (Except.ok.inj (congrArg Prod.fst h)).symm

end Artifact
end SchemaLedger
