import SchemaLedger.Proofs.Sql.Constant

/-!
# Reading what was written

A literal is the only spelling that the database reads as its text, and a notice the only one
that it prints as its message.  A notice is read twice: first its constant, in which two
quotes stand for one, and then the value of the constant as a format, in which two percent
signs stand for one and a single one is a placeholder.
-/

namespace SchemaLedger
namespace Sql

variable {t v behind first last : Text}

/-! ## Constants -/

theorem eq_doubled_of_closing? (h : closing? t = some (v, behind)) :
    t = doubled '\'' v ++ .char '\'' :: behind ∧ behind.head? ≠ some (.char '\'') := by
  fun_induction closing? t generalizing v with
  | case1 => cases h
  | case2 rest ih =>
    obtain ⟨⟨value, after⟩, hrest, heq⟩ := Option.map_eq_some_iff.1 h
    cases heq
    obtain ⟨rfl, hhead⟩ := ih hrest
    refine ⟨?_, hhead⟩
    rw [doubled_cons, if_pos rfl]
    rfl
  | case3 after hnext =>
    cases h
    refine ⟨rfl, fun hhead => ?_⟩
    obtain ⟨more, rfl⟩ := List.head?_eq_some_iff.1 hhead
    exact hnext more rfl
  | case4 c rest _ hc ih =>
    obtain ⟨⟨value, after⟩, hrest, heq⟩ := Option.map_eq_some_iff.1 h
    cases heq
    obtain ⟨rfl, hhead⟩ := ih hrest
    refine ⟨?_, hhead⟩
    rw [doubled_cons, if_neg hc]
    rfl

theorem constant?_eq_some :
    constant? t = some (v, behind) ↔
      t = literal v ++ behind ∧ behind.head? ≠ some (.char '\'') := by
  constructor
  · intro h
    unfold constant? at h
    split at h
    · next rest =>
      obtain ⟨rfl, hhead⟩ := eq_doubled_of_closing? h
      exact ⟨by simp [literal], hhead⟩
    · cases h
  · rintro ⟨rfl, hhead⟩
    exact constant?_literal v hhead

theorem between?_eq_some (hlast : last.head? ≠ some (.char '\'')) :
    between? first last t = some v ↔ t = first ++ literal v ++ last := by
  constructor
  · intro h
    obtain ⟨rest, hrest, h⟩ := Option.bind_eq_some_iff.1 h
    obtain ⟨⟨value, behind⟩, hvalue, h⟩ := Option.bind_eq_some_iff.1 h
    obtain ⟨rfl, hsame⟩ : behind = last ∧ value = v := by simpa using h
    rw [Text.after?_eq_some.1 hrest, (constant?_eq_some.1 hvalue).1, hsame, List.append_assoc]
  · rintro rfl
    rw [between?_literal first last v hlast, if_pos rfl]

/-! ## Formats -/

inductive FormatPart
  | char (c : CodePoint)
  | placeholder
deriving DecidableEq

/-- A format as it is read from left to right. -/
def formatParts : Text → List FormatPart
  | [] => []
  | .char '%' :: .char '%' :: rest => .char '%' :: formatParts rest
  | .char '%' :: rest => .placeholder :: formatParts rest
  | c :: rest => .char c :: formatParts rest

theorem formatParts_doubled (m : Text) : formatParts (doubled '%' m) = m.map FormatPart.char := by
  induction m with
  | nil => rfl
  | cons c rest ih =>
    rw [doubled_cons]
    by_cases hc : c = '%'
    · rw [if_pos hc, hc, List.cons_append, List.singleton_append, formatParts, ih]
      rfl
    · rw [if_neg hc, List.singleton_append, formatParts, ih]
      · rfl
      · exact fun more hpercent _ => hc hpercent
      · exact hc

theorem eq_doubled_of_formatParts {format m : Text}
    (h : formatParts format = m.map FormatPart.char) :
    format = doubled '%' m := by
  fun_induction formatParts format generalizing m with
  | case1 =>
    rw [List.map_eq_nil_iff.1 h.symm]
    rfl
  | case2 rest ih =>
    obtain ⟨c, more, rfl, hc, hmore⟩ := List.map_eq_cons_iff.1 h.symm
    rw [ih hmore.symm, FormatPart.char.inj hc]
    rfl
  | case3 rest _ ih =>
    obtain ⟨c, more, rfl, hc, hmore⟩ := List.map_eq_cons_iff.1 h.symm
    cases hc
  | case4 c rest _ hc ih =>
    obtain ⟨x, more, rfl, hx, hmore⟩ := List.map_eq_cons_iff.1 h.symm
    obtain rfl := FormatPart.char.inj hx
    rw [ih hmore.symm, doubled_cons, if_neg hc]
    rfl

/-- How the database reads a notice: the value of its constant as a format. -/
def noticeParts? (t : Text) : Option (List FormatPart) :=
  (between? "RAISE NOTICE ".text [.char ';'] t).map formatParts

theorem noticeParts?_eq_some {m : Text} : noticeParts? t = some (m.map .char) ↔ t = notice m := by
  rw [noticeParts?, Option.map_eq_some_iff]
  constructor
  · rintro ⟨format, hformat, hparts⟩
    rw [(between?_eq_some (by decide)).1 hformat, eq_doubled_of_formatParts hparts]
    rfl
  · rintro rfl
    exact ⟨doubled '%' m, (between?_eq_some (by decide)).2 rfl, formatParts_doubled m⟩

/-- Reading and writing undo each other.  A constant at the start of a text is read as `v`
with `rest` behind it exactly when it is the literal of `v`, and a notice as the characters
of `m`, without a placeholder, exactly when it is the notice of `m`. -/
theorem read_iff_written (t v rest m : Text) :
    (constant? t = some (v, rest) ↔ t = literal v ++ rest ∧ rest.head? ≠ some (.char '\'')) ∧
      (noticeParts? t = some (m.map .char) ↔ t = notice m) :=
  ⟨constant?_eq_some, noticeParts?_eq_some⟩

end Sql
end SchemaLedger
