import SchemaLedger.Proofs.Sql.Constant
import SchemaLedger.Proofs.Sql.Reading
import SchemaLedger.Proofs.Text.Infix

/-!
# Dollar quotations

A dollar quotation ends at the first place where its delimiter stands again.  A text
is therefore read as one quotation exactly when the delimiter is no part of it.
-/

namespace SchemaLedger
namespace Sql

/-! ## Parts of a doubled text -/

section Doubled

variable {mark : CodePoint} {part t : Text}

theorem prefix_doubled_iff (hmark : mark ∉ part) : part <+: doubled mark t ↔ part <+: t := by
  induction part generalizing t with
  | nil => exact iff_of_true List.nil_prefix List.nil_prefix
  | cons x rest ih =>
    obtain ⟨hx, hrest⟩ := not_or.1 (List.mem_cons.not.1 hmark)
    cases t with
    | nil => exact Iff.rfl
    | cons c more =>
      rw [doubled_cons]
      by_cases hc : c = mark
      · have hne : x ≠ c := fun heq => hx (hc ▸ heq.symm)
        rw [if_pos hc]
        simp [hne]
      · rw [if_neg hc, List.singleton_append, List.cons_prefix_cons, List.cons_prefix_cons,
          ih hrest]

/-- A part without the mark stands in the one text where it stands in the other. -/
theorem infix_doubled_iff (hmark : mark ∉ part) : part <:+: doubled mark t ↔ part <:+: t := by
  induction t with
  | nil => exact Iff.rfl
  | cons c rest ih =>
    by_cases hc : c = mark
    · cases part with
      | nil => exact iff_of_true List.nil_infix List.nil_infix
      | cons x more =>
        have hne : x ≠ c := fun heq => hmark (hc ▸ heq ▸ List.mem_cons_self)
        have hcons : x :: more <:+: c :: rest ↔ x :: more <:+: rest := by
          rw [List.infix_cons_iff, List.cons_prefix_cons]
          exact or_iff_right fun hprefix => hne hprefix.1
        rw [doubled_cons, if_pos hc, Text.infix_append_left_iff (by simp [hne]), ih, hcons]
    · have hprefix := prefix_doubled_iff (t := c :: rest) hmark
      rw [doubled_cons, if_neg hc, List.singleton_append] at hprefix ⊢
      rw [List.infix_cons_iff, List.infix_cons_iff, hprefix, ih]

end Doubled

/-! ## Delimiters -/

theorem delimiter_ne_nil (tag : Text) : delimiter tag ≠ [] :=
  List.cons_ne_nil _ _

theorem dollar_mem {tag t : Text} (h : delimiter tag <:+: t) : .char '$' ∈ t :=
  h.subset List.mem_cons_self

theorem delimiter_infix_append_left_iff {tag front t : Text} (h : .char '$' ∉ front) :
    delimiter tag <:+: front ++ t ↔ delimiter tag <:+: t :=
  Text.infix_append_left_iff h

theorem delimiter_infix_append_right_iff {tag t back : Text} (h : .char '$' ∉ back) :
    delimiter tag <:+: t ++ back ↔ delimiter tag <:+: t :=
  Text.infix_append_right_iff h

namespace Reading

variable {ts : List Token} {tag value t : Text}

theorem tokens_subset_run (s : Reading) (t : Text) : s.tokens ⊆ (s.run t).tokens := by
  induction t generalizing s with
  | nil => exact List.Subset.refl _
  | cons c rest ih => exact fun token htoken => ih (s.step c) ((move_step s c).tokens_subset htoken)

theorem tokens_subset_ended (s : Reading) : s.tokens ⊆ s.ended := by
  have hrun : ∀ run, s.tokens ⊆ withRun s.tokens run := fun run => by
    unfold withRun
    split
    · exact List.Subset.refl _
    · exact List.subset_append_left _ _
  unfold ended
  split
  · exact hrun _
  · exact hrun _
  · exact List.subset_append_left _ _
  · exact List.subset_append_left _ _
  · exact List.subset_append_left _ _
  · exact List.Subset.refl _
  · exact List.subset_append_left _ _

/-- Without its delimiter a quotation goes on. -/
theorem run_dollarQuoted (h : ¬delimiter tag <:+: value ++ t) :
    run ⟨ts, .dollarQuoted tag value⟩ t = ⟨ts, .dollarQuoted tag (value ++ t)⟩ := by
  induction t generalizing value with
  | nil =>
    rw [List.append_nil]
    rfl
  | cons c rest ih =>
    have hshape : value ++ c :: rest = value ++ [c] ++ rest := by simp
    rw [hshape] at h ⊢
    have hstep : step ⟨ts, .dollarQuoted tag value⟩ c = ⟨ts, .dollarQuoted tag (value ++ [c])⟩ :=
      if_neg fun hclosed => h
        ((List.isSuffixOf_iff_suffix.1 hclosed).isInfix.trans (List.prefix_append _ _).isInfix)
    exact (congrArg (run · rest) hstep).trans (ih h)

/-- A delimiter behind a quotation without it closes the quotation. -/
theorem run_delimited {c : CodePoint} (hc : c ∉ delimiter tag)
    (h : ¬delimiter tag <:+: value ++ [c]) :
    run ⟨ts, .dollarQuoted tag []⟩ (value ++ [c] ++ delimiter tag) =
      ⟨ts ++ [.constant (value ++ [c])], .code [] false⟩ := by
  have hopen : ¬delimiter tag <:+: [] ++ (value ++ [c] ++ .char '$' :: tag) := by
    have hshape : [] ++ (value ++ [c] ++ .char '$' :: tag) = value ++ c :: .char '$' :: tag := by
        simp
    rw [hshape, Text.infix_append_separator_iff (delimiter_ne_nil tag) hc, not_or]
    refine ⟨fun hvalue => h (hvalue.trans (List.prefix_append _ _).isInfix), fun htag => ?_⟩
    exact absurd htag.length_le (by simp [delimiter])
  have hdelimiter : value ++ [c] ++ delimiter tag =
      value ++ [c] ++ .char '$' :: tag ++ [.char '$'] := by
    simp [delimiter]
  have hrun : run ⟨ts, .dollarQuoted tag []⟩ (value ++ [c] ++ delimiter tag) =
      stepDollarQuoted ts tag (value ++ [c] ++ delimiter tag) := by
    rw [hdelimiter, run_append, run_dollarQuoted hopen]
    rfl
  rw [hrun]
  rcases stepDollarQuoted_cases ts tag (value ++ [c] ++ delimiter tag) with
    ⟨content, hcontent, hstep⟩ | ⟨hclosed, _⟩
  · rw [hstep, List.append_cancel_right hcontent]
  · exact absurd (List.suffix_append _ _) hclosed

/-- A quotation is closed where its delimiter stands first. -/
theorem exists_run_eq_of_infix (hopen : ¬delimiter tag <:+: value)
    (h : delimiter tag <:+: value ++ t) :
    ∃ content more, value ++ t = content ++ delimiter tag ++ more ∧
      run ⟨ts, .dollarQuoted tag value⟩ t =
        run ⟨ts ++ [.constant content], .code [] false⟩ more := by
  induction t generalizing value with
  | nil =>
    rw [List.append_nil] at h
    exact absurd h hopen
  | cons c rest ih =>
    have hshape : value ++ c :: rest = value ++ [c] ++ rest := by simp
    rw [hshape] at h ⊢
    rcases stepDollarQuoted_cases ts tag (value ++ [c]) with
      ⟨content, hcontent, hstep⟩ | ⟨hopen', hstep⟩
    · exact ⟨content, rest, by rw [hcontent], congrArg (run · rest) hstep⟩
    · have hnext : ¬delimiter tag <:+: value ++ [c] := fun hinside =>
        (List.infix_concat_iff.1 hinside).elim hopen' hopen
      obtain ⟨content, more, hsplit, hrun⟩ := ih hnext h
      exact ⟨content, more, hsplit, (congrArg (run · rest) hstep).trans hrun⟩

end Reading

end Sql
end SchemaLedger
