import SchemaLedger.Proofs.Dump.Token

/-!
# Parts of a dump

Where a part of a dump ends between statements, the split of the dump is the
split of the part followed by the split of the rest.
-/

namespace SchemaLedger

namespace Dump

open Text

theorem tokens_append {t u : Text} (ht : t = [] ∨ EndsBlank t) (hu : StartsWord u) :
    tokens (t ++ u) = tokens t ++ tokensFrom (1 + newlines t) u := by
  have hlead := leadingBlanks_append_trimLeft t
  have hlines : newlines t = newlines (leadingBlanks t) + newlines (trimLeft t) := by
    rw [← newlines_append, hlead]
  rw [tokens_eq_tokensFrom, tokens_eq_tokensFrom, leadingBlanks_append hu, trimLeft_append hu]
  rcases trimLeft_eq_nil_or_startsWord t with hnil | hstart
  · rw [hnil, hlines, hnil, tokensFrom_nil]
    rfl
  · have hends : EndsBlank (trimLeft t) := by
      rcases ht with rfl | ht
      · exact absurd rfl hstart.ne_nil
      · rw [← hlead] at ht
        exact (endsBlank_append hstart.ne_nil).1 ht
    have hline : (1 : Int) + newlines (leadingBlanks t) + newlines (trimLeft t) =
        1 + newlines t := by
      rw [hlines]
      omega
    rw [tokensFrom_append _ hends hu, hline]

namespace Progress

/-- What was collected before a scan stays in front of what the scan adds. -/
theorem scan_behind (p : Progress) (tokens : List Token) :
    p.scan tokens = (scan { state := p.state } tokens).map fun q =>
      ⟨q.state, p.residual ++ q.residual, p.statements ++ q.statements⟩ := by
  induction tokens generalizing p with
  | nil => simp [scan, Except.map]
  | cons token rest ih =>
    rw [scan, scan]
    cases hstep : step p.state token with
    | error fault => rfl
    | ok s =>
      simp only
      rw [ih (p.add s), ih (add _ s)]
      show Except.map _ (scan { state := s.state } rest) =
        Except.map _ (Except.map _ (scan { state := s.state } rest))
      cases scan { state := s.state } rest with
      | error fault => rfl
      | ok q => simp [add, Except.map]

end Progress

/-- The statements of a text that follows on a line, and its residual. -/
def separateFrom (line : Int) (t : Text) : Except Fault (List Statement × Text) :=
  (Progress.scan {} (tokensFrom line t)).bind fun p =>
    (finish p.state).map fun held => (p.statements, p.residual ++ held)

theorem separate_eq (dump : Text) :
    separate dump = (Progress.scan {} (tokens dump)).bind fun p =>
      (finish p.state).map fun held =>
        (p.statements, leadingBlanks dump ++ p.residual ++ held) := by
  unfold separate
  cases Progress.scan {} (tokens dump) with
  | error fault => rfl
  | ok p =>
    simp only [Except.bind]
    cases finish p.state with
    | error fault => rfl
    | ok held => rfl

/-- Behind a part that ends between statements the scan begins anew. -/
theorem separate_append_of_scanning {part rest : Text} {p : Progress}
    (hrest : rest = [] ∨ (part = [] ∨ EndsBlank part) ∧ StartsWord rest)
    (hp : Progress.scan {} (tokens part) = .ok p) (hstate : p.state = .scanning) :
    separate (part ++ rest) =
      (separateFrom (1 + newlines part) rest).map fun later =>
        (p.statements ++ later.1, leadingBlanks part ++ p.residual ++ later.2) := by
  have htokens : tokens (part ++ rest) = tokens part ++ tokensFrom (1 + newlines part) rest := by
    rcases hrest with rfl | ⟨hend, hstart⟩
    · rw [List.append_nil, tokensFrom_nil, List.append_nil]
    · exact tokens_append hend hstart
  have hlead : leadingBlanks (part ++ rest) = leadingBlanks part := by
    rcases hrest with rfl | ⟨_, hstart⟩
    · rw [List.append_nil]
    · exact leadingBlanks_append hstart
  rw [separate_eq, htokens, hlead, Progress.scan_append_of_ok hp, Progress.scan_behind, hstate,
    separateFrom]
  cases Progress.scan {} (tokensFrom (1 + newlines part) rest) with
  | error fault => rfl
  | ok later =>
    simp only [Except.map, Except.bind]
    cases finish later.state with
    | error fault => rfl
    | ok held => simp only [List.append_assoc]

/-- A part behind which the scan is between statements is split off. -/
theorem separate_append {before part rest : Text} {p q : Progress}
    (hbefore : before = [] ∨ EndsBlank before) (hstart : StartsWord part)
    (hrest : rest = [] ∨ EndsBlank part ∧ StartsWord rest)
    (hp : Progress.scan {} (tokens before) = .ok p)
    (hq : p.scan (tokensFrom (1 + newlines before) part) = .ok q) (hstate : q.state = .scanning) :
    separate (before ++ part ++ rest) =
      (separateFrom (1 + newlines (before ++ part)) rest).map fun later =>
        (q.statements ++ later.1, leadingBlanks before ++ q.residual ++ later.2) := by
  have hscan : Progress.scan {} (tokens (before ++ part)) = .ok q := by
    rw [tokens_append hbefore hstart, Progress.scan_append_of_ok hp, hq]
  rw [← leadingBlanks_append (t := before) hstart]
  exact separate_append_of_scanning
    (hrest.imp_right fun ⟨hend, hword⟩ => ⟨.inr (hend.append before), hword⟩) hscan hstate

theorem split_append {before part rest : Text} {p q : Progress}
    (hbefore : before = [] ∨ EndsBlank before) (hstart : StartsWord part)
    (hrest : rest = [] ∨ EndsBlank part ∧ StartsWord rest)
    (hp : Progress.scan {} (tokens before) = .ok p)
    (hq : p.scan (tokensFrom (1 + newlines before) part) = .ok q) (hstate : q.state = .scanning)
    (noise : List Text) :
    split (before ++ part ++ rest) noise =
      (separateFrom (1 + newlines (before ++ part)) rest).map fun later =>
        ⟨q.statements ++ later.1,
          cleaned noise (leadingBlanks before ++ q.residual ++ later.2)⟩ := by
  rw [split, separate_append hbefore hstart hrest hp hq hstate]
  cases separateFrom (1 + newlines (before ++ part)) rest with
  | error fault => rfl
  | ok later => rfl

end Dump
end SchemaLedger
