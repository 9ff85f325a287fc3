import SchemaLedger.Proofs.Dump.Cleaned
import SchemaLedger.Proofs.Text.Infix
import SchemaLedger.Tool

/-!
# Places in front of messages

The runner prints a message with the name of the script and the number of a line in front of
it, or without.  A message may itself contain what looks like the end of such a place, so
the first line number decides where the message begins.
-/

namespace SchemaLedger
namespace Tool

variable {n p t m : Text}

/-! ## Line numbers -/

def IsLineNumber (n : Text) : Prop :=
  n ≠ [] ∧ ∀ c ∈ n, isDecimalDigit c = true

/-- A line number with what stands around it in a place. -/
def numbered (n : Text) : Text :=
  .char ':' :: (n ++ [.char ':', .char ' '])

/-- No line number ends the place before the name of the script is over. -/
def IsScriptName (p : Text) : Prop :=
  ∀ n, IsLineNumber n → ¬numbered n <:+: p

theorem isScriptName_nil : IsScriptName [] :=
  fun _ _ hinside => List.cons_ne_nil _ _ (List.infix_nil.1 hinside)

theorem isScriptName_cons {c : CodePoint} : IsScriptName (c :: p) ↔
    (∀ n, IsLineNumber n → ¬numbered n <+: c :: p) ∧ IsScriptName p := by
  constructor
  · intro h
    exact ⟨fun n hn hprefix => h n hn hprefix.isInfix,
      fun n hn hinside => h n hn (hinside.trans (List.suffix_cons c p).isInfix)⟩
  · rintro ⟨hfirst, hrest⟩ n hn hinside
    rcases List.infix_cons_iff.1 hinside with hprefix | hinside
    · exact hfirst n hn hprefix
    · exact hrest n hn hinside

theorem isScriptName_of_notMem (h : .char ' ' ∉ p) : IsScriptName p :=
  fun n _ hinside => h (hinside.subset (by simp [numbered]))

instance : Decidable (IsLineNumber n) :=
  decidable_of_iff (n ≠ [] ∧ n.all isDecimalDigit = true) (and_congr_right' List.all_eq_true)

theorem takeWhile_lineNumber (h : ∀ c ∈ n, isDecimalDigit c = true) (t : Text) :
    (n ++ .char ':' :: t).takeWhile isDecimalDigit = n := by
  rw [List.takeWhile_append_of_pos h, List.takeWhile_cons_of_neg (by decide), List.append_nil]

theorem dropWhile_lineNumber (h : ∀ c ∈ n, isDecimalDigit c = true) (t : Text) :
    (n ++ .char ':' :: t).dropWhile isDecimalDigit = .char ':' :: t := by
  rw [List.dropWhile_append_of_pos h, List.dropWhile_cons_of_neg (by decide)]

theorem afterLineNumber?_eq_some :
    afterLineNumber? t = some m ↔ ∃ n, IsLineNumber n ∧ t = numbered n ++ m := by
  constructor
  · intro h
    unfold afterLineNumber? at h
    split at h
    · next rest =>
      split at h
      · cases h
      · next hne =>
        refine ⟨rest.takeWhile isDecimalDigit, ⟨by simpa using hne, fun c hc =>
          List.mem_takeWhile_imp hc⟩, ?_⟩
        have hrest := Text.after?_eq_some.1 h
        rw [numbered, List.cons_append, List.append_assoc, ← hrest,
          List.takeWhile_append_dropWhile]
    · cases h
  · rintro ⟨n, ⟨hne, hdigits⟩, rfl⟩
    have hshape : numbered n ++ m = .char ':' :: (n ++ .char ':' :: .char ' ' :: m) := by
        simp [numbered]
    rw [hshape]
    show (if ((n ++ .char ':' :: .char ' ' :: m).takeWhile isDecimalDigit).isEmpty then none
      else Text.after? [.char ':', .char ' ']
        ((n ++ .char ':' :: .char ' ' :: m).dropWhile isDecimalDigit)) = some m
    rw [takeWhile_lineNumber hdigits, dropWhile_lineNumber hdigits, if_neg (by simpa using hne)]
    exact Text.after?_append [.char ':', .char ' '] m

/-! ## The first line number -/

/-- A line number that begins in front of another one is over where that one begins. -/
theorem prefix_of_digits {digits : Text} (hdigits : ∀ c ∈ digits, isDecimalDigit c = true)
    (hn : IsLineNumber n) (h : digits ++ [.char ':', .char ' '] <+: p ++ numbered n ++ m) :
    digits ++ [.char ':', .char ' '] <+: p := by
  induction digits generalizing p with
  | nil =>
    match p with
    | [] =>
      obtain ⟨c, rest, rfl⟩ := List.exists_cons_of_ne_nil hn.1
      obtain rfl : c = ' ' := by simpa [numbered, eq_comm] using h
      exact absurd (hn.2 ' ' List.mem_cons_self) (by decide)
    | [c] => simp [numbered] at h
    | c :: d :: rest => simpa using h
  | cons digit digits ih =>
    obtain ⟨hdigit, hdigits⟩ := List.forall_mem_cons.1 hdigits
    cases p with
    | nil =>
      obtain ⟨rfl, _⟩ := List.cons_prefix_cons.1 h
      exact absurd hdigit (by decide)
    | cons c rest =>
      obtain ⟨rfl, hrest⟩ := List.cons_prefix_cons.1 h
      exact List.cons_prefix_cons.2 ⟨rfl, ih hdigits hrest⟩

theorem prefix_of_numbered {number : Text} (hnumber : IsLineNumber number) (hn : IsLineNumber n)
    (hp : p ≠ []) (h : numbered number <+: p ++ numbered n ++ m) : numbered number <+: p := by
  obtain ⟨c, rest, rfl⟩ := List.exists_cons_of_ne_nil hp
  obtain ⟨rfl, hrest⟩ := List.cons_prefix_cons.1 h
  exact List.cons_prefix_cons.2 ⟨rfl, prefix_of_digits hnumber.2 hn hrest⟩

/-- Inside the name of a script no place is over. -/
theorem afterLineNumber?_eq_none (hp : p ≠ []) (hname : IsScriptName p) (hn : IsLineNumber n)
    (m : Text) : afterLineNumber? (p ++ numbered n ++ m) = none := by
  cases hfirst : afterLineNumber? (p ++ numbered n ++ m) with
  | none => rfl
  | some message =>
    obtain ⟨number, hnumber, hshape⟩ := afterLineNumber?_eq_some.1 hfirst
    have hprefix : numbered number <+: p ++ numbered n ++ m := hshape ▸ List.prefix_append _ _
    exact absurd (prefix_of_numbered hnumber hn hp hprefix).isInfix (hname number hnumber)

theorem afterPlace?_place (hp : .char '\n' ∉ p) (hname : IsScriptName p) (hn : IsLineNumber n)
    (m : Text) : afterPlace? (p ++ numbered n ++ m) = some m := by
  induction p with
  | nil =>
    have hfirst : afterLineNumber? (numbered n ++ m) = some m :=
      afterLineNumber?_eq_some.2 ⟨n, hn, rfl⟩
    show afterPlace? (.char ':' :: (n ++ [.char ':', .char ' '] ++ m)) = some m
    rw [afterPlace?, show .char ':' :: (n ++ [.char ':', .char ' '] ++ m) =
      numbered n ++ m from rfl, hfirst]
  | cons c rest ih =>
    obtain ⟨hc, hrest⟩ := not_or.1 (List.mem_cons.not.1 hp)
    have hfirst := afterLineNumber?_eq_none (List.cons_ne_nil c rest) hname hn m
    rw [List.cons_append, List.cons_append] at hfirst ⊢
    rw [afterPlace?, hfirst]
    exact (if_neg (Ne.symm hc)).trans (ih hrest (isScriptName_cons.1 hname).2)

theorem exists_of_afterPlace? (h : afterPlace? t = some m) :
    ∃ p n, .char '\n' ∉ p ∧ IsScriptName p ∧ IsLineNumber n ∧ t = p ++ numbered n ++ m := by
  fun_induction afterPlace? t with
  | case1 => cases h
  | case2 c rest message hmessage =>
    cases h
    obtain ⟨n, hn, hshape⟩ := afterLineNumber?_eq_some.1 hmessage
    exact ⟨[], n, nofun, isScriptName_nil, hn, hshape⟩
  | case3 => cases h
  | case4 c rest hnone hc ih =>
    obtain ⟨p, n, hbreak, hname, hn, rfl⟩ := ih h
    refine ⟨c :: p, n, List.mem_cons.not.2 (not_or.2 ⟨Ne.symm hc, hbreak⟩),
      isScriptName_cons.2 ⟨fun number hnumber hprefix => ?_, hname⟩, hn, rfl⟩
    -- a place that is over here would have been found before the step
    obtain ⟨behind, hbehind⟩ := hprefix.trans (List.prefix_append (c :: p) (numbered n ++ m))
    have hfound : afterLineNumber? (c :: (p ++ numbered n ++ m)) = some behind :=
      afterLineNumber?_eq_some.2 ⟨number, hnumber, by rw [hbehind]; simp⟩
    cases hnone.symm.trans hfound

theorem afterPlace?_eq_some :
    afterPlace? t = some m ↔ ∃ p n, .char '\n' ∉ p ∧ IsScriptName p ∧ IsLineNumber n ∧
      t = p ++ numbered n ++ m := by
  constructor
  · exact exists_of_afterPlace?
  · rintro ⟨p, n, hbreak, hname, hn, rfl⟩
    exact afterPlace?_place hbreak hname hn m

/-- Where a line number stands, the place is over there or before. -/
theorem exists_afterPlace? (hp : .char '\n' ∉ p) (hn : IsLineNumber n) (m : Text) :
    ∃ message, afterPlace? (p ++ numbered n ++ m) = some message := by
  induction p with
  | nil => exact ⟨m, afterPlace?_place List.not_mem_nil isScriptName_nil hn m⟩
  | cons c rest ih =>
    obtain ⟨hc, hrest⟩ := not_or.1 (List.mem_cons.not.1 hp)
    obtain ⟨message, hmessage⟩ := ih hrest
    rw [List.cons_append, List.cons_append, afterPlace?]
    cases afterLineNumber? (c :: (rest ++ numbered n ++ m)) with
    | some first => exact ⟨first, rfl⟩
    | none => exact ⟨message, (if_neg (Ne.symm hc)).trans hmessage⟩

/-! ## What a line says -/

/-- The message behind the place in a line, or the whole line if no place is in front. -/
inductive Says : Text → Text → Prop
  | placed {p n m : Text} : IsScriptName p → IsLineNumber n →
      Says ("psql:".text ++ (p ++ numbered n ++ m)) m
  | plain {line : Text} : (∀ p n m, IsLineNumber n →
      line ≠ "psql:".text ++ (p ++ numbered n ++ m)) → Says line line

theorem newline_notMem_script {line rest : Text} (p : Text) (hline : Text.Unbroken line)
    (h : line = "psql:".text ++ (p ++ rest)) : .char '\n' ∉ p := by
  intro hmem
  have hinside : .char '\n' ∈ line := by
    rw [h]
    exact List.mem_append_right _ (List.mem_append_left _ hmem)
  exact absurd (hline '\n' hinside) (by decide)

theorem withoutPlace_eq {line : Text} (hline : Text.Unbroken line) (h : Says line m) :
    withoutPlace line = m := by
  cases h with
  | @placed p n _ hname hn =>
    have hbreak : .char '\n' ∉ p := newline_notMem_script p hline (by rw [List.append_assoc])
    rw [withoutPlace, Text.after?_append, Option.bind_some,
      afterPlace?_eq_some.2 ⟨p, n, hbreak, hname, hn, rfl⟩]
    rfl
  | plain hnone =>
    cases hafter : (Text.after? "psql:".text m).bind afterPlace? with
    | none =>
      rw [withoutPlace, hafter]
      rfl
    | some message =>
      obtain ⟨t, ht, hmessage⟩ := Option.bind_eq_some_iff.1 hafter
      obtain ⟨p, n, _, _, hn, rfl⟩ := afterPlace?_eq_some.1 hmessage
      exact absurd (Text.after?_eq_some.1 ht) (hnone p n message hn)

theorem says_withoutPlace {line : Text} (hline : Text.Unbroken line) :
    Says line (withoutPlace line) := by
  cases hafter : (Text.after? "psql:".text line).bind afterPlace? with
  | some message =>
    obtain ⟨t, ht, hmessage⟩ := Option.bind_eq_some_iff.1 hafter
    obtain ⟨p, n, _, hname, hn, rfl⟩ := afterPlace?_eq_some.1 hmessage
    rw [withoutPlace, hafter, Option.getD_some, Text.after?_eq_some.1 ht]
    exact .placed hname hn
  | none =>
    rw [withoutPlace, hafter, Option.getD_none]
    refine .plain fun p n m hn heq => ?_
    have hbreak : .char '\n' ∉ p :=
      newline_notMem_script p hline (heq.trans (by rw [List.append_assoc]))
    obtain ⟨message, hmessage⟩ := exists_afterPlace? hbreak hn m
    rw [Text.after?_eq_some.2 heq, Option.bind_some, hmessage] at hafter
    cases hafter

theorem withoutPlace_eq_iff {line : Text} (hline : Text.Unbroken line) :
    withoutPlace line = m ↔ Says line m :=
  ⟨fun h => h ▸ says_withoutPlace hline, withoutPlace_eq hline⟩

theorem isLineBreak_of_isDecimalDigit {c : CodePoint} (h : isDecimalDigit c = true) :
    isLineBreak c = false := by
  have hzeros : ∀ base ∈ decimalZeros, 0x1E < base ∧ (base + 9 < 0x85 ∨ 0x85 < base) ∧
      (base + 9 < 0x2028 ∨ 0x2029 < base) := by decide
  obtain ⟨_, hvalue⟩ := Option.isSome_iff_exists.1 h
  obtain ⟨base, hbase, _⟩ := Option.map_eq_some_iff.1 hvalue
  have hrange := List.find?_some hbase
  have hapart := hzeros base (List.mem_of_find?_eq_some hbase)
  simp only [Bool.and_eq_true, decide_eq_true_eq] at hrange
  rw [← Bool.not_eq_true]
  simp only [isLineBreak, Bool.or_eq_true, Bool.and_eq_true, decide_eq_true_eq, beq_iff_eq]
  omega

/-- A line that the runner writes, with a place in front of its message or without. -/
inductive Remark
  | placed (script number message : Text)
  | plain (message : Text)

namespace Remark

def line : Remark → Text
  | placed p n m => "psql:".text ++ (p ++ numbered n ++ m)
  | plain m => m

def message : Remark → Text
  | placed _ _ m => m
  | plain m => m

/-- It is one line, and one with a place exactly if it looks like it. -/
def IsProper : Remark → Prop
  | placed p n m => Text.Unbroken p ∧ IsScriptName p ∧ IsLineNumber n ∧ Text.Unbroken m
  | plain m => Text.Unbroken m ∧ ¬"psql:".text <+: m

variable {r : Remark}

theorem IsProper.says_line (h : r.IsProper) : Says r.line r.message := by
  cases r with
  | placed p n m => exact .placed h.2.1 h.2.2.1
  | plain m =>
    refine .plain fun p n rest _ heq => h.2 ?_
    have hm : m = "psql:".text ++ (p ++ numbered n ++ rest) := heq
    exact hm ▸ List.prefix_append _ _

theorem IsProper.unbroken (h : r.IsProper) : Text.Unbroken r.line := by
  cases r with
  | placed p n m =>
    obtain ⟨hp, _, hn, hm⟩ := h
    have hnumbered : Text.Unbroken (numbered n) := by
      intro c hc
      rcases List.mem_cons.1 hc with rfl | hc
      · decide
      · rcases List.mem_append.1 hc with hdigit | hend
        · exact isLineBreak_of_isDecimalDigit (hn.2 c hdigit)
        · exact (show Text.Unbroken [.char ':', .char ' '] by decide) c hend
    exact Text.unbroken_append.2 ⟨by decide,
      Text.unbroken_append.2 ⟨Text.unbroken_append.2 ⟨hp, hnumbered⟩, hm⟩⟩
  | plain m => exact h.1

end Remark

end Tool
end SchemaLedger
