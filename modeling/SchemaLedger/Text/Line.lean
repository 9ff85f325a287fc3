import SchemaLedger.Text.Basic

/-!
# Lines

Ten characters end a line, and a carriage return together with the newline
behind it ends one line, not two.  Line *numbers* elsewhere count newlines
only.
-/

namespace SchemaLedger

def isLineBreak (c : CodePoint) : Bool :=
  let n := c.toNat
  (10 ≤ n && n ≤ 13) || (0x1C ≤ n && n ≤ 0x1E) || n == 0x85 || n == 0x2028 || n == 0x2029

namespace Text

/-- The lines of a text without their breaks.  A break at the very end starts
no further line. -/
def lines : Text → List Text
  | [] => []
  | .char '\r' :: .char '\n' :: rest => [] :: lines rest
  | c :: rest =>
    if isLineBreak c then [] :: lines rest
    else match lines rest with
      | [] => [[c]]
      | line :: below => (c :: line) :: below

theorem not_isLineBreak_of_mem_line {t line : Text} {c : CodePoint} (hline : line ∈ lines t)
    (hc : c ∈ line) : isLineBreak c = false := by
  fun_induction lines t generalizing line with
  | case1 => simp at hline
  | case2 rest ih =>
    rcases List.mem_cons.1 hline with rfl | hline
    · simp at hc
    · exact ih hline hc
  | case3 x rest _ hx ih =>
    rcases List.mem_cons.1 hline with rfl | hline
    · simp at hc
    · exact ih hline hc
  | case4 x rest _ hx hrest ih =>
    obtain rfl : line = [x] := by simpa using hline
    obtain rfl : c = x := by simpa using hc
    simpa using hx
  | case5 x rest _ hx first below hrest ih =>
    rw [hrest] at ih
    rcases List.mem_cons.1 hline with rfl | hline
    · rcases List.mem_cons.1 hc with rfl | hc
      · simpa using hx
      · exact ih List.mem_cons_self hc
    · exact ih (List.mem_cons_of_mem _ hline) hc

/-- Lines cut off at a newline are lines of their own. -/
theorem lines_append_newline {line : Text} (h : ∀ c ∈ line, isLineBreak c = false)
    (rest : Text) : lines (line ++ .char '\n' :: rest) = line :: lines rest := by
  induction line with
  | nil => simp [lines, isLineBreak]
  | cons x more ih =>
    have hx : isLineBreak x = false := h x List.mem_cons_self
    have hmore := ih fun c hc => h c (List.mem_cons_of_mem _ hc)
    have hcr : x ≠ '\r' := by
      rintro rfl
      exact absurd hx (by decide)
    rw [List.cons_append, lines, hmore]
    · simp [hx]
    · rintro _ rfl
      exact absurd rfl hcr

def eachLine (lines : List Text) : Text :=
  lines.flatMap (· ++ [.char '\n'])

/-- Every carriage return, with the newline behind it or alone, becomes one
newline: how a text file is read. -/
def unifyNewlines : Text → Text
  | [] => []
  | .char '\r' :: .char '\n' :: rest => .char '\n' :: unifyNewlines rest
  | c :: rest => (if c = '\r' then '\n' else c) :: unifyNewlines rest

def newlines (t : Text) : Nat :=
  t.count (.char '\n')

end Text

end SchemaLedger
