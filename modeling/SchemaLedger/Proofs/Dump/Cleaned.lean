import SchemaLedger.Dump.Residual
import SchemaLedger.Proofs.Text.Break
import SchemaLedger.Proofs.Text.Infix

/-!
# Cleaning line by line

Cleaning drops whole lines and ends each of the others with a newline.  What it leaves is
cut into these very lines again, so two cleanings are one with both lists of noise, and
texts that end where a line does are cleaned apart.
-/

namespace SchemaLedger
namespace Dump

open Text

variable {noise more : List Text} {line t : Text}

/-! ## Lines that are kept -/

/-- What cleaning asks of a line.  Blanks around a line do not keep it from being noise, and
blanks in front of two hyphens do keep it from being a comment. -/
structure Stays (noise : List Text) (line : Text) : Prop where
  not_isGap : ¬IsGap line
  not_comment : ¬"--".text <+: line
  not_noise : ∀ other ∈ noise, trim other ≠ trim line

theorem isKept_iff : isKept noise line = true ↔ Stays noise line := by
  have hnoise : (!(noise.map trim).contains (trim line)) = true ↔
      ∀ other ∈ noise, trim other ≠ trim line := by
    simp
  rw [isKept, Bool.and_eq_true, Bool.and_eq_true, not_isBlankText_iff, isComment,
    not_isPrefixOf_iff, hnoise, and_assoc]
  exact ⟨fun ⟨hgap, hcomment, hnone⟩ => ⟨hgap, hcomment, hnone⟩,
    fun h => ⟨h.not_isGap, h.not_comment, h.not_noise⟩⟩

instance (noise : List Text) (line : Text) : Decidable (Stays noise line) :=
  decidable_of_iff _ isKept_iff

theorem isKept_nil (noise : List Text) : isKept noise [] = false := rfl

theorem stays_append_iff : Stays (noise ++ more) line ↔ Stays noise line ∧ Stays more line := by
  constructor
  · intro h
    obtain ⟨hnoise, hmore⟩ := List.forall_mem_append.1 h.not_noise
    exact ⟨⟨h.not_isGap, h.not_comment, hnoise⟩, ⟨h.not_isGap, h.not_comment, hmore⟩⟩
  · rintro ⟨h, hmore⟩
    exact ⟨h.not_isGap, h.not_comment, List.forall_mem_append.2 ⟨h.not_noise, hmore.not_noise⟩⟩

theorem isKept_append (noise more : List Text) (line : Text) :
    isKept (noise ++ more) line = (isKept noise line && isKept more line) := by
  rw [Bool.eq_iff_iff, Bool.and_eq_true, isKept_iff, isKept_iff, isKept_iff, stays_append_iff]

theorem isKept_append_self (noise : List Text) : isKept (noise ++ noise) = isKept noise :=
  funext fun line => by rw [isKept_append, Bool.and_self]

theorem ne_nil_of_isKept (h : isKept noise line = true) : line ≠ [] := by
  rintro rfl
  cases h

theorem unbroken_of_mem_cleaned (h : line ∈ (lines t).filter (isKept noise)) : Unbroken line :=
  fun _ hc => not_isLineBreak_of_mem_line (List.mem_filter.1 h).1 hc

/-! ## Cleaned texts -/

theorem lines_cleaned (noise : List Text) (t : Text) :
    lines (cleaned noise t) = (lines t).filter (isKept noise) :=
  lines_eachLine fun _ hpiece => unbroken_of_mem_cleaned hpiece

theorem cleaned_cleaned_append (noise more : List Text) (t : Text) :
    cleaned more (cleaned noise t) = cleaned (noise ++ more) t := by
  rw [cleaned, lines_cleaned, List.filter_filter, cleaned]
  refine congrArg eachLine (List.filter_congr fun line _ => ?_)
  rw [isKept_append, Bool.and_comm]

theorem cleaned_cleaned (noise : List Text) (t : Text) :
    cleaned noise (cleaned noise t) = cleaned noise t := by
  rw [cleaned_cleaned_append, cleaned, isKept_append_self]
  rfl

theorem cleaned_append_newline (noise : List Text) (t u : Text) :
    cleaned noise (t ++ .char '\n' :: u) = cleaned noise t ++ cleaned noise u := by
  unfold cleaned
  rw [filter_lines_break (b := '\n') (isKept_nil noise) t u (by decide) nofun, eachLine_append]

/-- Behind a whole line a residual is cleaned by itself. -/
theorem cleaned_append {noise : List Text} {t : Text} (ht : t = [] ∨ t.getLast? = some (.char '\n'))
    (u : Text) : cleaned noise (t ++ u) = cleaned noise t ++ cleaned noise u := by
  rcases ht with rfl | hlast
  · rfl
  · obtain ⟨front, rfl⟩ := List.getLast?_eq_some_iff.1 hlast
    rw [List.append_assoc, List.singleton_append, cleaned_append_newline,
      cleaned_append_newline noise front [], List.append_assoc]
    rfl

theorem cleaned_eq_nil_or (noise : List Text) (t : Text) :
    cleaned noise t = [] ∨ ∃ front, ∃ c : CodePoint, cleaned noise t = front ++ [c, '\n'] ∧
      c ≠ '\n' :=
  eachLine_eq_nil_or (fun _ hline => ne_nil_of_isKept (List.mem_filter.1 hline).2)
    fun _ hline => unbroken_of_mem_cleaned hline

theorem cleaned_eq_filter (noise : List Text) (t : Text) :
    cleaned noise t = eachLine ((lines t).filter fun line => Stays noise line) := by
  refine congrArg eachLine (List.filter_congr fun line _ => ?_)
  rw [Bool.eq_iff_iff, isKept_iff, decide_eq_true_iff]

/-- A cleaned text is clean, and it is empty or ends in one newline.  Whole lines are
cleaned apart from what follows them, two cleanings are one with the noise of both, and
what is left are the lines of the text that may stay. -/
theorem cleaned_by_lines (noise more : List Text) (t u : Text) :
    cleaned noise (cleaned noise t) = cleaned noise t ∧
      (cleaned noise t = [] ∨ ∃ front, ∃ c : CodePoint, cleaned noise t = front ++ [c, '\n'] ∧
      c ≠ '\n') ∧
      (t = [] ∨ t.getLast? = some (.char '\n') →
        cleaned noise (t ++ u) = cleaned noise t ++ cleaned noise u) ∧
      cleaned more (cleaned noise t) = cleaned (noise ++ more) t ∧
      ∃ lines, (∀ other, HasLines t other ↔ other = lines) ∧
        cleaned noise t = eachLine (lines.filter fun line => Stays noise line) :=
  ⟨cleaned_cleaned noise t, cleaned_eq_nil_or noise t, fun ht => cleaned_append ht u,
    cleaned_cleaned_append noise more t, lines t, fun _ => hasLines_iff, cleaned_eq_filter noise t⟩

/-- A text with breaks of several kinds, noise with blanks around it, and a comment that
is indented. -/
def mixedText : Text :=
  "-- a\r\n SET x;\u2028\n --b\x0bSELECT 1;\n".text

theorem cleaned_by_lines_mixed :
    mixedText.getLast? = some (.char '\n') ∧
      cleaned ["SET x;\t".text] (cleaned ["SET x;\t".text] mixedText) =
        cleaned ["SET x;\t".text] mixedText ∧
      (∃ front, ∃ c : CodePoint, cleaned ["SET x;\t".text] mixedText = front ++ [c, '\n'] ∧
        c ≠ '\n') ∧
      cleaned ["SET x;\t".text] (mixedText ++ "\u0085SET".text) =
        cleaned ["SET x;\t".text] mixedText ++ cleaned ["SET x;\t".text] "\u0085SET".text ∧
      cleaned ["--b".text] (cleaned ["SET x;\t".text] mixedText) =
        cleaned ["SET x;\t".text, "--b".text] mixedText ∧
      ∃ lines, (∀ other, HasLines mixedText other ↔ other = lines) ∧
        cleaned ["SET x;\t".text] mixedText =
          eachLine (lines.filter fun line => Stays ["SET x;\t".text] line) := by
  have hlast : mixedText.getLast? = some (.char '\n') := by decide
  have hne : cleaned ["SET x;\t".text] mixedText ≠ [] := by decide +kernel
  obtain ⟨hsame, hends, happend, hrest⟩ :=
    cleaned_by_lines ["SET x;\t".text] ["--b".text] mixedText "\u0085SET".text
  exact ⟨hlast, hsame, hends.resolve_left hne, happend (.inr hlast), hrest⟩

end Dump
end SchemaLedger
