import SchemaLedger.Script.Fragment
import SchemaLedger.Text.Blank
import SchemaLedger.Text.Line

namespace SchemaLedger

/-- The tag is that of the dollar quotes around the block.  Fragments are kept
in the order in which they were added. -/
structure Script where
  tag : Text
  fragments : List Fragment := []
deriving DecidableEq

namespace Script

def add (s : Script) (f : Fragment) : Script :=
  { s with fragments := s.fragments ++ [f] }

def extend (s : Script) (fs : List Fragment) : Script :=
  { s with fragments := s.fragments ++ fs }

def ordered (s : Script) : List Fragment :=
  s.fragments.mergeSort fun f g => f.stage.number ≤ g.stage.number

theorem ordered_perm (s : Script) : s.ordered.Perm s.fragments :=
  List.mergeSort_perm _ _

theorem ordered_pairwise (s : Script) :
    s.ordered.Pairwise fun f g => f.stage.number ≤ g.stage.number := by
  have h := @List.pairwise_mergeSort Fragment (fun f g => f.stage.number ≤ g.stage.number)
    (fun _ _ _ hab hbc => by simp only [decide_eq_true_eq] at *; omega)
    (fun _ _ => by simp only [Bool.or_eq_true, decide_eq_true_eq]; omega) s.fragments
  simpa [ordered] using h

/-- The artifacts that the fragments come from, of one stage or of all. -/
def sources (s : Script) (stage : Option Stage := none) : List Text :=
  s.ordered.filterMap fun f =>
    if stage.all (· = f.stage) then f.origin else none

theorem sources_eq (s : Script) : s.sources = s.ordered.filterMap Fragment.origin := rfl

/-- The lines of a text that are not blank and, when minifying, no comments,
each ended by a newline.  No lines at all leave a single newline. -/
def finish (t : Text) (minify : Bool) : Text :=
  let kept := (Text.lines t).filter fun line => !Text.isBlankText line
  Text.unlines (if minify then kept.filter (!"--".text.isPrefixOf ·) else kept) ++ [.char '\n']

def header (s : Script) : Text :=
  "DO $".text ++ s.tag ++ "$ BEGIN".text

def footer (s : Script) : Text :=
  "END $".text ++ s.tag ++ "$;".text

def draft (s : Script) : Text :=
  Text.unlines (s.header :: s.ordered.map Fragment.render ++ [s.footer])

def render (s : Script) (minify : Bool := false) : Text :=
  finish s.draft minify

end Script
end SchemaLedger
