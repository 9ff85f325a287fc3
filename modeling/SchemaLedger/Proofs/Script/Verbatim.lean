import SchemaLedger.Proofs.Ledger.Apply
import SchemaLedger.Proofs.Script.Blocks
import SchemaLedger.Proofs.Text.Utf8

/-!
# Bodies in a script

A script takes in the lines of a body that are not blank, one after the other,
between the guard of the body and what follows it.  Lines there end at every
line break, so what stands between two newlines comes through unchanged exactly
when no other line break is inside.
-/

namespace SchemaLedger

/-! ## Lines of a fragment with a guard -/

namespace Fragment

open Script (shown)

/-- What a fragment with a guard has behind its body: the commands that follow it,
those for the other case, and the end of the guard. -/
def behindBody (f : Fragment) : List Text :=
  (f.onApply.flatMap fun command => shown command.sql) ++
    (if f.onSkip = [] then []
      else "ELSE".text :: f.onSkip.flatMap fun command => shown command.sql) ++
    ["END IF;".text]

theorem content_of_condition {f : Fragment} {condition : Text} (h : f.condition = some condition) :
    f.content =
      shown ("IF ".text ++ condition ++ " THEN".text) ++ shown f.body.sql ++ f.behindBody := by
  simp only [content, h, appliedLines, behindBody, List.append_assoc]

theorem content_infix_render (f : Fragment) : f.content <:+: shown f.render := by
  rw [render, Script.shown_unlines, ← flatMap_shown_guarded]
  unfold parts
  cases f.origin with
  | none => exact List.infix_rfl
  | some source =>
    rw [List.flatMap_append, List.flatMap_cons]
    exact List.infix_append _ _ _

end Fragment

namespace Script

/-! ## Lines between newlines -/

/-- What stands between the newlines of a text, without the blank pieces. -/
def wholeLines (t : Text) : List Text :=
  (Text.splitOn '\n' t).filter (!Text.isBlankText ·)

theorem shown_of_blank {t : Text} (h : Text.isBlankText t = true) : shown t = [] := by
  refine List.filter_eq_nil_iff.2 fun line hline => ?_
  have hblank : Text.isBlankText line = true := List.all_eq_true.2 fun c hc =>
    List.all_eq_true.1 h c (Text.mem_of_mem_lines hline hc)
  rw [hblank]
  exact Bool.false_ne_true

theorem shown_eq_flatMap (t : Text) : shown t = (wholeLines t).flatMap shown := by
  conv_lhs => rw [← Text.joined_splitOn '\n' t]
  rw [← Text.unlines, shown_unlines, wholeLines]
  induction Text.splitOn '\n' t with
  | nil => rfl
  | cons piece rest ih =>
    rw [List.flatMap_cons, ih]
    by_cases hblank : Text.isBlankText piece = true
    · rw [shown_of_blank hblank, List.nil_append, List.filter_cons_of_neg (by simp [hblank])]
    · rw [List.filter_cons_of_pos (by simpa using hblank), List.flatMap_cons]

theorem shown_of_wholeLines {t : Text} (h : ∀ line ∈ wholeLines t, Text.Unbroken line) :
    shown t = wholeLines t := by
  have hself : ∀ line ∈ wholeLines t, shown line = [line] := fun line hline =>
    shown_of_unbroken (h line hline) (by simpa using (List.mem_filter.1 hline).2)
  rw [shown_eq_flatMap, List.flatMap_congr hself, List.flatMap_singleton']

/-- The pieces of a finished text are the lines that were kept, and an empty one. -/
theorem splitOn_finish {t : Text} {minify : Bool} (hkept : kept t minify ≠ []) :
    Text.splitOn '\n' (finish t minify) = kept t minify ++ [[]] :=
  Text.splitOn_unlines hkept fun line hline hbreak =>
    absurd (unbroken_of_mem_kept hline '\n' hbreak) (by decide)

theorem kept_eq_of_finish_eq {t u : Text} {minify minify' : Bool} (ht : kept t minify ≠ [])
    (hu : kept u minify' ≠ []) (h : finish t minify = finish u minify') :
    kept t minify = kept u minify' := by
  have hpieces := splitOn_finish ht
  rw [h, splitOn_finish hu] at hpieces
  exact (List.append_cancel_right hpieces).symm

theorem unbroken_of_mem_splitOn_finish {t line : Text} {minify : Bool}
    (h : line ∈ Text.splitOn '\n' (finish t minify)) : Text.Unbroken line := by
  by_cases hkept : kept t minify = []
  · rw [finish_eq, hkept] at h
    have hnil : line = [] := by simpa [Text.unlines, Text.joined, Text.splitOn] using h
    rw [hnil]
    exact List.forall_mem_nil _
  · rw [splitOn_finish hkept] at h
    rcases List.mem_append.1 h with h | h
    · exact unbroken_of_mem_kept h
    · rw [List.mem_singleton.1 h]
      exact List.forall_mem_nil _

/-- The lines of a fragment stand in the script one after the other. -/
theorem content_infix {s : Script} {f : Fragment} (hf : f ∈ s.fragments) (hne : f.content ≠ []) :
    f.content <:+: Text.splitOn '\n' (s.render false) := by
  have hrender : shown f.render <:+: shown s.draft := by
    rw [draft, shown_unlines, List.flatMap_def]
    refine List.infix_of_mem_flatten (List.mem_map_of_mem ?_)
    have hordered := List.mem_map_of_mem (f := Fragment.render) (s.ordered_perm.mem_iff.2 hf)
    exact List.mem_append_left _ (List.mem_cons_of_mem _ hordered)
  have hdraft : f.content <:+: kept s.draft false := f.content_infix_render.trans hrender
  have hkept : kept s.draft false ≠ [] := by
    intro hnil
    rw [hnil] at hdraft
    exact hne (List.infix_nil.1 hdraft)
  rw [render, splitOn_finish hkept]
  exact hdraft.trans (List.prefix_append _ _).isInfix

/-! ## Bodies of artifacts -/

/-- The lines stand in a script between the guard of a fragment and what the
fragment has behind its body. -/
def Carries (script : Text) (f : Fragment) (lines : List Text) : Prop :=
  ∃ condition, f.condition = some condition ∧
    (shown ("IF ".text ++ condition ++ " THEN".text) ++ lines ++ f.behindBody) <:+:
      Text.splitOn '\n' script

theorem carries_shown {s : Script} {f : Fragment} (hf : f ∈ s.fragments) {condition : Text}
    (hcondition : f.condition = some condition) :
    Carries (s.render false) f (shown f.body.sql) := by
  refine ⟨condition, hcondition, ?_⟩
  have hcontent := Fragment.content_of_condition hcondition
  rw [← hcontent]
  refine content_infix hf ?_
  rw [hcontent]
  simp [Fragment.behindBody]

/-- What a script carries has no line break inside, and what has none is carried. -/
theorem carries_wholeLines_iff {s : Script} {f : Fragment} (hf : f ∈ s.fragments)
    {condition : Text} (hcondition : f.condition = some condition) :
    Carries (s.render false) f (wholeLines f.body.sql) ↔
      ∀ line ∈ wholeLines f.body.sql, Text.Unbroken line := by
  constructor
  · rintro ⟨_, _, hlines⟩ line hline
    exact unbroken_of_mem_splitOn_finish
      (hlines.mem (List.mem_append_left _ (List.mem_append_right _ hline)))
  · intro h
    rw [← shown_of_wholeLines h]
    exact carries_shown hf hcondition

namespace Contents

/-- The fragment takes in the body of the file, an object's once in each pass over
its kind. -/
inductive FragmentOf (c : Contents) : SqlFile → Fragment → Prop
  | bootstrap {file : SqlFile} : c.bootstrap = some file →
      FragmentOf c file (migrationFragment .bootstrap file)
  | migration {file : SqlFile} : file ∈ c.migrations →
      FragmentOf c file (migrationFragment .migrations file)
  | object {kind : ObjectKind} {file : SqlFile} {f : Fragment} : file ∈ c.objects kind →
      f ∈ Ledger.fragmentsOf kind file → FragmentOf c file f

variable {c : Contents} {file : SqlFile} {f : Fragment}

theorem FragmentOf.mem_fragments (h : c.FragmentOf file f) : f ∈ c.fragments := by
  cases h with
  | bootstrap hfile => exact Ledger.mem_fragments_of_bootstrap hfile
  | migration hfile => exact Ledger.mem_fragments_of_migrations hfile
  | object hfile hf => exact Ledger.mem_fragments_of_fragmentsOf hfile hf

theorem FragmentOf.body_eq (h : c.FragmentOf file f) : f.body = .plain file.body := by
  cases h with
  | bootstrap => rfl
  | migration => rfl
  | object hfile hf =>
    obtain ⟨_, _, rfl⟩ := List.mem_map.1 hf
    rfl

theorem FragmentOf.exists_condition (h : c.FragmentOf file f) :
    ∃ condition, f.condition = some condition := by
  cases h with
  | bootstrap => exact ⟨_, rfl⟩
  | migration => exact ⟨_, rfl⟩
  | object hfile hf =>
    obtain ⟨_, _, rfl⟩ := List.mem_map.1 hf
    exact ⟨_, rfl⟩

end Contents

theorem build_eq_ok {d : Disk} {root : Path} {variant : Variant} {minify : Bool} {t : Text} :
    build d root variant minify = .ok t ↔
      ∃ s, ofTree d root variant = .ok s ∧ s.render minify = t := by
  rw [build, Outcome.bind_eq_ok]
  exact exists_congr fun s => and_congr_right fun _ => Outcome.pure_eq_ok

/-- Whatever the tree, the lines of each body that are not blank stand in its script
between the guard of the body and what follows it.  What stands between the newlines
of the body is carried like that exactly when it has no other line break inside. -/
theorem bodies_carried {d : Disk} {root : Path} {t : Text}
    (h : build d root .applying false = .ok t) :
    ∃ c : Contents, c.OfTree d root ∧ ∀ file f, c.FragmentOf file f →
      Carries t f (shown file.body) ∧
        (Carries t f (wholeLines file.body) ↔
          ∀ line ∈ wholeLines file.body, Text.Unbroken line) := by
  obtain ⟨s, hs, rfl⟩ := build_eq_ok.1 h
  obtain ⟨c, hread, rfl⟩ := Contents.exists_of_assemble hs
  refine ⟨c, hread.ofTree, fun file f hf => ?_⟩
  obtain ⟨condition, hcondition⟩ := hf.exists_condition
  have hsql : f.body.sql = file.body := by
    rw [hf.body_eq]
    rfl
  rw [← hsql]
  exact ⟨carries_shown hf.mem_fragments hcondition,
    carries_wholeLines_iff hf.mem_fragments hcondition⟩

/-- A constant with a line separator inside. -/
def separatedBody : Text :=
  "SELECT 'a\u2028b';\n".text

def separatedEntries : List (Location × Entry) :=
  [(["db".name], .folder),
   (["functions".name, "db".name], .folder),
   (["f.sql".name, "functions".name, "db".name],
     .file (Utf8.encode "CREATE FUNCTION f()\n\n  RETURNS int;\n".text)),
   (["migrations".name, "db".name], .folder),
   (["00001.sql".name, "migrations".name, "db".name], .file (Utf8.encode separatedBody))]

/-- A tree with one function and one migration. -/
def separatedTree : Tree where
  entries := separatedEntries
  distinct := by decide
  closed := by
    have h : ∀ place ∈ separatedEntries.map (·.1),
        place.tail = [] ∨ (place.tail, Entry.folder) ∈ separatedEntries := by decide
    exact fun name place hplace => h (name :: place) hplace

def databaseRoot : Path := ⟨.relative, ["db".text]⟩

theorem exists_build_separated :
    ∃ t, build ⟨separatedTree, []⟩ databaseRoot .applying false = .ok t :=
  Outcome.exists_of_toBool (by decide +kernel)

theorem bodies_carried_separated :
    ∃ t, build ⟨separatedTree, []⟩ databaseRoot .applying false = .ok t ∧
      ∃ c : Contents, c.OfTree ⟨separatedTree, []⟩ databaseRoot ∧ ∀ file f, c.FragmentOf file f →
        Carries t f (shown file.body) ∧
          (Carries t f (wholeLines file.body) ↔
            ∀ line ∈ wholeLines file.body, Text.Unbroken line) := by
  obtain ⟨t, ht⟩ := exists_build_separated
  exact ⟨t, ht, bodies_carried ht⟩

def separatedFile : SqlFile where
  path := (databaseRoot.child Layout.migrations).child "00001.sql".text
  name := "00001".text
  body := separatedBody
  digest := Md5.hexDigest (Utf8.encode separatedBody)

/-- A line of a migration that stands nowhere in the script. -/
theorem line_not_carried :
    ∃ t, build ⟨separatedTree, []⟩ databaseRoot .applying false = .ok t ∧
      Artifact.IsListed ⟨separatedTree, []⟩ (databaseRoot.child Layout.migrations)
        separatedFile.path ∧
      Artifact.StandsOn ⟨separatedTree, []⟩ separatedFile ∧
      ∃ line ∈ wholeLines separatedFile.body, line ∉ Text.splitOn '\n' t := by
  obtain ⟨t, ht⟩ := exists_build_separated
  obtain ⟨s, _, rfl⟩ := build_eq_ok.1 ht
  have hlisted : Artifact.IsListed ⟨separatedTree, []⟩ (databaseRoot.child Layout.migrations)
      separatedFile.path := ⟨by decide, ["00001.sql".text], by decide +kernel, "00001.sql".text,
        List.mem_singleton_self _, rfl⟩
  have hstands : Artifact.StandsOn ⟨separatedTree, []⟩ separatedFile :=
    ⟨Utf8.encode separatedBody, by decide +kernel, by decide, Utf8.decode_encode_text _, by
      rw [separatedFile]⟩
  refine ⟨_, ht, hlisted, hstands, "SELECT 'a\u2028b';".text, by decide +kernel, fun h => ?_⟩
  exact absurd (unbroken_of_mem_splitOn_finish h) (by decide)

end Script
end SchemaLedger
