import SchemaLedger.Proofs.Script.Said

/-!
# Trees without markers

What a script says around a body are single lines that do not look like markers.
Where no line of a body looks like one either, and no name ends a line, all
blocks of the script of a tree can be read.
-/

namespace SchemaLedger

namespace Script

/-- A text that is one line of a script, and no comment. -/
structure IsSingleLine (t : Text) : Prop where
  unbroken : Text.Unbroken t
  opening : ∃ opening, opening <+: t ∧ Text.isBlankText opening = false ∧
    ¬opening <+: "--".text ∧ ¬"--".text <+: opening

namespace IsSingleLine

variable {t : Text}

theorem shown_eq (h : IsSingleLine t) : shown t = [t] := by
  obtain ⟨opening, ⟨rest, rfl⟩, hblank, _⟩ := h.opening
  refine shown_of_unbroken h.unbroken ?_
  rw [Text.isBlankText] at hblank
  rw [Text.isBlankText, List.all_append, hblank, Bool.false_and]

theorem not_comment (h : IsSingleLine t) : ¬"--".text <+: t := by
  obtain ⟨opening, hopening, _, hother⟩ := h.opening
  exact fun hdashes => (List.prefix_or_prefix_of_prefix hopening hdashes).elim hother.1 hother.2

end IsSingleLine

theorem prefix_doneMarker (source : Text) : "-- DONE ".text <+: Fragment.doneMarker source := by
  unfold Fragment.doneMarker
  rw [List.append_assoc]
  exact List.prefix_append _ _

/-- Markers are comments. -/
theorem IsSingleLine.ne_marker {t : Text} (h : IsSingleLine t) (source : Text) :
    t ≠ Fragment.runMarker source ∧ t ≠ Fragment.doneMarker source := by
  refine ⟨?_, ?_⟩
  · rintro rfl
    exact h.not_comment ((by decide : "--".text <+: "-- RUN ".text).trans
      (prefix_runMarker source))
  · rintro rfl
    exact h.not_comment ((by decide : "--".text <+: "-- DONE ".text).trans
      (prefix_doneMarker source))

theorem IsSingleLine.startsBlock?_eq_none {t : Text} (h : IsSingleLine t) :
    startsBlock? t = none :=
  Script.startsBlock?_eq_none.2 fun source _ => (h.ne_marker source).1

/-- What is said about a file is one line if its name is, and a command is no comment. -/
theorem SaidOf.isSingleLine {name t : Text} (h : SaidOf name t) (hname : Text.Unbroken name)
    (hcomment : ¬"--".text <+: t) : IsSingleLine t := by
  refine ⟨h.spells.unbroken_iff.2 hname, ?_⟩
  obtain ⟨opening, hmem, hopening⟩ := h.opens
  have hopenings : ∀ opening ∈ openings, "--".text <+: opening ∨
      Text.isBlankText opening = false ∧ ¬opening <+: "--".text ∧ ¬"--".text <+: opening := by
    decide
  rcases hopenings opening hmem with hdashes | hother
  · exact absurd (hdashes.trans hopening) hcomment
  · exact ⟨opening, hopening, hother⟩

end Script

/-! ## Fragments -/

namespace Fragment

open Script (shown IsSingleLine)

/-- A guarded fragment that says everything around its body in single lines. -/
structure Framed (f : Fragment) (condition : Text) : Prop where
  given : f.condition = some condition
  guard : IsSingleLine ("IF ".text ++ condition ++ " THEN".text)
  commands : ∀ command ∈ f.onApply ++ f.onSkip, IsSingleLine command.sql

namespace Framed

variable {f : Fragment} {condition : Text}

theorem flatMap_shown {commands : List Sql.Command}
    (h : ∀ command ∈ commands, IsSingleLine command.sql) :
    (commands.flatMap fun command => shown command.sql) = commands.map Sql.Command.sql := by
  rw [List.flatMap_congr fun command hcommand => (h command hcommand).shown_eq,
    ← List.map_eq_flatMap]

theorem behindBody_eq (h : f.Framed condition) :
    f.behindBody = f.onApply.map Sql.Command.sql ++ f.skipped ++ ["END IF;".text] := by
  unfold behindBody skipped
  rw [flatMap_shown fun command hcommand => h.commands command (List.mem_append_left _ hcommand),
    flatMap_shown fun command hcommand => h.commands command (List.mem_append_right _ hcommand)]
  by_cases hskip : f.onSkip = []
  · rw [if_pos hskip, if_pos (List.isEmpty_iff.2 hskip)]
  · rw [if_neg hskip, if_neg (by simpa using hskip)]

theorem content_eq (h : f.Framed condition) :
    f.content = ("IF ".text ++ condition ++ " THEN".text) :: (shown f.body.sql ++
      (f.onApply.map Sql.Command.sql ++ f.skipped ++ ["END IF;".text])) := by
  rw [content_of_condition h.given, h.guard.shown_eq, h.behindBody_eq]
  rfl

theorem mem_content (h : f.Framed condition) {line : Text} (hline : line ∈ f.content) :
    line ∈ shown f.body.sql ∨ IsSingleLine line := by
  have hcommands : ∀ commands ⊆ f.onApply ++ f.onSkip, ∀ line ∈ commands.map Sql.Command.sql,
      IsSingleLine line := fun commands hsubset line hline => by
    obtain ⟨command, hcommand, rfl⟩ := List.mem_map.1 hline
    exact h.commands command (hsubset hcommand)
  rw [h.content_eq] at hline
  rcases List.mem_cons.1 hline with rfl | hline
  · exact .inr h.guard
  rcases List.mem_append.1 hline with hbody | hline
  · exact .inl hbody
  refine .inr ?_
  rcases List.mem_append.1 hline with hline | hlast
  · rcases List.mem_append.1 hline with happly | hskipped
    · exact hcommands _ (List.subset_append_left _ _) line happly
    · unfold skipped at hskipped
      split at hskipped
      · cases hskipped
      · rcases List.mem_cons.1 hskipped with rfl | hskip
        · exact ⟨by decide, "ELSE".text, List.prefix_rfl, by decide⟩
        · exact hcommands _ (List.subset_append_right _ _) line hskip
  · rw [List.mem_singleton.1 hlast]
    exact ⟨by decide, "END IF;".text, List.prefix_rfl, by decide⟩

/-- A fragment has as many lines as its body and what is said around it. -/
theorem length_content (h : f.Framed condition) :
    f.content.length = (shown f.body.sql).length + (f.onApply.length + f.skipped.length + 2) := by
  rw [h.content_eq]
  simp only [List.length_cons, List.length_append, List.length_map, List.length_nil]
  omega

/-- A fragment that says one name in single lines, and takes in no other body, is framed. -/
theorem of_tells {name : Text} (h : f.Tells name) (hname : Text.Unbroken name)
    (hcondition : f.condition = some condition)
    (hown : ∀ command ∈ f.onApply ++ f.onSkip, command.own? = some command.sql) :
    f.Framed condition where
  given := hcondition
  guard := by
    have hsaid := h.saidOf (mem_said.2 (.inr (.inl ⟨condition, hcondition, rfl⟩)))
    exact hsaid.isSingleLine hname (by simp [String.text])
  commands command hcommand := by
    have hsaid := h.commands command (List.mem_cons_of_mem _ hcommand) _ (hown command hcommand)
    exact hsaid.isSingleLine hname (Sql.Command.not_comment_of_own? (hown command hcommand))

theorem readable (h : f.Framed condition)
    (hsource : ∀ source, f.origin = some source →
      Text.Unbroken source ∧ doneMarker source ∉ shown f.body.sql)
    (hrun : ∀ line ∈ shown f.body.sql, ∀ source, source ≠ [] → line ≠ runMarker source) :
    f.Readable where
  source source horigin := (hsource source horigin).1
  run line hline source hne := by
    rcases h.mem_content hline with hbody | hsingle
    · exact hrun line hbody source hne
    · exact (hsingle.ne_marker source).1
  done source horigin hline := by
    rcases h.mem_content hline with hbody | hsingle
    · exact (hsource source horigin).2 hbody
    · exact (hsingle.ne_marker source).2 rfl

end Framed

end Fragment

namespace Script

/-! ## Artifacts -/

/-- A file whose block can be read: its source is one line, and no line of it looks
like the start of a block or like the end of its own. -/
structure Unmarked (source : Text) (file : SqlFile) : Prop where
  unbroken : Text.Unbroken source
  run : ∀ line ∈ shown file.body, ∀ other, other ≠ [] → line ≠ Fragment.runMarker other
  done : Fragment.doneMarker source ∉ shown file.body

theorem unmarked_iff {source : Text} {file : SqlFile} : Unmarked source file ↔
    Text.Unbroken source ∧ (∀ line ∈ shown file.body, startsBlock? line = none) ∧
      ∀ line ∈ shown file.body, line ≠ Fragment.doneMarker source := by
  simp only [startsBlock?_eq_none]
  constructor
  · exact fun h => ⟨h.unbroken, h.run, fun line hline heq => h.done (heq ▸ hline)⟩
  · exact fun h => ⟨h.1, h.2.1, fun hline => h.2.2 _ hline rfl⟩

instance (source : Text) (file : SqlFile) : Decidable (Unmarked source file) :=
  decidable_of_iff _ unmarked_iff.symm

/-- A tree of files whose blocks can be read. -/
structure UnmarkedTree (d : Disk) (root : Path) : Prop where
  migrations : ∀ file : SqlFile, Artifact.StandsOn d file →
    (file.path = Artifact.bootstrapPath root ∨
      Artifact.IsListed d (root.child Layout.migrations) file.path) →
    Unmarked (sourceOf Layout.migrations file.path.name) file
  objects : ∀ (kind : ObjectKind) (file : SqlFile), Artifact.StandsOn d file →
    Artifact.IsListed d (root.child kind.folder) file.path →
    Unmarked (sourceOf kind.folder file.name) file

namespace Contents

variable {c : Contents} {d : Disk} {root : Path} {file : SqlFile} {f : Fragment}

theorem FragmentOf.own (h : c.FragmentOf file f) :
    ∀ command ∈ f.onApply ++ f.onSkip, command.own? = some command.sql := by
  have hmigration : ∀ stage, ∀ command ∈ (migrationFragment stage file).onApply ++
      (migrationFragment stage file).onSkip, command.own? = some command.sql := by
    simp [migrationFragment, Sql.Command.own?]
  cases h with
  | bootstrap => exact hmigration _
  | migration => exact hmigration _
  | object _ hf =>
    obtain ⟨⟨records, stage⟩, _, rfl⟩ := List.mem_map.1 hf
    cases records with
    | false =>
      intro command hcommand
      cases hcommand
    | true => simp [objectFragment, Sql.Command.own?]

/-- Around every body of a tree stand single lines, and its block can be read. -/
theorem framed_of_fragmentOf (hc : c.OfTree d root) (hu : UnmarkedTree d root)
    (hf : c.FragmentOf file f) :
    ∃ condition source, f.Framed condition ∧ f.origin = some source ∧ Unmarked source file := by
  have hmade := hf.madeFor hc
  obtain ⟨source, hsource, horigin, hunmarked⟩ : ∃ source, f.source = some source ∧
      f.origin = some source ∧ Unmarked source file := by
    cases hf with
    | bootstrap hfile =>
      obtain ⟨hpath, hstands⟩ := (hc.bootstrap file).1 hfile
      exact ⟨_, rfl, origin_of_source rfl, hu.migrations file hstands (.inl hpath)⟩
    | migration hfile =>
      obtain ⟨⟨hlisted, _⟩, hstands⟩ := (hc.migrations file).1 hfile
      exact ⟨_, rfl, origin_of_source rfl, hu.migrations file hstands (.inr hlisted)⟩
    | @object kind _ _ hfile hf =>
      obtain ⟨⟨records, stage⟩, _, rfl⟩ := List.mem_map.1 hf
      obtain ⟨hlisted, hstands⟩ := (hc.objects kind file).1 hfile
      exact ⟨_, rfl, origin_of_source rfl, hu.objects kind file hstands hlisted⟩
  have hname : Text.Unbroken file.path.stem :=
    (hmade.tells.source source hsource).unbroken_iff.1 hunmarked.unbroken
  obtain ⟨condition, hcondition⟩ := hf.exists_condition
  exact ⟨condition, source, .of_tells hmade.tells hname hcondition hf.own, horigin, hunmarked⟩

/-- A fragment of a tree is one of three that every script has, or it takes in a body. -/
theorem fragment_cases (hf : f ∈ c.fragments) :
    f ∈ [opening, tables, check] ∨ ∃ file, c.FragmentOf file f := by
  have hpass : ∀ {kind records stage}, (records, stage) ∈ Ledger.passes kind →
      f ∈ c.pass kind records stage → ∃ file, c.FragmentOf file f := by
    intro kind records stage hpass hf
    obtain ⟨file, hfile, rfl⟩ := List.mem_map.1 hf
    exact ⟨file, .object hfile (List.mem_map_of_mem hpass)⟩
  have hplain : ∀ g ∈ [opening, tables, check], f ∈ [g] → f ∈ [opening, tables, check] :=
    fun g hg hf => List.mem_singleton.1 hf ▸ hg
  obtain ⟨part, hpart, hf⟩ := List.mem_flatMap.1 hf
  simp only [parts, List.mem_cons, List.not_mem_nil, or_false] at hpart
  rcases hpart with rfl | rfl | rfl | rfl | rfl | rfl | rfl | rfl | rfl | rfl
  · exact .inl (hplain opening (by simp) hf)
  · exact .inl (hplain tables (by simp) hf)
  · obtain ⟨file, hfile, rfl⟩ := List.mem_map.1 hf
    exact .inr ⟨file, .bootstrap (Option.mem_toList.1 hfile)⟩
  · exact .inr (hpass (by decide) hf)
  · exact .inr (hpass (by decide) hf)
  · obtain ⟨file, hfile, rfl⟩ := List.mem_map.1 hf
    exact .inr ⟨file, .migration hfile⟩
  · exact .inr (hpass (by decide) hf)
  · exact .inl (hplain check (by simp) hf)
  · exact .inr (hpass (by decide) hf)
  · exact .inr (hpass (by decide) hf)

theorem readable_of_plain (hsource : f.source = none) (hguard : f.guard = none)
    (honApply : f.onApply = []) (hrun : ∀ line ∈ shown f.body.sql, startsBlock? line = none) :
    f.Readable := by
  have horigin : f.origin = none := by
    rw [Fragment.origin, hsource]
    rfl
  have hcondition : f.condition = none := by
    rw [Fragment.condition, hguard]
    rfl
  have hcontent : f.content = shown f.body.sql := by
    rw [Fragment.content, hcondition]
    show f.appliedLines = _
    rw [Fragment.appliedLines, honApply, List.flatMap_nil, List.append_nil]
  refine Fragment.readable_iff.2 ⟨fun source hsome => ?_, hcontent ▸ hrun⟩
  rw [horigin] at hsome
  cases hsome

/-- No line about the tracking tables starts a block. -/
theorem startsBlock?_trackingTables : ∀ line ∈ shown trackingTables, startsBlock? line = none := by
  -- the parts of the text are evaluated faster than the whole
  unfold trackingTables
  simp only [String.text_append]
  decide +kernel

theorem readable_plain : ∀ f ∈ [opening, tables, check], f.Readable := by
  have hopening : opening.Readable := by decide +kernel
  have htables : tables.Readable := readable_of_plain rfl rfl rfl startsBlock?_trackingTables
  have hcheck : check.Readable := by decide +kernel
  exact List.forall_mem_cons.2
    ⟨hopening, List.forall_mem_cons.2 ⟨htables, List.forall_mem_singleton.2 hcheck⟩⟩

theorem readable_fragments (hc : c.OfTree d root) (hu : UnmarkedTree d root) :
    ∀ f ∈ c.fragments, f.Readable := by
  intro f hf
  rcases fragment_cases hf with hplain | ⟨file, hfile⟩
  · exact readable_plain f hplain
  · obtain ⟨condition, source, hframed, horigin, hunmarked⟩ := framed_of_fragmentOf hc hu hfile
    have hbody : f.body.sql = file.body := by
      rw [hfile.body_eq]
      rfl
    refine hframed.readable (fun other hother => ?_) (hbody ▸ hunmarked.run)
    obtain rfl : source = other := Option.some.inj (horigin.symm.trans hother)
    exact ⟨hunmarked.unbroken, hbody ▸ hunmarked.done⟩

end Contents

end Script
end SchemaLedger
