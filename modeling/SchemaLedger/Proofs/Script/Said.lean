import SchemaLedger.Proofs.Script.Verbatim

/-!
# What a script says about a file

Around a body, or in its place, a script says things of its own: markers, a guard,
records and notices.  Each of them spells out the name of a file among fixed
characters, so whether it is one line is decided by the name alone.
-/

namespace SchemaLedger

/-! ## Spelling out a name -/

namespace Sql

theorem mem_doubled {mark c : CodePoint} {t : Text} : c ∈ doubled mark t ↔ c ∈ t := by
  rw [doubled, List.mem_flatMap]
  constructor
  · rintro ⟨x, hx, hc⟩
    split at hc
    · simp only [List.mem_cons, List.not_mem_nil, or_false, or_self] at hc
      exact hc ▸ hx
    · exact List.mem_singleton.1 hc ▸ hx
  · intro hc
    refine ⟨c, hc, ?_⟩
    split
    · exact List.mem_cons_self
    · exact List.mem_singleton_self c

end Sql

namespace Text

theorem forall_mem_toDigitsCore {P : Char → Prop} (hP : ∀ k, P (Nat.digitChar k))
    {base fuel n : Nat} {digits : List Char} (h : ∀ c ∈ digits, P c) :
    ∀ c ∈ Nat.toDigitsCore base fuel n digits, P c := by
  induction fuel generalizing n digits with
  | zero => exact h
  | succ fuel ih =>
    have hnext : ∀ c ∈ Nat.digitChar (n % base) :: digits, P c :=
      List.forall_mem_cons.2 ⟨hP _, h⟩
    rw [Nat.toDigitsCore]
    split
    · exact hnext
    · exact ih hnext

theorem forall_mem_hex {P : CodePoint → Prop} (hP : ∀ k, P (.char (Nat.digitChar k)))
    (width n : Nat) : ∀ c ∈ hex width n, P c := by
  refine List.forall_mem_append.2 ⟨fun c hc => ?_, List.forall_mem_map.2 ?_⟩
  · rw [List.eq_of_mem_replicate hc]
    exact hP 0
  · exact forall_mem_toDigitsCore hP nofun

end Text

/-- A digest is made of digits only. -/
theorem Md5.forall_mem_hexDigest {P : CodePoint → Prop}
    (hP : ∀ k, P (.char (Nat.digitChar k))) (data : Bytes) : ∀ c ∈ hexDigest data, P c := by
  intro c hc
  obtain ⟨_, _, hc⟩ := List.mem_flatMap.1 hc
  obtain ⟨_, _, hc⟩ := List.mem_flatMap.1 hc
  exact Text.forall_mem_hex hP _ _ c hc

namespace Script

/-- Characters that neither end a line nor belong to a dollar quote, and no surrogate. -/
def Ordinary (t : Text) : Prop :=
  Text.Unbroken t ∧ .char '$' ∉ t ∧ t.Plain

instance (t : Text) : Decidable (Ordinary t) :=
  inferInstanceAs (Decidable (_ ∧ _))

theorem ordinary_append {t u : Text} : Ordinary (t ++ u) ↔ Ordinary t ∧ Ordinary u := by
  rw [Ordinary, Ordinary, Ordinary, Text.unbroken_append, List.mem_append, not_or,
    Text.plain_append]
  tauto

/-- A text that says a name among ordinary characters, with marks in it doubled. -/
inductive Spells (name : Text) : Text → Prop
  | self : Spells name name
  | behind {front t : Text} : Ordinary front → Spells name t → Spells name (front ++ t)
  | before {t back : Text} : Spells name t → Ordinary back → Spells name (t ++ back)
  | doubled {t : Text} {mark : CodePoint} : mark ∈ [.char '\'', .char '%'] → Spells name t →
      Spells name (Sql.doubled mark t)

namespace Spells

variable {name t : Text}

theorem literal (h : Spells name t) : Spells name (Sql.literal t) := by
  have hopened : Spells name ([.char '\''] ++ Sql.doubled '\'' t) :=
    .behind (by decide) (.doubled (by decide) h)
  exact .before hopened (by decide)

/-- The name alone decides whether a line ends inside. -/
theorem unbroken_iff (h : Spells name t) : Text.Unbroken t ↔ Text.Unbroken name := by
  induction h with
  | self => exact Iff.rfl
  | behind hfront _ ih => rw [Text.unbroken_append, ih, and_iff_right hfront.1]
  | before _ hback ih => rw [Text.unbroken_append, ih, and_iff_left hback.1]
  | doubled _ _ ih =>
    rw [← ih]
    exact forall_congr' fun c => by rw [Sql.mem_doubled]

/-- The name alone decides whether the text has bytes. -/
theorem plain_iff (h : Spells name t) : t.Plain ↔ name.Plain := by
  induction h with
  | self => exact Iff.rfl
  | behind hfront _ ih => rw [Text.plain_append, ih, and_iff_right hfront.2.2]
  | before _ hback ih => rw [Text.plain_append, ih, and_iff_left hback.2.2]
  | doubled _ _ ih =>
    rw [← ih]
    exact forall_congr' fun c => by rw [Sql.mem_doubled]

end Spells

theorem ordinary_hexDigest (data : Bytes) : Ordinary (Md5.hexDigest data) := by
  have hdigits : ∀ c ∈ Md5.hexDigest data,
      isLineBreak c = false ∧ c ≠ '$' ∧ c.isChar = true :=
    Md5.forall_mem_hexDigest (fun k => by
      by_cases hk : k < 16
      · exact (by decide : ∀ k < 16, isLineBreak (Nat.digitChar k) = false ∧
          CodePoint.char (Nat.digitChar k) ≠ '$' ∧
          (CodePoint.char (Nat.digitChar k)).isChar = true) k hk
      · rw [Nat.digitChar_eq_star.2 (Nat.le_of_not_lt hk)]
        decide) data
  exact ⟨fun c hc => (hdigits c hc).1, fun hmem => (hdigits '$' hmem).2.1 rfl,
    fun c hc => (hdigits c hc).2.2⟩

theorem ordinary_literal {t : Text} (h : Ordinary t) : Ordinary (Sql.literal t) := by
  refine ⟨Spells.self.literal.unbroken_iff.2 h.1, fun hmem => ?_,
    Spells.self.literal.plain_iff.2 h.2.2⟩
  rcases List.mem_append.1 hmem with hmem | hmem
  · rcases List.mem_cons.1 hmem with heq | hmem
    · exact absurd heq (by decide)
    · exact h.2.1 (Sql.mem_doubled.1 hmem)
  · exact absurd hmem (by decide)

/-! ## Beginnings of lines -/

/-- What the lines begin with that a script has of its own. -/
def openings : List Text :=
  ["-- RUN ".text, "-- DONE ".text, "IF ".text, "INSERT INTO pgm_".text,
    "RAISE NOTICE ".text]

def Opens (t : Text) : Prop :=
  ∃ opening ∈ openings, opening <+: t

instance (t : Text) : Decidable (Opens t) :=
  inferInstanceAs (Decidable (∃ opening ∈ openings, opening <+: t))

theorem Opens.append {t : Text} (h : Opens t) (u : Text) : Opens (t ++ u) := by
  obtain ⟨opening, hmem, hopening⟩ := h
  exact ⟨opening, hmem, hopening.trans (List.prefix_append t u)⟩

theorem Opens.not_blank {t : Text} (h : Opens t) : Text.isBlankText t = false := by
  obtain ⟨opening, hmem, rest, rfl⟩ := h
  have hblank : ∀ opening ∈ openings, Text.isBlankText opening = false := by decide
  have hopening := hblank opening hmem
  rw [Text.isBlankText] at hopening
  rw [Text.isBlankText, List.all_append, hopening, Bool.false_and]

/-- Only a text without line breaks is its own line. -/
theorem shown_eq_singleton_iff {t : Text} (hblank : Text.isBlankText t = false) :
    shown t = [t] ↔ Text.Unbroken t := by
  constructor
  · intro h
    have hline : t ∈ shown t := h ▸ List.mem_singleton_self t
    exact fun c hc => Text.not_isLineBreak_of_mem_line (List.mem_filter.1 hline).1 hc
  · exact fun h => shown_of_unbroken h hblank

/-- A text that a script says about the file with a name. -/
structure SaidOf (name t : Text) : Prop where
  spells : Spells name t
  opens : Opens t

namespace SaidOf

variable {name t : Text}

theorem behind {opening : Text} (hordinary : Ordinary opening) (hopens : Opens opening)
    (h : Spells name t) : SaidOf name (opening ++ t) :=
  ⟨.behind hordinary h, hopens.append t⟩

theorem before {back : Text} (h : SaidOf name t) (hback : Ordinary back) :
    SaidOf name (t ++ back) :=
  ⟨.before h.spells hback, h.opens.append back⟩

theorem shown_eq_iff (h : SaidOf name t) : shown t = [t] ↔ Text.Unbroken name := by
  rw [shown_eq_singleton_iff h.opens.not_blank, h.spells.unbroken_iff]

end SaidOf

end Script

namespace Sql.Command

/-- The SQL of a command that is no body. -/
def own? : Command → Option Text
  | .plain _ => none
  | command => some command.sql

/-- The SQL of a body. -/
def body? : Command → Option Text
  | .plain sql => some sql
  | _ => none

theorem body?_or_own? (command : Command) :
    command.body? = some command.sql ∨ command.own? = some command.sql := by
  cases command with
  | plain => exact .inl rfl
  | record => exact .inr rfl
  | ensureRecorded => exact .inr rfl
  | upsert => exact .inr rfl
  | notice => exact .inr rfl

theorem sql_of_own? {command : Command} {text : Text} (h : command.own? = some text) :
    text = command.sql := by
  cases command with
  | plain => cases h
  | record => exact (Option.some.inj h).symm
  | ensureRecorded => exact (Option.some.inj h).symm
  | upsert => exact (Option.some.inj h).symm
  | notice => exact (Option.some.inj h).symm

/-- A command of its own is no comment. -/
theorem not_comment_of_own? {command : Command} {text : Text} (h : command.own? = some text) :
    ¬"--".text <+: command.sql := by
  rw [← List.isPrefixOf_iff_prefix, Bool.not_eq_true]
  cases command with
  | plain => cases h
  | record => rfl
  | ensureRecorded => rfl
  | upsert => rfl
  | notice => rfl

end Sql.Command

namespace Fragment

open Script (shown)

/-- The commands of a fragment that can come to run. -/
def commands (f : Fragment) : List Sql.Command :=
  f.body :: f.onApply ++ if f.condition.isSome then f.onSkip else []

/-- What a fragment says of its own. -/
def said (f : Fragment) : List Text :=
  (f.origin.toList.flatMap fun source => [runMarker source, doneMarker source]) ++
    (f.condition.toList.map fun condition => "IF ".text ++ condition ++ " THEN".text) ++
    f.commands.filterMap Sql.Command.own?

/-- The bodies that a fragment takes in. -/
def bodies (f : Fragment) : List Text :=
  f.commands.filterMap Sql.Command.body?

variable {f : Fragment} {part text : Text}

theorem mem_said : text ∈ f.said ↔
    (∃ source, f.origin = some source ∧ (text = runMarker source ∨ text = doneMarker source)) ∨
      (∃ condition, f.condition = some condition ∧
        text = "IF ".text ++ condition ++ " THEN".text) ∨
      ∃ command ∈ f.commands, command.own? = some text := by
  simp only [said, List.mem_append, List.mem_flatMap, List.mem_map, List.mem_filterMap,
    Option.mem_toList, List.mem_cons, List.not_mem_nil, or_false, or_assoc, eq_comm (b := text)]

theorem mem_bodies_or_said {command : Sql.Command} (h : command ∈ f.commands) :
    command.sql ∈ f.bodies ∨ command.sql ∈ f.said := by
  rcases command.body?_or_own? with hbody | hown
  · exact .inl (List.mem_filterMap.2 ⟨command, h, hbody⟩)
  · exact .inr (mem_said.2 (.inr (.inr ⟨command, h, hown⟩)))

/-- The two lines around the commands for the other case. -/
def frame : List Text :=
  ["ELSE".text, "END IF;".text]

theorem shown_of_mem_applied (h : part ∈ f.applied) :
    ∃ command ∈ f.commands, shown part = shown command.sql := by
  rcases List.mem_cons.1 h with rfl | h
  · exact ⟨f.body, List.mem_cons_self, Script.shown_dropEndWhile_newline _⟩
  · obtain ⟨command, hcommand, rfl⟩ := List.mem_map.1 h
    exact ⟨command, List.mem_cons_of_mem _ (List.mem_append_left _ hcommand), rfl⟩

theorem mem_skipped (hcondition : f.condition.isSome = true) (h : part ∈ f.skipped) :
    part ∈ frame ∨ ∃ command ∈ f.commands, part = command.sql := by
  unfold skipped at h
  split at h
  · cases h
  · rcases List.mem_cons.1 h with rfl | h
    · exact .inl List.mem_cons_self
    · obtain ⟨command, hcommand, rfl⟩ := List.mem_map.1 h
      refine .inr ⟨command, List.mem_append_right _ ?_, rfl⟩
      rwa [if_pos hcondition]

/-- A part of a fragment shows the lines of a body, of what the fragment says, or
one of two fixed lines. -/
theorem shown_of_mem_parts (h : part ∈ f.parts) :
    (∃ body ∈ f.bodies, shown part = shown body) ∨ (∃ text ∈ f.said, shown part = shown text) ∨
      part ∈ frame := by
  have hcommands : (∃ command ∈ f.commands, shown part = shown command.sql) →
      (∃ body ∈ f.bodies, shown part = shown body) ∨ (∃ text ∈ f.said, shown part = shown text) ∨
        part ∈ frame := by
    rintro ⟨command, hcommand, hshown⟩
    rcases mem_bodies_or_said hcommand with hbody | hsaid
    · exact .inl ⟨_, hbody, hshown⟩
    · exact .inr (.inl ⟨_, hsaid, hshown⟩)
  have hguarded : part ∈ f.guarded → (∃ body ∈ f.bodies, shown part = shown body) ∨
      (∃ text ∈ f.said, shown part = shown text) ∨ part ∈ frame := by
    intro h
    unfold guarded at h
    split at h
    · exact hcommands (shown_of_mem_applied h)
    · next condition hcondition =>
      simp only [List.cons_append, List.mem_cons, List.mem_append, List.not_mem_nil, or_false] at h
      rcases h with rfl | (happly | hskip) | rfl
      · exact .inr (.inl ⟨_, mem_said.2 (.inr (.inl ⟨condition, hcondition, rfl⟩)), rfl⟩)
      · exact hcommands (shown_of_mem_applied happly)
      · rcases mem_skipped (by rw [hcondition]; rfl) hskip with hframe | ⟨command, hcommand, rfl⟩
        · exact .inr (.inr hframe)
        · exact hcommands ⟨command, hcommand, rfl⟩
      · exact .inr (.inr (List.mem_cons_of_mem _ List.mem_cons_self))
  unfold parts at h
  split at h
  · exact hguarded h
  · next source horigin =>
    simp only [List.cons_append, List.mem_cons, List.mem_append, List.not_mem_nil, or_false] at h
    have hmarker : ∀ text, text = runMarker source ∨ text = doneMarker source → text ∈ f.said :=
      fun text htext => mem_said.2 (.inl ⟨source, horigin, htext⟩)
    rcases h with rfl | h | rfl
    · exact .inr (.inl ⟨_, hmarker _ (.inl rfl), rfl⟩)
    · exact hguarded h
    · exact .inr (.inl ⟨_, hmarker _ (.inr rfl), rfl⟩)

theorem guarded_subset_parts : f.guarded ⊆ f.parts := by
  unfold parts
  split
  · exact List.Subset.refl _
  · exact fun part hpart => List.mem_append_left _ (List.mem_cons_of_mem _ hpart)

theorem applied_subset_guarded : f.applied ⊆ f.guarded := by
  unfold guarded
  split
  · exact List.Subset.refl _
  · exact fun part hpart => List.mem_append_left _ (List.mem_append_left _
      (List.mem_cons_of_mem _ hpart))

theorem mem_parts_of_onSkip {command : Sql.Command} (hcondition : f.condition.isSome = true)
    (h : command ∈ f.onSkip) : command.sql ∈ f.parts := by
  obtain ⟨condition, hsome⟩ := Option.isSome_iff_exists.1 hcondition
  have hskipped : command.sql ∈ f.skipped := by
    rw [skipped, if_neg (by simpa using List.ne_nil_of_mem h)]
    exact List.mem_cons_of_mem _ (List.mem_map_of_mem h)
  refine guarded_subset_parts ?_
  rw [guarded, hsome]
  exact List.mem_append_left _ (List.mem_append_right _ hskipped)

theorem exists_part_of_command {command : Sql.Command} (h : command ∈ f.commands) :
    ∃ part ∈ f.parts, shown part = shown command.sql := by
  have happlied : f.applied ⊆ f.parts := fun _ hpart =>
    guarded_subset_parts (applied_subset_guarded hpart)
  rcases List.mem_cons.1 h with rfl | h
  · exact ⟨_, happlied List.mem_cons_self, Script.shown_dropEndWhile_newline _⟩
  rcases List.mem_append.1 h with happly | hskip
  · exact ⟨_, happlied (List.mem_cons_of_mem _ (List.mem_map_of_mem happly)), rfl⟩
  · split at hskip
    · next hcondition => exact ⟨_, mem_parts_of_onSkip hcondition hskip, rfl⟩
    · cases hskip

theorem exists_part_of_bodies {body : Text} (h : body ∈ f.bodies) :
    ∃ part ∈ f.parts, shown part = shown body := by
  obtain ⟨command, hcommand, hbody⟩ := List.mem_filterMap.1 h
  have hsql : body = command.sql := by
    cases command with
    | plain => exact (Option.some.inj hbody).symm
    | _ => cases hbody
  exact hsql ▸ exists_part_of_command hcommand

/-- All that a fragment says is shown. -/
theorem exists_part_of_said (h : text ∈ f.said) : ∃ part ∈ f.parts, shown part = shown text := by
  rcases mem_said.1 h with ⟨source, horigin, hmarker⟩ | ⟨condition, hcondition, rfl⟩ |
    ⟨command, hcommand, hown⟩
  · refine ⟨text, ?_, rfl⟩
    rw [parts, horigin]
    rcases hmarker with rfl | rfl
    · exact List.mem_cons_self
    · exact List.mem_append_right _ (List.mem_singleton_self _)
  · refine ⟨_, guarded_subset_parts ?_, rfl⟩
    rw [guarded, hcondition]
    exact List.mem_cons_self
  · obtain ⟨part, hpart, hshown⟩ := exists_part_of_command hcommand
    exact ⟨part, hpart, hshown.trans (congrArg shown (Sql.Command.sql_of_own? hown).symm)⟩

/-- A fragment that says nothing of its own but a name among ordinary characters. -/
structure Tells (f : Fragment) (name : Text) : Prop where
  source : ∀ source, f.source = some source → Script.Spells name source
  guard : ∀ guard, f.guard = some guard → Script.Spells name guard.sql
  commands : ∀ command ∈ f.body :: f.onApply ++ f.onSkip, ∀ text, command.own? = some text →
    Script.SaidOf name text

theorem Tells.saidOf {name : Text} (h : f.Tells name) (htext : text ∈ f.said) :
    Script.SaidOf name text := by
  rcases mem_said.1 htext with ⟨source, horigin, hmarker⟩ | ⟨condition, hcondition, rfl⟩ |
    ⟨command, hcommand, hown⟩
  · have hsource := h.source source (Option.filter_eq_some_iff.1 horigin).1
    rcases hmarker with rfl | rfl
    · exact .before (.behind (by decide) (by decide) hsource) (by decide)
    · exact .before (.behind (by decide) (by decide) hsource) (by decide)
  · obtain ⟨guard, hguard, rfl⟩ :=
      Option.map_eq_some_iff.1 (Option.filter_eq_some_iff.1 hcondition).1
    exact .before (.behind (by decide) (by decide) (h.guard guard hguard)) (by decide)
  · refine h.commands command ?_ text hown
    rcases List.mem_append.1 hcommand with happly | hskip
    · exact List.mem_append_left _ happly
    · split at hskip
      · exact List.mem_append_right _ hskip
      · cases hskip

end Fragment

namespace Script

/-! ## What commands and guards say -/

variable {name table digest message : Text}

theorem spells_unrecorded : Spells name (Sql.Guard.unrecorded name).sql := by
  show Spells name ("NOT EXISTS (SELECT 1 FROM ".text ++ Layout.migrationTable ++
    " WHERE name = ".text ++ Sql.literal name ++ [.char ')'])
  exact .before (.behind (by decide) Spells.self.literal) (by decide)

theorem ordinary_table (kind : ObjectKind) : Ordinary kind.table := by
  cases kind <;> decide

theorem spells_outdated (kind : ObjectKind) (hdigest : Ordinary digest) :
    Spells name (Sql.Guard.outdated kind.table name digest).sql := by
  show Spells name ("(SELECT hash FROM ".text ++ kind.table ++ " WHERE name = ".text ++
    Sql.literal name ++ ") IS DISTINCT FROM ".text ++ Sql.literal digest)
  have hfront : Ordinary ("(SELECT hash FROM ".text ++ kind.table ++ " WHERE name = ".text) :=
    ordinary_append.2 ⟨ordinary_append.2 ⟨by decide, ordinary_table kind⟩, by decide⟩
  exact .before (.before (.behind hfront Spells.self.literal) (by decide))
    (ordinary_literal hdigest)

theorem saidOf_insertMigration : SaidOf name (Sql.Command.insertMigration name) := by
  unfold Sql.Command.insertMigration
  exact .before (.behind (by decide) (by decide) Spells.self.literal) (by decide)

theorem saidOf_upsert (kind : ObjectKind) (hdigest : Ordinary digest) :
    SaidOf name (Sql.Command.upsert kind.table name digest).sql := by
  show SaidOf name ("INSERT INTO ".text ++ kind.table ++ " (name, hash) VALUES (".text ++
    Sql.literal name ++ ", ".text ++ Sql.literal digest ++ (") ON CONFLICT (name) DO UPDATE SET "
      ++ "hash = EXCLUDED.hash, applied_at = CURRENT_TIMESTAMP;").text)
  have hfront : Ordinary ("INSERT INTO ".text ++ kind.table ++ " (name, hash) VALUES (".text) :=
    ordinary_append.2 ⟨ordinary_append.2 ⟨by decide, ordinary_table kind⟩, by decide⟩
  have hopens : Opens ("INSERT INTO ".text ++ kind.table) := by
    cases kind <;> decide
  exact (((SaidOf.behind hfront (hopens.append _) Spells.self.literal).before (by decide)).before
    (ordinary_literal hdigest)).before (by decide)

theorem saidOf_notice (h : Spells name message) : SaidOf name (Sql.Command.notice message).sql := by
  show SaidOf name ("RAISE NOTICE ".text ++ Sql.literal (Sql.doubled '%' message) ++ [.char ';'])
  exact .before (.behind (by decide) (by decide) (Spells.doubled (by decide) h).literal) (by decide)

/-! ## Artifacts -/

theorem spells_sourceOf {folder : Text} (hfolder : Ordinary folder) (h : Spells name message) :
    Spells name (sourceOf folder message) := by
  have hshape : sourceOf folder message = folder ++ [.char '/'] ++ message := by simp [sourceOf]
  rw [hshape]
  exact .behind (ordinary_append.2 ⟨hfolder, by decide⟩) h

theorem tells_migrationFragment {file : SqlFile} (stage : Stage) (hname : file.name = name)
    (hsource : Spells name file.path.name) : (migrationFragment stage file).Tells name where
  source source h := Option.some.inj h ▸ spells_sourceOf (by decide) hsource
  guard guard h := by
    rw [← Option.some.inj h, hname]
    exact spells_unrecorded
  commands command hcommand text htext := by
    simp only [migrationFragment, List.cons_append, List.nil_append, List.mem_cons,
      List.not_mem_nil, or_false, hname] at hcommand
    rcases hcommand with rfl | rfl | rfl | rfl
    · cases htext
    · exact Option.some.inj htext ▸ saidOf_insertMigration.before (by decide)
    · exact Option.some.inj htext ▸ saidOf_notice (.behind (by decide) .self)
    · exact Option.some.inj htext ▸ saidOf_notice (.before (.behind (by decide) .self) (by decide))

theorem ordinary_folder (kind : ObjectKind) : Ordinary kind.folder := by
  cases kind <;> decide

theorem tells_objectFragment {file : SqlFile} (kind : ObjectKind) (stage : Stage) (records : Bool)
    (hname : file.name = name) (hdigest : Ordinary file.digest) :
    (objectFragment stage kind.table kind.folder records file).Tells name where
  source source h := by
    rw [← Option.some.inj h, hname]
    exact spells_sourceOf (ordinary_folder kind) .self
  guard guard h := by
    rw [← Option.some.inj h, hname]
    exact spells_outdated kind hdigest
  commands command hcommand text htext := by
    have hsource : Spells name (sourceOf kind.folder name) :=
      spells_sourceOf (ordinary_folder kind) .self
    cases records with
    | false =>
      rw [List.mem_singleton.1 hcommand] at htext
      cases htext
    | true =>
      simp only [objectFragment, if_true, List.cons_append, List.nil_append, List.mem_cons,
        List.not_mem_nil, or_false, hname] at hcommand
      rcases hcommand with rfl | rfl | rfl | rfl
      · cases htext
      · exact Option.some.inj htext ▸ saidOf_upsert kind hdigest
      · exact Option.some.inj htext ▸ saidOf_notice (.behind (by decide) hsource)
      · exact Option.some.inj htext ▸
          saidOf_notice (.before (.behind (by decide) hsource) (by decide))

open Artifact (IsListed StandsOn)

variable {d : Disk} {root path : Path} {f : Fragment}

/-! ## What an artifact is made into -/

/-- The path of a migration, the bootstrap migration among them. -/
def IsMigration (d : Disk) (root path : Path) : Prop :=
  path = Artifact.bootstrapPath root ∨ IsListed d (root.child Layout.migrations) path

/-- The fragments that scripts of a tree have for the artifact at a path. -/
inductive MadeFor (d : Disk) (root : Path) : Path → Fragment → Prop
  | migration {file : SqlFile} (stage : Stage) : IsMigration d root file.path → StandsOn d file →
      MadeFor d root file.path (migrationFragment stage file)
  | object {kind : ObjectKind} {file : SqlFile} (stage : Stage) (records : Bool) :
      IsListed d (root.child kind.folder) file.path → StandsOn d file →
      MadeFor d root file.path (objectFragment stage kind.table kind.folder records file)
  | recordedMigration {path : Path} {f : Fragment} {stage : Stage} : IsMigration d root path →
      recordedMigration stage path = .ok f → MadeFor d root path f
  | recordedObject {kind : ObjectKind} {file : SqlFile} (stage : Stage) :
      IsListed d (root.child kind.folder) file.path → StandsOn d file →
      MadeFor d root file.path (recordedObject stage kind file)
  | seed {file : SqlFile} : IsListed d (root.child Layout.seeds) file.path → StandsOn d file →
      MadeFor d root file.path (seedFragment file)

theorem IsMigration.spells_name (h : IsMigration d root path) : Spells path.stem path.name := by
  have hsuffix : path.suffix = Layout.suffix := by
    rcases h with rfl | hlisted
    · exact Contents.suffix_bootstrapPath root
    · exact hlisted.1
  have hname : path.name = path.stem ++ Layout.suffix := by
    rw [← hsuffix]
    exact (Text.splitSuffix_append path.name).symm
  rw [hname]
  exact .before .self (by decide)

theorem tells_recordedMigration {stage : Stage} (h : recordedMigration stage path = .ok f)
    (hsource : Spells path.stem path.name) : f.Tells path.stem := by
  obtain ⟨name, hname, hf⟩ := Outcome.bind_eq_ok.1 h
  obtain rfl := Artifact.eq_stem_of_nameOf hname
  obtain rfl := Outcome.pure_eq_ok.1 hf
  refine ⟨fun source h => Option.some.inj h ▸ spells_sourceOf (by decide) hsource, nofun, ?_⟩
  intro command hcommand text htext
  simp only [List.append_nil, List.mem_cons, List.not_mem_nil, or_false] at hcommand
  rcases hcommand with rfl | rfl
  · exact Option.some.inj htext ▸ saidOf_insertMigration.before (by decide)
  · exact Option.some.inj htext ▸ saidOf_notice (.behind (by decide) .self)

theorem tells_recordedObject {file : SqlFile} (kind : ObjectKind) (stage : Stage)
    (hname : file.name = name) (hdigest : Ordinary file.digest) :
    (recordedObject stage kind file).Tells name where
  source source h := by
    rw [← Option.some.inj h, hname]
    exact spells_sourceOf (ordinary_folder kind) .self
  guard := nofun
  commands command hcommand text htext := by
    simp only [recordedObject, List.append_nil, List.mem_cons, List.not_mem_nil, or_false,
      hname] at hcommand
    rcases hcommand with rfl | rfl
    · exact Option.some.inj htext ▸ saidOf_upsert kind hdigest
    · have hfront : Ordinary ("Fake applied ".text ++ kind.name ++ [.char ' ']) := by
        cases kind <;> decide
      have hmessage : "Fake applied ".text ++ kind.name ++ .char ' ' :: name =
          "Fake applied ".text ++ kind.name ++ [.char ' '] ++ name := by simp
      rw [hmessage] at htext
      exact Option.some.inj htext ▸ saidOf_notice (.behind hfront .self)

theorem tells_seedFragment {file : SqlFile} (hname : file.name = name) :
    (seedFragment file).Tells name where
  source source h := by
    rw [← Option.some.inj h, hname]
    exact spells_sourceOf (by decide) .self
  guard := nofun
  commands command hcommand text htext := by
    simp only [seedFragment, List.append_nil, List.mem_cons, List.not_mem_nil, or_false,
      hname] at hcommand
    rcases hcommand with rfl | rfl
    · cases htext
    · exact Option.some.inj htext ▸ saidOf_notice (.behind (by decide) .self)

/-- What scripts say about an artifact spells out the stem of its path. -/
theorem MadeFor.tells (h : MadeFor d root path f) : f.Tells path.stem := by
  have hdigest : ∀ {file : SqlFile}, StandsOn d file → Ordinary file.digest := by
    rintro file ⟨data, _, _, _, hfile⟩
    exact hfile ▸ ordinary_hexDigest data
  have hname : ∀ {file : SqlFile}, StandsOn d file → file.name = file.path.stem :=
    fun ⟨_, _, hfile, _⟩ => hfile
  cases h with
  | migration stage hpath hstands =>
    exact tells_migrationFragment stage (hname hstands) hpath.spells_name
  | object stage records _ hstands =>
    exact tells_objectFragment _ stage records (hname hstands) (hdigest hstands)
  | recordedMigration hpath hf => exact tells_recordedMigration hf hpath.spells_name
  | recordedObject stage _ hstands =>
    exact tells_recordedObject _ stage (hname hstands) (hdigest hstands)
  | seed _ hstands => exact tells_seedFragment (hname hstands)

theorem origin_of_source {f : Fragment} {folder name : Text}
    (h : f.source = some (sourceOf folder name)) : f.origin = some (sourceOf folder name) := by
  rw [Fragment.origin, h, Fragment.given, Option.filter_some, if_pos]
  simp [sourceOf]

/-- Something is said about every artifact. -/
theorem MadeFor.exists_said (h : MadeFor d root path f) : ∃ text, text ∈ f.said := by
  have hmarker : ∀ {folder name}, f.source = some (sourceOf folder name) →
      ∃ text, text ∈ f.said := fun hsource =>
    ⟨_, Fragment.mem_said.2 (.inl ⟨_, origin_of_source hsource, .inl rfl⟩)⟩
  cases h with
  | migration => exact hmarker rfl
  | object => exact hmarker rfl
  | recordedMigration _ hf =>
    obtain ⟨_, _, hf⟩ := Outcome.bind_eq_ok.1 hf
    obtain rfl := Outcome.pure_eq_ok.1 hf
    exact hmarker rfl
  | recordedObject => exact hmarker rfl
  | seed => exact hmarker rfl

/-- The body that a fragment takes in is that of the artifact. -/
theorem MadeFor.mem_bodies (h : MadeFor d root path f) {body : Text} (hbody : body ∈ f.bodies) :
    ∃ file : SqlFile, file.path = path ∧ StandsOn d file ∧ body = file.body := by
  cases h with
  | migration stage _ hstands => exact ⟨_, rfl, hstands, List.mem_singleton.1 hbody⟩
  | object stage records _ hstands =>
    cases records with
    | false => exact ⟨_, rfl, hstands, List.mem_singleton.1 hbody⟩
    | true => exact ⟨_, rfl, hstands, List.mem_singleton.1 hbody⟩
  | recordedMigration hpath hf =>
    obtain ⟨name, _, hf⟩ := Outcome.bind_eq_ok.1 hf
    obtain rfl := Outcome.pure_eq_ok.1 hf
    cases hbody
  | recordedObject => cases hbody
  | seed _ hstands => exact ⟨_, rfl, hstands, List.mem_singleton.1 hbody⟩

theorem Contents.FragmentOf.madeFor {c : Contents} {file : SqlFile} (hc : c.OfTree d root)
    (h : c.FragmentOf file f) : MadeFor d root file.path f := by
  cases h with
  | bootstrap hfile =>
    obtain ⟨hpath, hstands⟩ := (hc.bootstrap file).1 hfile
    exact .migration _ (.inl hpath) hstands
  | migration hfile =>
    obtain ⟨⟨hlisted, _⟩, hstands⟩ := (hc.migrations file).1 hfile
    exact .migration _ (.inr hlisted) hstands
  | object hfile hf =>
    obtain ⟨⟨records, stage⟩, _, rfl⟩ := List.mem_map.1 hf
    obtain ⟨hlisted, hstands⟩ := (hc.objects _ file).1 hfile
    exact .object stage records hlisted hstands

end Script

end SchemaLedger
