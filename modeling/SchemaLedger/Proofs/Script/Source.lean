import SchemaLedger.Proofs.Artifact.Writing
import SchemaLedger.Proofs.Script.Unmarked

/-!
# The sources of a tree

The source of a fragment says which file it comes from: a file of objects comes
once in each pass over its kind, a migration comes once.
-/

namespace SchemaLedger
namespace Script

/-- The fragments of a source. -/
def ofSource (source : Text) (fs : List Fragment) : List Fragment :=
  fs.filter (·.origin = some source)

theorem ofSource_append (source : Text) (fs gs : List Fragment) :
    ofSource source (fs ++ gs) = ofSource source fs ++ ofSource source gs :=
  List.filter_append fs gs

theorem ofSource_plain {f : Fragment} (h : f.source = none) (source : Text) :
    ofSource source [f] = [] := by
  refine List.filter_eq_nil_iff.2 fun g hg => ?_
  rw [List.mem_singleton.1 hg, Fragment.origin, h]
  simp [Fragment.given]

/-! ## Names of sources -/

theorem takeWhile_sourceOf {folder : Text} (h : .char '/' ∉ folder) (name : Text) :
    (sourceOf folder name).takeWhile (· ≠ .char '/') = folder := by
  have hbefore : ∀ c ∈ folder, decide (c ≠ '/') = true := fun c hc =>
    decide_eq_true fun heq => h (heq ▸ hc)
  rw [sourceOf, List.takeWhile_append_of_pos hbefore, List.takeWhile_cons_of_neg (by simp),
    List.append_nil]

theorem sourceOf_inj {folder folder' name name' : Text} (h : .char '/' ∉ folder)
    (h' : .char '/' ∉ folder') :
    sourceOf folder name = sourceOf folder' name' ↔ folder = folder' ∧ name = name' := by
  constructor
  · intro heq
    have hfolder : folder = folder' := by
      rw [← takeWhile_sourceOf h name, heq, takeWhile_sourceOf h' name']
    subst hfolder
    exact ⟨rfl, (List.cons.inj (List.append_cancel_left heq)).2⟩
  · rintro ⟨rfl, rfl⟩
    rfl

theorem slash_notMem_folder (kind : ObjectKind) : .char '/' ∉ kind.folder := by
  cases kind <;> decide

theorem slash_notMem_migrations : .char '/' ∉ Layout.migrations := by
  decide

theorem sourceOf_kind_inj {kind other : ObjectKind} {name name' : Text} :
    sourceOf kind.folder name = sourceOf other.folder name' ↔ kind = other ∧ name = name' := by
  rw [sourceOf_inj (slash_notMem_folder kind) (slash_notMem_folder other),
    Artifact.folder_injective.eq_iff]

theorem sourceOf_kind_ne (kind : ObjectKind) (name name' : Text) :
    sourceOf kind.folder name ≠ sourceOf Layout.migrations name' := by
  rw [ne_eq, sourceOf_inj (slash_notMem_folder kind) slash_notMem_migrations]
  exact fun h => Artifact.ofText_folder_ne_migrations kind (congrArg Name.ofText h.1)

theorem origin_objectFragment (stage : Stage) (kind : ObjectKind) (records : Bool)
    (file : SqlFile) :
    (objectFragment stage kind.table kind.folder records file).origin =
      some (sourceOf kind.folder file.name) :=
  origin_of_source rfl

theorem origin_migrationFragment (stage : Stage) (file : SqlFile) :
    (migrationFragment stage file).origin = some (sourceOf Layout.migrations file.path.name) :=
  origin_of_source rfl

/-! ## Fragments of files -/

namespace Contents

variable {c : Contents} {kind other : ObjectKind} {records : Bool} {stage : Stage} {name : Text}

theorem ofSource_pass :
    ofSource (sourceOf kind.folder name) (c.pass other records stage) =
      if other = kind then
        ((c.objects kind).filter (·.name = name)).map
          (objectFragment stage kind.table kind.folder records)
      else [] := by
  rw [ofSource, pass, List.filter_map]
  by_cases hkind : other = kind
  · subst hkind
    rw [if_pos rfl]
    refine congrArg _ (List.filter_congr fun file _ => ?_)
    simp only [Function.comp_apply, origin_objectFragment, Option.some.injEq, sourceOf_kind_inj,
      true_and]
  · rw [if_neg hkind, List.map_eq_nil_iff, List.filter_eq_nil_iff]
    intro file _
    simp only [Function.comp_apply, origin_objectFragment, Option.some.injEq, sourceOf_kind_inj,
      hkind, false_and, decide_false, Bool.false_eq_true, not_false_iff]

theorem ofSource_map_migrationFragment (files : List SqlFile) :
    ofSource (sourceOf Layout.migrations name) (files.map (migrationFragment stage)) =
      (files.filter (·.path.name = name)).map (migrationFragment stage) := by
  rw [ofSource, List.filter_map]
  refine congrArg _ (List.filter_congr fun file _ => ?_)
  simp only [Function.comp_apply, origin_migrationFragment, Option.some.injEq,
    sourceOf_inj slash_notMem_migrations slash_notMem_migrations, true_and]

theorem ofSource_pass_of_migration :
    ofSource (sourceOf Layout.migrations name) (c.pass kind records stage) = [] := by
  refine List.filter_eq_nil_iff.2 fun f hf => ?_
  obtain ⟨file, _, rfl⟩ := List.mem_map.1 hf
  simpa only [origin_objectFragment, Option.some.injEq, decide_eq_true_eq] using
    sourceOf_kind_ne kind file.name name

theorem ofSource_map_migrationFragment_of_kind (files : List SqlFile) :
    ofSource (sourceOf kind.folder name) (files.map (migrationFragment stage)) = [] := by
  refine List.filter_eq_nil_iff.2 fun f hf => ?_
  obtain ⟨file, _, rfl⟩ := List.mem_map.1 hf
  simpa only [origin_migrationFragment, Option.some.injEq, decide_eq_true_eq] using
    (sourceOf_kind_ne kind name file.path.name).symm

theorem ofSource_opening (source : Text) : ofSource source [opening] = [] :=
  ofSource_plain rfl source

theorem ofSource_tables (source : Text) : ofSource source [tables] = [] :=
  ofSource_plain rfl source

theorem ofSource_check (source : Text) : ofSource source [check] = [] :=
  ofSource_plain rfl source

/-- An object comes in every pass over its kind. -/
theorem ofSource_object (c : Contents) (kind : ObjectKind) (name : Text) :
    ofSource (sourceOf kind.folder name) c.fragments =
      (Ledger.passes kind).flatMap fun (records, stage) =>
        ((c.objects kind).filter (·.name = name)).map
          (objectFragment stage kind.table kind.folder records) := by
  simp only [fragments, parts, List.flatMap_cons, List.flatMap_nil, ofSource_append, ofSource_pass,
    ofSource_map_migrationFragment_of_kind, ofSource_opening, ofSource_tables, ofSource_check,
    List.nil_append, List.append_nil]
  cases kind <;> simp [Ledger.passes]

theorem ofSource_migration (c : Contents) (name : Text) :
    ofSource (sourceOf Layout.migrations name) c.fragments =
      (c.bootstrap.toList.filter (·.path.name = name)).map (migrationFragment .bootstrap) ++
        (c.migrations.filter (·.path.name = name)).map (migrationFragment .migrations) := by
  simp only [fragments, parts, List.flatMap_cons, List.flatMap_nil, ofSource_append,
    ofSource_pass_of_migration, ofSource_map_migrationFragment, ofSource_opening, ofSource_tables,
    ofSource_check, List.nil_append, List.append_nil]

end Contents

end Script
end SchemaLedger
