import SchemaLedger.Proofs.Script.Source

/-!
# Drift between two scripts

Two scripts drift apart where a source has a block in one of them only, or blocks
of different lines.
-/

namespace SchemaLedger

/-! ## Lists with keys -/

/-- Lists are mapped alike where elements with the same key are. -/
theorem map_eq_map_of_keys {α β κ : Type} {key : α → κ} {f g : α → β} {xs ys : List α}
    (hkeys : xs.map key = ys.map key)
    (h : ∀ x ∈ xs, ∀ y ∈ ys, key x = key y → f x = g y) : xs.map f = ys.map g := by
  induction xs generalizing ys with
  | nil =>
    obtain rfl := List.map_eq_nil_iff.1 hkeys.symm
    rfl
  | cons x xs ih =>
    obtain ⟨y, ys, rfl, hkey, hrest⟩ := List.map_eq_cons_iff.1 hkeys.symm
    rw [List.map_cons, List.map_cons, h x List.mem_cons_self y List.mem_cons_self hkey.symm,
      ih hrest.symm fun x hx y hy =>
        h x (List.mem_cons_of_mem _ hx) y (List.mem_cons_of_mem _ hy)]

theorem filter_key_of_nodup {α κ : Type} [DecidableEq κ] {key : α → κ} {xs : List α} {x : α}
    (hnodup : (xs.map key).Nodup) (hx : x ∈ xs) : xs.filter (key · = key x) = [x] := by
  induction xs with
  | nil => cases hx
  | cons y ys ih =>
    obtain ⟨hy, hnodup⟩ := List.nodup_cons.1 hnodup
    rcases List.mem_cons.1 hx with rfl | hx
    · have hnone : ys.filter (key · = key x) = [] := by
        refine List.filter_eq_nil_iff.2 fun y hmem hkey => hy ?_
        exact List.mem_map.2 ⟨y, hmem, of_decide_eq_true hkey⟩
      rw [List.filter_cons_of_pos (by simp), hnone]
    · have hne : key y ≠ key x := fun hkey => hy (hkey ▸ List.mem_map_of_mem hx)
      rw [List.filter_cons_of_neg (by simpa using hne), ih hnodup hx]

/-- Pieces of the same lengths that are put together alike are the same. -/
theorem eq_of_flatMap_eq {π α : Type} {ps : List π} {f g : π → List α}
    (hlength : ∀ p ∈ ps, (f p).length = (g p).length) (h : ps.flatMap f = ps.flatMap g) :
    ∀ p ∈ ps, f p = g p := by
  induction ps with
  | nil => exact nofun
  | cons p ps ih =>
    rw [List.flatMap_cons, List.flatMap_cons] at h
    obtain ⟨hpiece, hrest⟩ := List.append_inj h (hlength p List.mem_cons_self)
    exact List.forall_mem_cons.2
      ⟨hpiece, ih (fun q hq => hlength q (List.mem_cons_of_mem _ hq)) hrest⟩

theorem length_flatMap_add {π α : Type} {ps : List π} {f g : π → List α} {m n : Nat}
    (h : ∀ p ∈ ps, (f p).length + n = (g p).length + m) :
    (ps.flatMap f).length + ps.length * n = (ps.flatMap g).length + ps.length * m := by
  induction ps with
  | nil => simp
  | cons p ps ih =>
    obtain ⟨hp, hps⟩ := List.forall_mem_cons.1 h
    have hrest := ih hps
    simp only [List.flatMap_cons, List.length_append, List.length_cons, Nat.succ_mul]
    omega

/-- Pieces that are longer than others by a common length can only be cut out of
the whole in one way. -/
theorem eq_of_flatMap_eq_add {π α : Type} {ps : List π} {f g : π → List α} {m n : Nat}
    (hlength : ∀ p ∈ ps, (f p).length + n = (g p).length + m)
    (h : ps.flatMap f = ps.flatMap g) : ∀ p ∈ ps, f p = g p := by
  refine eq_of_flatMap_eq (fun p hp => ?_) h
  have hwhole := length_flatMap_add hlength
  rw [h] at hwhole
  have hmn : n = m :=
    Nat.eq_of_mul_eq_mul_left (List.length_pos_of_mem hp) (Nat.add_left_cancel hwhole)
  exact Nat.add_right_cancel (hmn ▸ hlength p hp)

theorem lookup_map_pair {α β : Type} [BEq α] [LawfulBEq α] {f : α → β}
    {keys : List α} {key : α} :
    (keys.map fun k => (k, f k)).lookup key = if key ∈ keys then some (f key) else none := by
  induction keys with
  | nil => rfl
  | cons k rest ih =>
    rw [List.map_cons]
    by_cases hkey : key = k
    · subst hkey
      rw [List.lookup_cons_self, if_pos List.mem_cons_self]
    · rw [List.lookup_cons, beq_false_of_ne hkey, ih]
      simp [hkey]

namespace Script

/-! ## Drift between scripts -/

theorem lookup_eq_none_iff_keys {blocks : Blocks} {source : Text} :
    blocks.lookup source = none ↔ source ∉ blocks.map (·.1) := by
  rw [List.lookup_eq_none_iff]
  simp only [bne_iff_ne, List.mem_map, not_exists, not_and]
  exact forall_congr' fun p => forall_congr' fun _ => ne_comm

theorem driftOf_eq_none_iff {old new : Blocks} {source : Text} :
    driftOf old new source = none ↔
      ∃ lines, old.lookup source = some lines ∧ new.lookup source = some lines := by
  unfold driftOf
  cases hold : old.lookup source with
  | none => simp
  | some lines =>
    cases hnew : new.lookup source with
    | none => simp
    | some others =>
      simp only [Option.some.injEq, exists_eq_left']
      by_cases h : lines = others
      · simp [h]
      · simp [h, Ne.symm h]

/-- Two scripts drift apart unless each source has the same block in both. -/
theorem drift_eq_nil_iff {existing generated : Text} :
    drift existing generated = [] ↔
      ∀ source, (blocks existing).lookup source = (blocks generated).lookup source := by
  have hsources : drift existing generated = [] ↔
      ∀ source, source ∈ (blocks existing).map (·.1) ++ (blocks generated).map (·.1) →
        driftOf (blocks existing) (blocks generated) source = none := by
    simp only [drift, List.filterMap_eq_nil_iff, List.mem_mergeSort, List.mem_eraseDups,
      Option.map_eq_none_iff]
  rw [hsources]
  refine forall_congr' fun source => ?_
  rw [driftOf_eq_none_iff]
  by_cases hmem : source ∈ (blocks existing).map (·.1) ++ (blocks generated).map (·.1)
  · constructor
    · intro h
      obtain ⟨lines, hold, hnew⟩ := h hmem
      rw [hold, hnew]
    · intro heq _
      cases hold : (blocks existing).lookup source with
      | some lines => exact ⟨lines, rfl, heq ▸ hold⟩
      | none =>
        rw [hold] at heq
        rw [List.mem_append] at hmem
        exact absurd hmem
          (not_or.2 ⟨lookup_eq_none_iff_keys.1 hold, lookup_eq_none_iff_keys.1 heq.symm⟩)
  · rw [List.mem_append, not_or] at hmem
    have hnone := lookup_eq_none_iff_keys.2 hmem.1
    have hnone' := lookup_eq_none_iff_keys.2 hmem.2
    refine ⟨fun _ => hnone.trans hnone'.symm, fun _ hmem' => ?_⟩
    exact absurd (List.mem_append.1 hmem') (not_or.2 hmem)

/-! ## Fragments with the same blocks -/

/-- The sources of the fragments are the same, and so are the lines of each. -/
structure SameBlocks (fs gs : List Fragment) : Prop where
  source : ∀ source, ofSource source fs = [] ↔ ofSource source gs = []
  lines : ∀ source, (ofSource source fs).flatMap Fragment.content =
    (ofSource source gs).flatMap Fragment.content

theorem mem_origins_iff {fs : List Fragment} {source : Text} :
    source ∈ fs.filterMap Fragment.origin ↔ ofSource source fs ≠ [] := by
  rw [List.mem_filterMap, ne_eq, ofSource, List.filter_eq_nil_iff]
  simp

theorem lookup_gathered (fs : List Fragment) (source : Text) :
    (gathered fs).lookup source =
      if ofSource source fs = [] then none
      else some ((ofSource source fs).flatMap Fragment.content) := by
  have hmem : source ∈ (fs.filterMap Fragment.origin).eraseDups ↔ ofSource source fs ≠ [] := by
    rw [List.mem_eraseDups, mem_origins_iff]
  rw [gathered, lookup_map_pair]
  by_cases hnil : ofSource source fs = []
  · rw [if_pos hnil, if_neg (hmem.not_left.2 hnil)]
  · rw [if_neg hnil, if_pos (hmem.2 hnil)]
    rfl

theorem sameBlocks_of_lookup {fs gs : List Fragment}
    (h : ∀ source, (gathered fs).lookup source = (gathered gs).lookup source) :
    SameBlocks fs gs := by
  have hcases : ∀ source, (ofSource source fs = [] ↔ ofSource source gs = []) ∧
      (ofSource source fs).flatMap Fragment.content =
        (ofSource source gs).flatMap Fragment.content := by
    intro source
    have hsource := h source
    rw [lookup_gathered, lookup_gathered] at hsource
    split at hsource <;> split at hsource <;> simp_all
  exact ⟨fun source => (hcases source).1, fun source => (hcases source).2⟩

end Script
end SchemaLedger
