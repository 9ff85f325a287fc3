import Mathlib.Data.List.Nodup
import SchemaLedger.Dump.Split

/-!
# Statements of one kind by name

Every name of a kind stands once, with the last statement of that kind and
name.
-/

namespace SchemaLedger

theorem nodup_eraseDups {α : Type} [BEq α] [LawfulBEq α] (l : List α) : l.eraseDups.Nodup := by
  induction hn : l.length using Nat.strongRecOn generalizing l with
  | _ n ih =>
    cases l with
    | nil => simp
    | cons a rest =>
      have hshorter : (rest.filter fun b => !b == a).length < n := by
        have := List.length_filter_le (fun b => !b == a) rest
        rw [← hn, List.length_cons]
        omega
      rw [List.eraseDups_cons, List.nodup_cons]
      refine ⟨fun hmem => ?_, ih _ hshorter _ rfl⟩
      have := (List.mem_filter.1 (List.mem_eraseDups.1 hmem)).2
      simp at this

namespace Dump
namespace Split

variable {split : Split} {kind : ObjectKind}

theorem mem_ofKind {name : Text} {s : Statement} :
    (name, s) ∈ split.ofKind kind ↔
      split.statements.reverse.find? (fun t => t.kind = kind ∧ t.name = name) = some s := by
  have hfind : ∀ name : Text,
      (split.statements.filter (·.kind = kind)).reverse.find? (·.name = name) =
        split.statements.reverse.find? fun t => t.kind = kind ∧ t.name = name := fun name => by
    rw [← List.filter_reverse, List.find?_filter]
    simp only [Bool.decide_and, Bool.decide_eq_true]
  rw [ofKind, List.mem_filterMap]
  constructor
  · rintro ⟨other, _, hother⟩
    rw [hfind] at hother
    obtain ⟨t, ht, heq⟩ := Option.map_eq_some_iff.1 hother
    cases heq
    exact ht
  · intro hs
    have hmem := List.mem_reverse.1 (List.mem_of_find?_eq_some hs)
    have hboth : s.kind = kind ∧ s.name = name := by simpa using List.find?_some hs
    refine ⟨name, List.mem_eraseDups.2 (List.mem_map.2 ⟨s, ?_, hboth.2⟩), ?_⟩
    · exact List.mem_filter.2 ⟨hmem, decide_eq_true hboth.1⟩
    · rw [hfind, hs]
      rfl

theorem names_ofKind_nodup : ((split.ofKind kind).map Prod.fst).Nodup := by
  have hname : ∀ {a name : Text} {found : Option Statement},
      name ∈ (found.map fun s => (a, s)).map Prod.fst → a = name := by
    rintro a name (_ | s) h
    · cases h
    · exact Option.some.inj h
  rw [ofKind, List.map_filterMap]
  exact (nodup_eraseDups _).filterMap fun a b name ha hb => (hname ha).trans (hname hb).symm

end Split
end Dump
end SchemaLedger
