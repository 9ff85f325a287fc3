import SchemaLedger.Proofs.Script.Complete

/-!
# Faults that no failure takes in

A part of the program that goes wrong ends with a failure, which is reported, or with a
fault, which is not.  What the file system answers when it is only asked about a path is
such a fault, and it has two causes: the path or a name in it is too long, or the path
leads into something sealed.
-/

namespace SchemaLedger

namespace Outcome

variable {α β : Type} {P : Fault → Prop} {x : Except Error α} {f : α → Except Error β}

/-- A fault that the computation ends with is one of these. -/
def FaultsIn (P : Fault → Prop) (x : Except Error α) : Prop :=
  ∀ fault, x = .error (.fault fault) → P fault

theorem faultsIn_failure (failure : Failure) :
    FaultsIn P (.error (.failure failure) : Except Error α) := nofun

theorem FaultsIn.bind_ok (h : FaultsIn P x) (hf : ∀ a, x = .ok a → FaultsIn P (f a)) :
    FaultsIn P (x >>= f) := by
  intro fault hfault
  cases x with
  | error e =>
    obtain rfl : e = .fault fault := Except.error.inj hfault
    exact h fault rfl
  | ok a => exact hf a rfl fault hfault

theorem FaultsIn.bind (h : FaultsIn P x) (hf : ∀ a, FaultsIn P (f a)) : FaultsIn P (x >>= f) :=
  h.bind_ok fun a _ => hf a

theorem FaultsIn.mono {Q : Fault → Prop} (h : FaultsIn P x) (himp : ∀ {fault}, P fault → Q fault) :
    FaultsIn Q x :=
  fun fault hfault => himp (h fault hfault)

theorem FaultsIn.map (h : FaultsIn P x) (g : α → β) : FaultsIn P (x.map g) := by
  intro fault hfault
  cases x with
  | error e =>
    obtain rfl : e = .fault fault := Except.error.inj hfault
    exact h fault rfl
  | ok a => cases hfault

end Outcome

namespace Disk

open Outcome

variable {d : Disk} {p : Path} {fault : SystemFault}

/-- The path is too long, or one of its names is. -/
def TooLong (p : Path) : Prop :=
  ¬(ShortPath p ∧ ∀ name ∈ p.names, ShortName name)

/-- What the file system answers instead of looking at a path: it is too long, or it
leads into something sealed. -/
inductive Unseen (d : Disk) (p : Path) : SystemFault → Prop
  | tooLong : TooLong p → Unseen d p ⟨.nameTooLong, p.text⟩
  | shut : Shut d p → Unseen d p ⟨.accessDenied, p.text⟩

/-- A look at some path is not answered. -/
inductive Unanswered (d : Disk) : Fault → Prop
  | look {p : Path} {fault : SystemFault} : Unseen d p fault → Unanswered d (.system fault)

/-- What bars a request to look, to write or to print: the path cannot be looked at or is
none, or the text has no bytes. -/
inductive Barred (d : Disk) : Fault → Prop
  | unanswered {fault : Fault} : Unanswered d fault → Barred d fault
  | noPath {p : Path} {reason : Unusable} : p.text.unusable? = some reason →
      Barred d (.unusable reason)
  | noBytes {t : Text} {fault : Utf8.Unencodable} : Utf8.encodeStrict t = .error fault →
      Barred d (.unusable (.unencodable fault))

end Disk

namespace Artifact

open Outcome Disk

variable {P : Fault → Prop}

end Artifact

namespace Script

open Outcome Disk Artifact

end Script
end SchemaLedger
