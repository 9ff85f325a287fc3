import SchemaLedger.Proofs.Cli.Run
import SchemaLedger.Proofs.Settings.Load

/-!
# What a command line does not report

A run ends with an exit code unless a fault escapes.  Faults come from the environment
file, from the bytes, literals and depth of the settings document, from paths that cannot be
looked at or are none, from texts that have no bytes, from words that a tool cannot be
given and from what it answers if that is no text, and from the name of a numbered
artifact whose digits are not decimal.  Whatever else goes wrong is a failure, and the
report says what and why.
-/

namespace SchemaLedger

namespace Act

variable {α β : Type} {P : Fault → Prop} {act : Act α} {next : α → Act β} {w : World} {base : Disk}

/-- A fault that the run ends with is one of these. -/
def FaultsIn (P : Fault → Prop) (act : Act α) (w : World) : Prop :=
  Outcome.FaultsIn P (act.runIn w).1

theorem FaultsIn.mono {Q : Fault → Prop} (h : FaultsIn P act w)
    (himp : ∀ fault, P fault → Q fault) :
    FaultsIn Q act w :=
  fun fault hfault => himp fault (h fault hfault)

theorem FaultsIn.bind_run (h : FaultsIn P act w)
    (hnext : ∀ a w', act.runIn w = (.ok a, w') → FaultsIn P (next a) w') :
    FaultsIn P (act >>= next) w := by
  unfold FaultsIn at *
  rw [runIn_bind]
  generalize act.runIn w = ended at h hnext ⊢
  obtain ⟨e | a, w'⟩ := ended
  · intro fault hfault
    obtain rfl : e = .fault fault := Except.error.inj hfault
    exact h fault rfl
  · exact hnext a w' rfl

theorem FaultsIn.bind (h : FaultsIn P act w) (hnext : ∀ a w', FaultsIn P (next a) w') :
    FaultsIn P (act >>= next) w :=
  h.bind_run fun a w' _ => hnext a w'

theorem FaultsIn.onFailure (h : FaultsIn P act w) (f : Disk → Disk) :
    FaultsIn P (act.onFailure (changeAnyway f)) w := by
  unfold FaultsIn at *
  rw [runIn_onFailure]
  generalize act.runIn w = ended at h ⊢
  obtain ⟨(failure | fault) | a, w'⟩ := ended
  · exact Outcome.faultsIn_failure _
  · exact h
  · exact h

end Act

namespace Tool

open Act

/-- What a call of a tool does not report: what bars its script or what is printed for it,
a word that the tool cannot be given, and an answer that is no text. -/
inductive Faulty (d : Disk) (tools : Call → Reply) : Fault → Prop
  | barred {fault : Fault} : Disk.Barred d fault → Faulty d tools fault
  | word {command : Text} {arguments : List Argument} {reason : Unusable} :
      unusable? command arguments = some reason → Faulty d tools (.unusable reason)
  | answer {call : Call} {code : Int} {output complaints : Bytes} {fault : Utf8.Fault} :
      tools call = .ended code output complaints → written output complaints = .error fault →
      Faulty d tools (.encoding fault)

end Tool

namespace Artifact

open Act Disk

variable {P : Fault → Prop} {root : Path} {base : Disk}

end Artifact
namespace Cli

open Act Artifact Disk

variable {P : Fault → Prop} {w w' : World} {command : Command} {settings : Settings}
variable {line : List Text} {request : Request} {fault : Fault} {code : Nat}

/-! ## Commands -/

/-- A root that may not be entered is a folder, and a look at the folders in it is the
fault that ends the run. -/
example :
    let disk : Disk := ⟨Tree.empty.insertNew [] "a".name .sealed rfl rfl, []⟩
    ((run ["apply".text, "--path".text, "a".text]).runIn { disk }).1 =
      .error (.fault (.system ⟨.accessDenied, "a/functions".text⟩)) := by
  rfl

/-- An environment file that may not be read ends every run. -/
example :
    let disk : Disk := ⟨Tree.empty.insertNew [] ".env".name .locked rfl rfl, []⟩
    ((run ["seed".text]).runIn { disk }).1 =
      .error (.fault (.system ⟨.accessDenied, "/.env".text⟩)) := by
  rfl

end Cli
end SchemaLedger
