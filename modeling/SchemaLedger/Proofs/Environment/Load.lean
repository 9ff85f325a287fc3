import SchemaLedger.Environment.Load
import SchemaLedger.Proofs.World

/-!
# Loading the environment

Loading the environment leaves nothing behind but variables and complaints.  It goes
wrong when the environment file cannot be read as text or names a variable that the
environment cannot hold, and none of this is a failure that is reported.
-/

namespace SchemaLedger
namespace EnvFile

variable {w w' : World} {e : Error} {named : Variables}

theorem isQuiet_complainAll (statements : List Statement) : (complainAll statements).IsQuiet := by
  induction statements with
  | nil => exact Act.isQuiet_pure ()
  | cons s rest ih =>
    cases s with
    | entry name value => exact ih
    | broken line => exact (Act.isQuiet_complain _).bind fun _ => ih

theorem isQuiet_addVariables (named : Variables) : (addVariables named).IsQuiet := by
  induction named with
  | nil => exact Act.isQuiet_pure ()
  | cons first rest ih =>
    obtain ⟨name, value⟩ := first
    rw [addVariables]
    refine Act.isQuiet_get.bind fun w => ?_
    dsimp only
    split
    · refine (Act.isQuiet_look _).bind fun _ => ?_
      exact Act.IsQuiet.bind (fun _ => ⟨rfl, rfl, rfl, rfl, rfl, rfl⟩) fun _ => ih
    · exact ih

theorem isQuiet_load : load.IsQuiet :=
  (Act.isQuiet_look _).bind fun _ => (isQuiet_complainAll _).bind fun _ =>
    Act.isQuiet_get.bind fun _ => isQuiet_addVariables _

/-! ## Faults -/

/-- The text of the environment file, which is empty if there is none. -/
def fileText (d : Disk) : Except Fault Text :=
  match find? d with
  | none => .ok []
  | some path => d.readText path

/-- What can be wrong with the environment file: it cannot be read as text, or it names a
variable that the environment cannot hold. -/
inductive Faulty (w : World) : Fault → Prop
  | text {fault : Fault} : fileText w.disk = .error fault → Faulty w fault
  | variable {t name value : Text} {fault : Fault} : fileText w.disk = .ok t →
      (name, some value) ∈ variablesOf w.environment (statements t) →
      checkVariable name value = .error fault → Faulty w fault

theorem exists_runIn_complainAll (statements : List Statement) (w : World) :
    ∃ complaints, (complainAll statements).runIn w = (.ok (), { w with complaints }) := by
  induction statements generalizing w with
  | nil => exact ⟨w.complaints, rfl⟩
  | cons s rest ih =>
    cases s with
    | entry name value => exact ih w
    | broken line =>
      obtain ⟨complaints, hrest⟩ :=
        ih { w with complaints := w.complaints ++ brokenRemark line ++ [.char '\n'] }
      exact ⟨complaints, Act.bind_eq_ok.2 ⟨(), _, Act.runIn_complain _, hrest⟩⟩

theorem addVariables_error (h : (addVariables named).runIn w = (.error e, w')) :
    ∃ name value fault, (name, some value) ∈ named ∧ checkVariable name value = .error fault ∧
      e = .fault fault := by
  induction named generalizing w with
  | nil => cases h
  | cons first rest ih =>
    obtain ⟨name, value⟩ := first
    have later : ∀ {w : World}, (addVariables rest).runIn w = (.error e, w') →
        ∃ name' value' fault, (name', some value') ∈ (name, value) :: rest ∧
          checkVariable name' value' = .error fault ∧ e = .fault fault := fun h => by
      obtain ⟨name', value', fault, hmem, hfault⟩ := ih h
      exact ⟨name', value', fault, List.mem_cons_of_mem _ hmem, hfault⟩
    rw [addVariables, Act.runIn_bind, Act.runIn_get] at h
    dsimp only at h
    split at h
    · next value _ =>
      rcases Act.bind_eq_error.1 h with hlook | ⟨_, _, _, h⟩
      · have hcheck : (checkVariable name value).mapError Error.fault = .error e :=
          congrArg Prod.fst hlook
        cases hvariable : checkVariable name value with
        | ok done =>
          rw [hvariable] at hcheck
          cases hcheck
        | error fault =>
          rw [hvariable] at hcheck
          exact ⟨name, value, fault, List.mem_cons_self, hvariable, (Except.error.inj hcheck).symm⟩
      · rcases Act.bind_eq_error.1 h with hmodify | ⟨_, _, _, h⟩
        · cases hmodify
        · exact later h
    · exact later h

theorem runIn_load (w : World) :
    load.runIn w = match fileText w.disk with
      | .error fault => (.error (.fault fault), w)
      | .ok t => (do
          complainAll (statements t)
          addVariables (variablesOf (← get).environment (statements t)) : Act Unit).runIn w := by
  unfold load fileText
  rw [Act.runIn_bind, Act.runIn_look]
  cases find? w.disk with
  | none => rfl
  | some path => cases hread : w.disk.readText path <;> simp only [hread] <;> rfl

/-- An environment that cannot be loaded ends a run with a fault. -/
theorem load_error (h : load.runIn w = (.error e, w')) :
    ∃ fault, e = .fault fault ∧ Faulty w fault := by
  rw [runIn_load] at h
  cases htext : fileText w.disk with
  | error fault =>
    rw [htext] at h
    cases h
    exact ⟨fault, rfl, .text htext⟩
  | ok t =>
    rw [htext] at h
    obtain ⟨complaints, hcomplain⟩ := exists_runIn_complainAll (statements t) w
    rcases Act.bind_eq_error.1 h with hfail | ⟨_, _, hdone, h⟩
    · rw [hcomplain] at hfail
      cases hfail
    · rw [hcomplain] at hdone
      cases hdone
      rw [Act.runIn_bind, Act.runIn_get] at h
      obtain ⟨name, value, fault, hmem, hcheck, rfl⟩ := addVariables_error h
      exact ⟨fault, rfl, .variable htext hmem hcheck⟩

end EnvFile
end SchemaLedger
