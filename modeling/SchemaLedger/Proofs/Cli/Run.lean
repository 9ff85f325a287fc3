import SchemaLedger.Cli.Run
import SchemaLedger.Proofs.Environment.Load
import SchemaLedger.Proofs.Tool.Run

/-!
# Runs of a command line

A run loads the environment, reads the command line and attempts what it asks for.
The last step of all decides how the run ends: a failure of the attempt becomes a
report and the exit code one, a fault goes on.
-/

namespace SchemaLedger

namespace Cli

variable {line : List Text} {request : Request} {settings : Settings} {w w' : World}

/-! ## What a command line asks for -/

@[simp] theorem runIn_loadSettings (given : Option SwitchValue) (w : World) :
    (loadSettings given).runIn w = (Settings.loadIn w ((given? given).map Path.ofText), w) := rfl

/-- What a request does until something fails. -/
def Request.attempt (request : Request) : Act Nat := do
  let settings ← loadSettings request.settings
  request.command.perform settings

/-- What is said about a failure: the heading of the command, and a line for the failure
and for its cause. -/
def reportLines (heading : Text) (failure : Failure) : List Text :=
  heading :: (failure.message :: failure.cause?.toList.map Fault.message).map ("  - ".text ++ ·)

/-- How a request ends after its attempt: a failure is reported. -/
def Request.settle (request : Request) : Except Error Nat × World → Except Error Nat × World
  | (.error (.failure failure), w) =>
    (.ok 1, { w with complaints :=
      w.complaints ++ Text.eachLine (reportLines request.command.heading failure) })
  | ended => ended

theorem quiet_settle (request : Request) (ended : Except Error Nat × World) :
    ended.2.Quiet (request.settle ended).2 := by
  obtain ⟨(failure | fault) | code, w⟩ := ended
  · exact ⟨rfl, rfl, rfl, rfl, rfl, rfl⟩
  · exact .refl w
  · exact .refl w

theorem runIn_perform (request : Request) (w : World) :
    request.perform.runIn w = request.settle (request.attempt.runIn w) := by
  show (tryCatch request.attempt _ : Act Nat).runIn w = _
  rw [Act.runIn_tryCatch]
  rcases request.attempt.runIn w with ⟨(failure | fault) | code, w'⟩
  · simp only [Request.settle]
    have hreport := Act.runIn_forM_complain (reportLines request.command.heading failure) w'
    exact Act.bind_eq_ok.2 ⟨(), _, hreport, rfl⟩
  · rfl
  · rfl

theorem runIn_run_of_read (hload : EnvFile.load.runIn w = (.ok (), w'))
    (hread : Request.read line = .ok request) :
    (run line).runIn w =
      ((request.settle (request.attempt.runIn w')).1.map .finished,
        (request.settle (request.attempt.runIn w')).2) := by
  have hrun : (run line).runIn w =
      (do return Ending.finished (← request.perform) : Act Ending).runIn w' := by
    unfold run
    rw [Act.runIn_bind, hload, hread]
  rw [hrun, Act.runIn_bind, runIn_perform]
  rcases request.settle (request.attempt.runIn w') with ⟨e | code, w''⟩ <;> rfl

/-- An attempt that ends well gives the run its exit code. -/
theorem run_of_attempt {w'' : World} {code : Nat} (hload : EnvFile.load.runIn w = (.ok (), w'))
    (hread : Request.read line = .ok request)
    (h : request.attempt.runIn w' = (.ok code, w'')) :
    (run line).runIn w = (.ok (.finished code), w'') := by
  rw [runIn_run_of_read hload hread, h]
  rfl

/-- The exit code zero is that of an attempt that ends well. -/
theorem attempt_of_run {w'' : World} (hload : EnvFile.load.runIn w = (.ok (), w'))
    (hread : Request.read line = .ok request)
    (h : (run line).runIn w = (.ok (.finished 0), w'')) :
    request.attempt.runIn w' = (.ok 0, w'') := by
  rw [runIn_run_of_read hload hread] at h
  generalize request.attempt.runIn w' = ended at h ⊢
  obtain ⟨(failure | fault) | code, last⟩ := ended
  · cases h
  · cases h
  · cases h
    rfl

end Cli
end SchemaLedger
