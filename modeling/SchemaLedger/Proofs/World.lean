import SchemaLedger.Proofs.Text.Utf8
import SchemaLedger.World

/-!
# Runs of a part of the program

What the parts of a run say about the run: where it ends, and in which world.
-/

namespace SchemaLedger
namespace Act

variable {α β : Type} {act : Act α} {next : α → Act β} {w w' : World}

theorem runIn_eq_of_fst {r : Except Error α} (h : (act.runIn w).1 = r) :
    act.runIn w = (r, (act.runIn w).2) := by
  rw [← h]

theorem runIn_look (f : Disk → Except Error α) : (look f).runIn w = (f w.disk, w) := rfl

theorem runIn_complain (t : Text) :
    (complain t).runIn w = (.ok (), { w with complaints := w.complaints ++ t ++ [.char '\n'] }) :=
    rfl

theorem runIn_print {t : Text} (h : t.Plain) :
    (print t).runIn w = (.ok (), { w with output := w.output ++ t }) := by
  unfold print encode
  rw [Utf8.encodeStrict_of_plain h]
  rfl

/-- What holds a surrogate is not printed at all. -/
theorem runIn_print_of_unencodable {t : Text} {fault : Utf8.Unencodable}
    (h : Utf8.encodeStrict t = .error fault) :
    (print t).runIn w = (.error (.unencodable fault), w) := by
  unfold print encode
  rw [h]
  rfl

theorem disk_of_print {t : Text} {r : Except Error Unit} (h : (print t).runIn w = (r, w')) :
    w'.disk = w.disk := by
  cases hencode : Utf8.encodeStrict t with
  | ok data =>
    rw [runIn_print (Utf8.encodeStrict_eq_ok.1 hencode).1] at h
    cases h
    rfl
  | error fault =>
    rw [runIn_print_of_unencodable hencode] at h
    cases h
    rfl

theorem plain_line {t : Text} (h : t.Plain) : Text.Plain (t ++ [.char '\n']) :=
  Text.plain_append.2 ⟨h, Text.plain_text "\n"⟩

theorem runIn_change {f : Disk → Except PathFault Unit × Disk} {report : SystemFault → Failure}
    {r : Except PathFault Unit} {d : Disk} (h : f w.disk = (r, d)) :
    (change f report).runIn w = (r.mapError (·.reported report), { w with disk := d }) := by
  unfold change runIn
  rw [ExceptT.run_mk]
  simp only [StateT.run, h]
  cases r with
  | error fault => rfl
  | ok u => rfl

theorem change_eq_error {f : Disk → Except PathFault Unit × Disk} {report : SystemFault → Failure}
    {e : Error} (h : (change f report).runIn w = (.error e, w')) :
    ∃ fault : PathFault, e = fault.reported report ∧ f w.disk = (.error fault, w'.disk) := by
  rcases hresult : f w.disk with ⟨fault | u, disk⟩
  · rw [runIn_change hresult] at h
    cases h
    exact ⟨fault, rfl, rfl⟩
  · rw [runIn_change hresult] at h
    cases h

theorem disk_of_change {f : Disk → Except PathFault Unit × Disk} {report : SystemFault → Failure}
    {r : Except Error Unit} (h : (change f report).runIn w = (r, w')) :
    w'.disk = (f w.disk).2 := by
  have hpair : f w.disk = ((f w.disk).1, (f w.disk).2) := rfl
  rw [runIn_change hpair] at h
  cases h
  rfl

theorem runIn_bind (act : Act α) (next : α → Act β) (w : World) :
    (act >>= next).runIn w =
      match act.runIn w with
      | (.ok a, w') => (next a).runIn w'
      | (.error e, w') => (.error e, w') := by
  unfold runIn
  rw [ExceptT.run_bind, StateT.run_bind]
  show Bind.bind (m := Id) (act.run.run w) _ = _
  rcases act.run.run w with ⟨_ | _, w'⟩ <;> rfl

theorem runIn_tryCatch (act : Act α) (handler : Error → Act α) (w : World) :
    (tryCatch act handler : Act α).runIn w =
      match act.runIn w with
      | (.ok a, w') => (.ok a, w')
      | (.error e, w') => (handler e).runIn w' := by
  unfold runIn
  simp only [tryCatch, tryCatchThe, MonadExceptOf.tryCatch, ExceptT.tryCatch, ExceptT.run_mk,
    StateT.run_bind]
  show Bind.bind (m := Id) (act.run.run w) _ = _
  rcases act.run.run w with ⟨_ | _, w'⟩ <;> rfl

/-- Only a failure is undone, and it stays a failure. -/
theorem runIn_onFailure (act : Act α) (f : Disk → Disk) (w : World) :
    (act.onFailure (changeAnyway f)).runIn w =
      match act.runIn w with
      | (.error (.failure e), w') => (.error (.failure e), { w' with disk := f w'.disk })
      | (r, w') => (r, w') := by
  unfold onFailure
  rw [runIn_tryCatch]
  rcases act.runIn w with ⟨(e | e) | a, w'⟩ <;> rfl

/-- A run of two parts ends well when both do. -/
theorem bind_eq_ok {b : β} {w'' : World} :
    (act >>= next).runIn w = (.ok b, w'') ↔
      ∃ a w', act.runIn w = (.ok a, w') ∧ (next a).runIn w' = (.ok b, w'') := by
  rw [runIn_bind]
  rcases act.runIn w with ⟨e | a, w'⟩
  · simp
  · constructor
    · exact fun h => ⟨a, w', rfl, h⟩
    · rintro ⟨_, _, heq, h⟩
      cases heq
      exact h

theorem bind_eq_error {e : Error} {w'' : World} :
    (act >>= next).runIn w = (.error e, w'') ↔
      act.runIn w = (.error e, w'') ∨
        ∃ a w', act.runIn w = (.ok a, w') ∧ (next a).runIn w' = (.error e, w'') := by
  rw [runIn_bind]
  rcases act.runIn w with ⟨f | a, w'⟩
  · simp
  · constructor
    · exact fun h => .inr ⟨a, w', rfl, h⟩
    · rintro (heq | ⟨_, _, heq, h⟩)
      · cases heq
      · cases heq
        exact h

/-- Each complaint is a line of its own. -/
theorem runIn_forM_complain (lines : List Text) (w : World) :
    (lines.forM complain).runIn w =
      (.ok (), { w with complaints := w.complaints ++ lines.flatMap (· ++ [.char '\n']) }) := by
  induction lines generalizing w with
  | nil =>
    rw [List.flatMap_nil, List.append_nil]
    rfl
  | cons line rest ih =>
    have hrest := ih { w with complaints := w.complaints ++ line ++ [.char '\n'] }
    refine bind_eq_ok.2 ⟨(), _, runIn_complain line, hrest.trans ?_⟩
    simp only [List.flatMap_cons, List.append_assoc]

theorem runIn_forM_printLine {f : Text → Text} {lines : List Text}
    (h : ∀ line ∈ lines, (f line).Plain) (w : World) :
    (lines.forM fun line => printLine (f line)).runIn w =
      (.ok (), { w with output := w.output ++ (lines.map f).flatMap (· ++ [.char '\n']) }) := by
  induction lines generalizing w with
  | nil =>
    rw [List.map_nil, List.flatMap_nil, List.append_nil]
    rfl
  | cons line rest ih =>
    obtain ⟨hline, hmore⟩ := List.forall_mem_cons.1 h
    have hrest := ih hmore { w with output := w.output ++ (f line ++ [.char '\n']) }
    refine bind_eq_ok.2 ⟨(), _, runIn_print (plain_line hline), hrest.trans ?_⟩
    simp only [List.map_cons, List.flatMap_cons, List.append_assoc]

end Act

/-! ## Parts that only talk -/

/-- The worlds differ at most in the environment and in the complaints. -/
structure World.Quiet (w w' : World) : Prop where
  disk : w'.disk = w.disk
  tools : w'.tools = w.tools
  overflows : w'.overflows = w.overflows
  scripts : w'.scripts = w.scripts
  calls : w'.calls = w.calls
  output : w'.output = w.output

namespace World.Quiet

variable {w w' w'' : World}

theorem refl (w : World) : w.Quiet w :=
  ⟨rfl, rfl, rfl, rfl, rfl, rfl⟩

theorem trans (h : w.Quiet w') (h' : w'.Quiet w'') : w.Quiet w'' :=
  ⟨h'.disk.trans h.disk, h'.tools.trans h.tools, h'.overflows.trans h.overflows,
    h'.scripts.trans h.scripts, h'.calls.trans h.calls, h'.output.trans h.output⟩

end World.Quiet

namespace Act

variable {α β : Type} {act : Act α} {next : α → Act β}

/-- However it ends, nothing is left behind but variables and complaints. -/
def IsQuiet (act : Act α) : Prop :=
  ∀ w : World, w.Quiet (act.runIn w).2

theorem isQuiet_pure (a : α) : (pure a : Act α).IsQuiet :=
  fun w => .refl w

theorem isQuiet_look (f : Disk → Except Error α) : (look f).IsQuiet :=
  fun w => .refl w

theorem isQuiet_complain (t : Text) : (complain t).IsQuiet :=
  fun _ => ⟨rfl, rfl, rfl, rfl, rfl, rfl⟩

theorem IsQuiet.bind (h : act.IsQuiet) (hnext : ∀ a, (next a).IsQuiet) :
    (act >>= next).IsQuiet := by
  intro w
  have hfirst := h w
  rw [runIn_bind]
  generalize act.runIn w = ended at hfirst ⊢
  obtain ⟨e | a, w'⟩ := ended
  · exact hfirst
  · exact hfirst.trans (hnext a w')

theorem runIn_get (w : World) : (get : Act World).runIn w = (.ok w, w) := rfl

theorem isQuiet_get : (get : Act World).IsQuiet :=
  fun w => .refl w

end Act
end SchemaLedger
