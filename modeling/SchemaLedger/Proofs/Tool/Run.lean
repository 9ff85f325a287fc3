import SchemaLedger.Proofs.Tool.Place
import SchemaLedger.Proofs.Tree.Name
import SchemaLedger.Proofs.World

/-!
# Calls of the tools

A tool is called once, and what it answers decides how the call ends.  The script that the
runner gets is there as long as the runner runs, however that ends, and what the runner says
is passed on before its exit code is looked at.
-/

namespace SchemaLedger
namespace Tool

open Act

variable {α : Type} {w : World}

/-- A script that can be written is there for the time of an act. -/
theorem runIn_withScript {sql : Text} (h : sql.Plain) (act : Act α) (w : World) :
    (withScript sql act).runIn w =
      ((act.runIn { w with scripts := sql :: w.scripts }).1,
        { (act.runIn { w with scripts := sql :: w.scripts }).2 with
          scripts := (act.runIn { w with scripts := sql :: w.scripts }).2.scripts.tail }) := by
  have htry : (tryCatch (Except.ok <$> act) fun e => return .error e : Act (Except Error α)).runIn
      { w with scripts := sql :: w.scripts } =
        (.ok (act.runIn { w with scripts := sql :: w.scripts }).1,
          (act.runIn { w with scripts := sql :: w.scripts }).2) := by
    rw [runIn_tryCatch, map_eq_pure_bind, runIn_bind]
    rcases act.runIn { w with scripts := sql :: w.scripts } with ⟨e | a, w'⟩ <;> rfl
  unfold withScript Act.encode
  rw [Utf8.encodeStrict_of_plain h]
  show ((do
    let result ← tryCatch (Except.ok <$> act) fun e => return .error e
    modify fun w => { w with scripts := w.scripts.tail }
    MonadExcept.ofExcept result : Act α)).runIn { w with scripts := sql :: w.scripts } = _
  rw [runIn_bind, htry]
  rcases act.runIn { w with scripts := sql :: w.scripts } with ⟨e | a, w'⟩ <;> rfl

/-- Of a script that cannot be written an empty file is left. -/
theorem runIn_withScript_of_unencodable {sql : Text} {fault : Utf8.Unencodable}
    (h : Utf8.encodeStrict sql = .error fault) (act : Act α) (w : World) :
    (withScript sql act).runIn w =
      (.error (.unencodable fault), { w with scripts := [] :: w.scripts }) := by
  unfold withScript Act.encode
  rw [h]
  rfl

/-- The words of a call can all be given to the operating system. -/
def Startable (command : Text) (arguments : List Text) : Prop :=
  command.Usable ∧ ∀ word ∈ arguments, word.Usable

theorem unusable?_eq_none {command : Text} {arguments : List Text} (script : List Argument)
    (h : ∀ word ∈ script.filterMap Argument.word?, word.Usable) :
    unusable? command (arguments.map .word ++ script) = none ↔ Startable command arguments := by
  have hwords : (arguments.map Argument.word).filterMap Argument.word? = arguments := by
    rw [List.filterMap_map]
    exact List.filterMap_some
  rw [unusable?, List.filterMap_append, hwords, List.findSome?_eq_none_iff]
  simp only [Text.unusable?_eq_none, List.mem_cons, List.mem_append, forall_eq_or_imp, Startable]
  exact and_congr_right fun _ => ⟨fun hall word hword => hall word (.inl hword),
    fun hall word hword => hword.elim (hall word) (h word)⟩

theorem runIn_start_of_unusable {command : Text} {arguments : List Argument} {reason : Unusable}
    (h : unusable? command arguments = some reason) (w : World) :
    (start command arguments).runIn w = (.error (.fault (.unusable reason)), w) := by
  unfold start
  rw [h]
  rfl

theorem written_eq_ok {output complaints : Bytes} {texts : Text × Text} :
    written output complaints = .ok texts ↔
      Utf8.decode output = .ok texts.1 ∧ Utf8.decode complaints = .ok texts.2 := by
  unfold written
  cases Utf8.decode output with
  | error fault => exact iff_of_false nofun fun h => nomatch h.1
  | ok o =>
    cases Utf8.decode complaints with
    | error fault => exact iff_of_false nofun fun h => nomatch h.2
    | ok c =>
      show Except.ok (o, c) = Except.ok texts ↔ _
      rw [Except.ok.injEq, Except.ok.injEq, Except.ok.injEq, Prod.ext_iff]

/-- What a reply comes to. -/
def answer (command : Text) : Reply → Except Error (Int × Text × Text)
  | .missing => .error (.failure (.tool (.missing command)))
  | .denied => .error (.failure (.tool (.notStarted command)))
  | .ended code output complaints =>
    match written output complaints with
    | .error fault => .error (.fault (.encoding fault))
    | .ok (output, complaints) => .ok (code, output, complaints)

theorem runIn_start {command : Text} {arguments : List Argument}
    (h : unusable? command arguments = none) (w : World) :
    (start command arguments).runIn w =
      (answer command (w.tools (callIn w command arguments)),
        { w with calls := w.calls ++ [callIn w command arguments] }) := by
  unfold start
  rw [h]
  simp only
  rw [runIn_bind, runIn_get]
  show (match w.tools (callIn w command arguments) with
    | .missing => fail (.tool (.missing command))
    | .denied => fail (.tool (.notStarted command))
    | .ended code output complaints =>
      match written output complaints with
      | .error fault => throw (Error.fault (.encoding fault))
      | .ok (output, complaints) => return (code, output, complaints)).runIn _ = _
  cases w.tools (callIn w command arguments) with
  | missing => rfl
  | denied => rfl
  | ended code output complaints =>
    dsimp only [answer]
    cases written output complaints <;> rfl

/-- The call that runs a script. -/
def scriptCall (settings : Settings) (sql : Text) : Call where
  command := settings.runner.command
  arguments := settings.runner.arguments.map .word ++ scriptArguments
  script := some sql

/-- What an answer of the runner comes to: how the run of the script ends, and what is
printed for it. -/
inductive Relays (command : Text) : Reply → Except Error Unit → Text → Prop
  | missing : Relays command .missing (.error (.failure (.tool (.missing command)))) []
  | denied : Relays command .denied (.error (.failure (.tool (.notStarted command)))) []
  | garbled {code : Int} {output complaints : Bytes} {fault : Utf8.Fault} :
      written output complaints = .error fault →
      Relays command (.ended code output complaints) (.error (.fault (.encoding fault))) []
  | done {output complaints : Bytes} {texts : Text × Text} {messages : List Text} :
      written output complaints = .ok texts →
      List.Forall₂ Says (Text.lines texts.2) messages →
      Relays command (.ended 0 output complaints) (.ok ()) (Text.eachLine messages)
  | failed {code : Int} {output complaints : Bytes} {texts : Text × Text}
      {messages : List Text} : code ≠ 0 →
      written output complaints = .ok texts →
      List.Forall₂ Says (Text.lines texts.2) messages →
      Relays command (.ended code output complaints)
        (.error (.failure (.tool (.scriptEnded command code texts.2))))
        (Text.eachLine messages)

/-- The lines of a text, each with what it says. -/
theorem says_lines (complaints : Text) :
    List.Forall₂ Says (Text.lines complaints) ((Text.lines complaints).map withoutPlace) := by
  rw [List.forall₂_map_right_iff, List.forall₂_same]
  exact fun line hline => says_withoutPlace fun _ hc => Text.not_isLineBreak_of_mem_line hline hc

/-- What is said of a line stands in it. -/
theorem plain_withoutPlace {line : Text} (hline : Text.Unbroken line) (h : line.Plain) :
    (withoutPlace line).Plain := by
  refine h.of_subset ?_
  generalize hmessage : withoutPlace line = m
  cases (withoutPlace_eq_iff hline).1 hmessage with
  | placed =>
    exact List.subset_append_of_subset_right _ (List.subset_append_right _ _)
  | plain => exact List.Subset.refl _

theorem plain_lines {complaints : Text} (h : complaints.Plain) :
    ∀ line ∈ Text.lines complaints, (withoutPlace line).Plain := fun _ hline =>
  plain_withoutPlace (fun _ hc => Text.not_isLineBreak_of_mem_line hline hc)
    (h.of_subset fun _ hc => Text.mem_of_mem_lines hline hc)

theorem startable_iff (settings : Settings) :
    unusable? settings.runner.command (settings.runner.arguments.map .word ++ scriptArguments) =
      none ↔ Startable settings.runner.command settings.runner.arguments :=
  unusable?_eq_none _ (by decide)

/-- A script that can be written is handed to one call of the runner, whatever comes of
it. -/
theorem exists_relays_runScript {sql : Text} {settings : Settings} (hsql : sql.Plain)
    (hstart : Startable settings.runner.command settings.runner.arguments) (w : World) :
    ∃ r printed, (runScript sql settings).runIn w =
        (r, { w with calls := w.calls ++ [scriptCall settings sql]
                     output := w.output ++ printed }) ∧
      Relays settings.runner.command (w.tools (scriptCall settings sql)) r printed := by
  have harguments : (settings.runner.arguments.map Argument.word ++ scriptArguments).contains
      .script = true := by
    rw [List.contains_iff_mem]
    exact List.mem_append_right _ (by decide)
  have hcall : callIn { w with scripts := sql :: w.scripts } settings.runner.command
      (settings.runner.arguments.map .word ++ scriptArguments) = scriptCall settings sql := by
    rw [callIn, harguments]
    rfl
  have hrun := runIn_withScript hsql
    (start settings.runner.command (settings.runner.arguments.map .word ++ scriptArguments)) w
  rw [runIn_start ((startable_iff settings).2 hstart), hcall] at hrun
  simp only [List.tail_cons] at hrun
  unfold runScript
  rw [runIn_bind, hrun]
  cases w.tools (scriptCall settings sql) with
  | missing => exact ⟨_, [], by rw [List.append_nil]; rfl, .missing⟩
  | denied => exact ⟨_, [], by rw [List.append_nil]; rfl, .denied⟩
  | ended code output complaints =>
    rw [answer]
    cases hwritten : written output complaints with
    | error fault => exact ⟨_, [], by rw [List.append_nil], .garbled hwritten⟩
    | ok texts =>
      obtain ⟨_, hcomplaints⟩ := written_eq_ok.1 hwritten
      have hprint := runIn_forM_printLine (plain_lines (Utf8.decode_eq_ok.1 hcomplaints).1)
        { w with calls := w.calls ++ [scriptCall settings sql] }
      dsimp only
      rw [runIn_bind, hprint]
      by_cases hcode : code = 0
      · rw [if_pos hcode, hcode]
        exact ⟨.ok (), _, rfl, .done hwritten (says_lines texts.2)⟩
      · rw [if_neg hcode]
        exact ⟨_, _, rfl, .failed hcode hwritten (says_lines texts.2)⟩

/-- A runner that cannot be given its arguments is not started. -/
theorem runIn_runScript_of_not_startable {sql : Text} {settings : Settings} (hsql : sql.Plain)
    (hstart : ¬Startable settings.runner.command settings.runner.arguments) (w : World) :
    ∃ reason, (runScript sql settings).runIn w = (.error (.fault (.unusable reason)), w) := by
  rw [← startable_iff] at hstart
  obtain ⟨reason, hreason⟩ := Option.ne_none_iff_exists'.1 hstart
  refine ⟨reason, ?_⟩
  unfold runScript
  rw [runIn_bind, runIn_withScript hsql, runIn_start_of_unusable hreason]
  rfl

/-- A script that cannot be written reaches no runner. -/
theorem runIn_runScript_of_unencodable {sql : Text} (hsql : ¬sql.Plain) (settings : Settings)
    (w : World) : ∃ fault, (runScript sql settings).runIn w =
      (.error (.unencodable fault), { w with scripts := [] :: w.scripts }) := by
  cases hencode : Utf8.encodeStrict sql with
  | ok data => exact absurd (Utf8.encodeStrict_eq_ok.1 hencode).1 hsql
  | error fault =>
    refine ⟨fault, ?_⟩
    unfold runScript
    rw [runIn_bind, runIn_withScript_of_unencodable hencode]

variable {command printed : Text} {reply : Reply} {r : Except Error Unit}

theorem Relays.fails_iff (h : Relays command reply r printed) :
    (∃ failure, r = .error (.failure (.tool failure))) ↔
      reply = .missing ∨ reply = .denied ∨
        ∃ code output complaints texts, code ≠ 0 ∧ reply = .ended code output complaints ∧
          written output complaints = .ok texts := by
  cases h with
  | missing => exact iff_of_true ⟨_, rfl⟩ (.inl rfl)
  | denied => exact iff_of_true ⟨_, rfl⟩ (.inr (.inl rfl))
  | garbled hgarbled =>
    refine iff_of_false nofun ?_
    rintro (hmissing | hdenied | ⟨_, _, _, _, _, hended, hwritten⟩)
    · cases hmissing
    · cases hdenied
    · cases hended
      exact nomatch hgarbled.symm.trans hwritten
  | done =>
    refine iff_of_false nofun ?_
    rintro (hmissing | hdenied | ⟨code, _, _, _, hcode, hended, _⟩)
    · cases hmissing
    · cases hdenied
    · cases hended
      exact hcode rfl
  | failed hcode hwritten =>
    exact iff_of_true ⟨_, rfl⟩ (.inr (.inr ⟨_, _, _, _, hcode, rfl, hwritten⟩))

theorem eq_messages {remarks : List Remark} (hproper : ∀ remark ∈ remarks, remark.IsProper)
    {messages : List Text} (h : List.Forall₂ Says
      (Text.lines (Text.eachLine (remarks.map Remark.line))) messages) :
    messages = remarks.map Remark.message := by
  have hlines : Text.lines (Text.eachLine (remarks.map Remark.line)) =
      remarks.map Remark.line := by
    refine Text.lines_eachLine fun line hline => ?_
    obtain ⟨remark, hremark, rfl⟩ := List.mem_map.1 hline
    exact (hproper remark hremark).unbroken
  rw [hlines] at h
  clear hlines
  induction remarks generalizing messages with
  | nil => exact List.forall₂_nil_left_iff.1 h
  | cons remark rest ih =>
    obtain ⟨hremark, hrest⟩ := List.forall_mem_cons.1 hproper
    obtain ⟨message, more, hsays, hmore, rfl⟩ := List.forall₂_cons_left_iff.1 h
    have hmessage : message = remark.message :=
      ((withoutPlace_eq_iff hremark.unbroken).2 hsays).symm.trans
        ((withoutPlace_eq_iff hremark.unbroken).2 hremark.says_line)
    rw [hmessage, ih hrest hmore, List.map_cons]

theorem Relays.printed_eq {code : Int} {output complaints : Bytes} {said : Text}
    {remarks : List Remark} (hproper : ∀ remark ∈ remarks, remark.IsProper)
    (hlines : written output complaints = .ok (said, Text.eachLine (remarks.map Remark.line)))
    (h : Relays command (.ended code output complaints) r printed) :
    printed = Text.eachLine (remarks.map Remark.message) := by
  cases h with
  | garbled hgarbled => exact nomatch hgarbled.symm.trans hlines
  | done hwritten hsays =>
    cases hwritten.symm.trans hlines
    rw [eq_messages hproper hsays]
  | failed _ hwritten hsays =>
    cases hwritten.symm.trans hlines
    rw [eq_messages hproper hsays]

/-- A script that can be written is run by a runner that can be given its arguments: it is
started once, with the arguments of the settings and behind them a file that holds the
script, and nothing else changes in the world but what is printed: the file is gone however
the call ends.  What the runner says is printed line by line without the places in front,
exactly its messages where its lines are proper.  The run fails exactly when the runner
could not be started or ended with another code than zero, and the failure holds the code
and all that was said.  A runner that cannot be given its arguments is not started, and the
file is gone, too.  A script that cannot be written leaves an empty file. -/
theorem runScript_relays (sql : Text) (settings : Settings) (w : World) :
    (sql.Plain → Startable settings.runner.command settings.runner.arguments →
      ∃ call r printed,
        call.command = settings.runner.command ∧
        call.arguments = settings.runner.arguments.map .word ++
          [.word "-f".text, .script, .word "-v".text, .word "ON_ERROR_STOP=1".text] ∧
        call.script = some sql ∧
        (runScript sql settings).runIn w =
          (r, { w with calls := w.calls ++ [call], output := w.output ++ printed }) ∧
        Relays settings.runner.command (w.tools call) r printed ∧
        (∀ code output complaints said (remarks : List Remark),
          (∀ remark ∈ remarks, remark.IsProper) →
          w.tools call = .ended code output complaints →
          written output complaints = .ok (said, Text.eachLine (remarks.map Remark.line)) →
          printed = Text.eachLine (remarks.map Remark.message)) ∧
        ((∃ failure, r = .error (.failure (.tool failure))) ↔
          w.tools call = .missing ∨ w.tools call = .denied ∨
            ∃ code output complaints texts, code ≠ 0 ∧
              w.tools call = .ended code output complaints ∧
              written output complaints = .ok texts)) ∧
    (sql.Plain → ¬Startable settings.runner.command settings.runner.arguments →
      ∃ reason, (runScript sql settings).runIn w = (.error (.fault (.unusable reason)), w)) ∧
    (¬sql.Plain → ∃ fault, (runScript sql settings).runIn w =
      (.error (.unencodable fault), { w with scripts := [] :: w.scripts })) := by
  refine ⟨fun hsql hstart => ?_, fun hsql hstart => runIn_runScript_of_not_startable hsql hstart w,
    fun hsql => runIn_runScript_of_unencodable hsql settings w⟩
  obtain ⟨r, printed, hrun, hrelays⟩ := exists_relays_runScript hsql hstart w
  refine ⟨scriptCall settings sql, r, printed, rfl, rfl, rfl, hrun, hrelays,
    fun code output complaints said remarks hproper hreply hlines => ?_, hrelays.fails_iff⟩
  rw [hreply] at hrelays
  exact hrelays.printed_eq hproper hlines

/-- A runner that stops at an error in a script with a colon and a number in its name, and
whose message names another place. -/
def stopRemarks : List Remark :=
  [.placed "/tmp/a:4.sql".text "12".text "ERROR:  see f.sql:7: here".text,
   .plain "HINT:  none".text]

def stopped : World where
  disk := ⟨.empty, []⟩
  tools := fun _ => .ended 3 [] (Utf8.encode
    "psql:/tmp/a:4.sql:12: ERROR:  see f.sql:7: here\nHINT:  none\n".text)

theorem runScript_relays_stopped :
    (∀ remark ∈ stopRemarks, remark.IsProper) ∧
    Text.eachLine (stopRemarks.map Remark.line) =
      "psql:/tmp/a:4.sql:12: ERROR:  see f.sql:7: here\nHINT:  none\n".text ∧
    ∃ r w', (runScript "SELECT 1/0;".text {}).runIn stopped = (r, w') ∧
      w'.output = "ERROR:  see f.sql:7: here\nHINT:  none\n".text ∧
      ∃ failure, r = .error (.failure (.tool failure)) := by
  have hproper : ∀ remark ∈ stopRemarks, remark.IsProper := by
    refine List.forall_mem_cons.2 ⟨⟨by decide, isScriptName_of_notMem (by decide),
      by decide, by decide⟩, List.forall_mem_singleton.2 ⟨by decide, by decide⟩⟩
  have hlines : Text.eachLine (stopRemarks.map Remark.line) =
      "psql:/tmp/a:4.sql:12: ERROR:  see f.sql:7: here\nHINT:  none\n".text := by decide +kernel
  have hmessages : Text.eachLine (stopRemarks.map Remark.message) =
      "ERROR:  see f.sql:7: here\nHINT:  none\n".text := by decide +kernel
  obtain ⟨hruns, _⟩ := runScript_relays "SELECT 1/0;".text {} stopped
  obtain ⟨call, r, printed, _, _, _, hrun, _, hprinted, hfails⟩ :=
    hruns (by decide) ⟨by decide, by decide⟩
  have hwritten : written [] (Utf8.encode (Text.eachLine (stopRemarks.map Remark.line))) =
      .ok ([], Text.eachLine (stopRemarks.map Remark.line)) :=
    written_eq_ok.2 ⟨rfl, Utf8.decode_encode (hlines ▸ Text.plain_text _)⟩
  refine ⟨hproper, hlines, r, _, hrun, ?_,
    hfails.2 (.inr (.inr ⟨3, _, _, _, by decide, rfl, hlines ▸ hwritten⟩))⟩
  rw [hprinted 3 _ _ _ stopRemarks hproper (by rw [hlines]; rfl) hwritten]
  exact hmessages

/-- A script with a surrogate in it reaches no runner, and its file stays. -/
theorem runScript_left :
    (runScript [.surrogate 0] {}).runIn stopped =
      (.error (.unencodable ⟨0, 1, .surrogate 0⟩), { stopped with scripts := [[]] }) :=
  rfl

end Tool
end SchemaLedger
