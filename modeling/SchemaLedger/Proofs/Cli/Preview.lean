import SchemaLedger.Proofs.Artifact.Writing
import SchemaLedger.Proofs.Cli.Run
import SchemaLedger.Proofs.Script.Carried
import SchemaLedger.Proofs.Settings.Load

/-!
# Previews

A dry run and a compilation show the script that an application would run.  All of
them compile the same tree the same way before they do anything else, so they show one
script or fail with one failure; minifying, which applying always does, takes out the
lines that begin with two dashes and leaves the others as they are.  A script that has
no bytes, because a name on the disk is no text, is neither run nor shown.
-/

namespace SchemaLedger

namespace Script

open Text (eachLine unlines_concat_newline)

variable {s : Script}

theorem render_eq_eachLine (htag : Text.Unbroken s.tag) (minify : Bool) :
    s.render minify = eachLine (kept s.draft minify) := by
  have hkept : kept s.draft minify ≠ [] := by
    rw [kept_draft htag]
    exact List.cons_ne_nil _ _
  exact unlines_concat_newline hkept

/-- The lines of a script are those of the minified one and lines that begin with two
dashes. -/
theorem exists_lines_of_render (htag : Text.Unbroken s.tag) :
    ∃ lines, (∀ line ∈ lines, Text.Unbroken line) ∧ s.render false = eachLine lines ∧
      s.render true = eachLine (lines.filter (!"--".text.isPrefixOf ·)) :=
  ⟨kept s.draft false, fun _ => unbroken_of_mem_kept, render_eq_eachLine htag false,
    render_eq_eachLine htag true⟩

end Script

namespace Cli

open Text (eachLine)

variable {w w' ready : World} {config path : Option SwitchValue} {fake minify : Bool}
variable {s : Script} {e : Error} {settings : Settings} {command : Command} {line : List Text}

/-! ## Compiling -/

/-- The script that a command compiles once the environment and the settings are
loaded, or why there is none. -/
def compiledScript (w : World) (config path : Option SwitchValue) (fake : Bool) :
    Except Error Script := do
  (EnvFile.load.runIn w).1
  let settings ← Settings.loadIn w ((given? config).map Path.ofText)
  Script.ofTree w.disk (rootOf settings path) (if fake then .recording else .applying)

theorem compiledScript_of_load (h : EnvFile.load.runIn w = (.ok (), ready)) :
    compiledScript w config path fake = (do
      let settings ← Settings.loadIn ready ((given? config).map Path.ofText)
      Script.ofTree ready.disk (rootOf settings path)
        (if fake then .recording else .applying)) := by
  have hquiet := EnvFile.isQuiet_load w
  rw [h] at hquiet
  rw [compiledScript, h, ← hquiet.disk, ← Settings.loadIn_of_quiet hquiet]
  rfl

/-- Where a script is compiled or fails to be, the environment is loaded. -/
theorem exists_load (h : ∀ fault, compiledScript w config path fake ≠ .error (.fault fault)) :
    ∃ ready, EnvFile.load.runIn w = (.ok (), ready) := by
  rcases hload : EnvFile.load.runIn w with ⟨e | done, ready⟩
  · obtain ⟨fault, rfl, _⟩ := EnvFile.load_error hload
    exact absurd (by rw [compiledScript, hload]; rfl) (h fault)
  · exact ⟨ready, rfl⟩

/-- The commands that compile a tree to a script that changes the schema. -/
inductive Compiles (path : Option SwitchValue) (fake : Bool) : Command → Prop
  | apply (dryRun minify : Bool) : Compiles path fake (.apply path dryRun fake minify)
  | compile (out : Option SwitchValue) (check minify : Bool) :
      Compiles path fake (.compile path out check fake minify)

theorem attempt_of_settings
    (h : Settings.loadIn w ((given? config).map Path.ofText) = .ok settings) :
    (Request.attempt ⟨config, command⟩).runIn w = (command.perform settings).runIn w := by
  unfold Request.attempt
  rw [Act.runIn_bind, runIn_loadSettings, h]

theorem runIn_scriptFor {root : Path}
    (h : Script.ofTree w.disk root (if fake then .recording else .applying) = .ok s) :
    (scriptFor root fake minify).runIn w = (.ok (s.render minify), w) := by
  unfold scriptFor
  rw [Act.runIn_look, Script.build_eq_ok.2 ⟨s, h, rfl⟩]

theorem runIn_scriptFor_of_error {root : Path}
    (h : Script.ofTree w.disk root (if fake then .recording else .applying) = .error e) :
    (scriptFor root fake minify).runIn w = (.error e, w) := by
  unfold scriptFor
  rw [Act.runIn_look, Script.build, h]
  rfl

/-- A command that compiles does nothing else first. -/
theorem attempt_of_error (hload : EnvFile.load.runIn w = (.ok (), ready))
    (h : compiledScript w config path fake = .error e) (hcommand : Compiles path fake command) :
    (Request.attempt ⟨config, command⟩).runIn ready = (.error e, ready) := by
  rw [compiledScript_of_load hload] at h
  cases hsettings : Settings.loadIn ready ((given? config).map Path.ofText) with
  | error e' =>
    rw [hsettings] at h
    obtain rfl : e' = e := Except.error.inj h
    unfold Request.attempt
    rw [Act.runIn_bind, runIn_loadSettings, hsettings]
  | ok settings =>
    rw [hsettings] at h
    rw [attempt_of_settings hsettings]
    cases hcommand with
    | apply dryRun minify =>
      cases dryRun with
      | true | false =>
        refine Act.bind_eq_error.2 (.inl (Act.bind_eq_error.2 (.inl ?_)))
        exact runIn_scriptFor_of_error h
    | compile out check minify =>
      exact Act.bind_eq_error.2 (.inl (runIn_scriptFor_of_error h))

/-! ## What the commands make of a script -/

/-- The command line ends well and all that it does is print a text. -/
def Prints (line : List Text) (w : World) (t : Text) : Prop :=
  ∃ w', (run line).runIn w = (.ok (.finished 0), w') ∧ w'.output = w.output ++ t ∧
    w'.calls = w.calls ∧ w'.disk = w.disk

/-- The command line ends with a failure before it does anything. -/
def FailsSilently (line : List Text) (w : World) : Prop :=
  ∃ w', (run line).runIn w = (.ok (.finished 1), w') ∧ w'.output = w.output ∧
    w'.calls = w.calls ∧ w'.disk = w.disk

/-- The command line ends with a fault, and nothing is printed, started or changed. -/
def Breaks (line : List Text) (w : World) : Prop :=
  ∃ fault w', (run line).runIn w = (.error (.fault fault), w') ∧ w'.output = w.output ∧
    w'.calls = w.calls ∧ w'.disk = w.disk

/-- The runner can be given its arguments and the script. -/
def CanApply (settings : Settings) (s : Script) : Prop :=
  (s.render true).Plain ∧ Tool.Startable settings.runner.command settings.runner.arguments

/-- Applying hands the minified script to one call of a tool; the commands that show a
script print it, and the one that writes it writes the same text.  A script that has no
bytes is not shown, and like one whose runner cannot be given its arguments it is not
applied; only the name of a file can be why a script has none. -/
structure Agree (w : World) (config path : Option SwitchValue) (fake : Bool)
    (settings : Settings) (s : Script) : Prop where
  applied : ∀ line minify, Request.read line = .ok ⟨config, .apply path false fake minify⟩ →
    CanApply settings s → ∃ call, ((run line).runIn w).2.calls = w.calls ++ [call] ∧
      call.script = some (s.render true)
  unapplied : ∀ line minify, Request.read line = .ok ⟨config, .apply path false fake minify⟩ →
    ¬CanApply settings s → Breaks line w
  shown : ∀ line minify, Request.read line = .ok ⟨config, .apply path true fake minify⟩ →
    (s.render minify).Plain → Prints line w (s.render minify)
  unshown : ∀ line minify, Request.read line = .ok ⟨config, .apply path true fake minify⟩ →
    ¬(s.render minify).Plain → Breaks line w
  printed : ∀ line out minify,
    Request.read line = .ok ⟨config, .compile path out false fake minify⟩ → given? out = none →
      (s.render minify).Plain → Prints line w (s.render minify)
  unprinted : ∀ line out minify,
    Request.read line = .ok ⟨config, .compile path out false fake minify⟩ → given? out = none →
      ¬(s.render minify).Plain → Breaks line w
  written : ∀ line out name minify w',
    Request.read line = .ok ⟨config, .compile path out false fake minify⟩ →
      given? out = some name → (run line).runIn w = (.ok (.finished 0), w') →
        w'.disk.read (Path.ofText name) = .ok (Utf8.encode (s.render minify))
  finishes : ∀ line out name minify d e,
    Request.read line = .ok ⟨config, .compile path out false fake minify⟩ →
      given? out = some name → name.Plain → (s.render minify).Plain →
        w.disk.ensureFolders (Path.ofText name).parent = (.ok (), d) →
          d.write (Path.ofText name) [] = .ok e →
            ∃ w', (run line).runIn w = (.ok (.finished 0), w')
  encodable : (s.render false).Plain ↔ ∀ f ∈ s.fragments, ∀ file,
    Script.MadeFor w.disk (rootOf settings path) file f → file.stem.Plain
  minified : (s.render false).Plain → (s.render true).Plain

section

variable (hscript : Script.ofTree w.disk (rootOf settings path)
  (if fake then .recording else .applying) = .ok s)

include hscript

theorem runIn_applyTree_eq :
    (applyTree settings path false fake minify).runIn w =
      (do Tool.runScript (s.render true) settings
          Act.printLine "Changes applied successfully".text : Act Unit).runIn w := by
  show (do let sql ← scriptFor (rootOf settings path) fake true
           Tool.runScript sql settings
           Act.printLine "Changes applied successfully".text : Act Unit).runIn w = _
  rw [Act.runIn_bind, runIn_scriptFor hscript]

theorem runIn_applyTree (h : CanApply settings s) :
    ∃ r output, (applyTree settings path false fake minify).runIn w =
      (r, { w with calls := w.calls ++ [Tool.scriptCall settings (s.render true)], output }) := by
  obtain ⟨r, printed, hrun, _⟩ := Tool.exists_relays_runScript h.1 h.2 w
  rw [runIn_applyTree_eq hscript, Act.runIn_bind, hrun]
  cases r with
  | error e => exact ⟨_, _, rfl⟩
  | ok done => exact ⟨.ok (), _, Act.runIn_print (Act.plain_line (Text.plain_text _))⟩

/-- A script that cannot be applied stops at the runner. -/
theorem runIn_applyTree_of_not (minify : Bool) (h : ¬CanApply settings s) :
    ∃ fault scripts, (applyTree settings path false fake minify).runIn w =
      (.error (.fault fault), { w with scripts }) := by
  rw [runIn_applyTree_eq hscript, Act.runIn_bind]
  by_cases hplain : (s.render true).Plain
  · have hstart := fun hstart => h ⟨hplain, hstart⟩
    obtain ⟨reason, hrun⟩ := Tool.runIn_runScript_of_not_startable hplain hstart w
    exact ⟨_, w.scripts, by rw [hrun]⟩
  · obtain ⟨fault, hrun⟩ := Tool.runIn_runScript_of_unencodable hplain settings w
    exact ⟨.unusable (.unencodable fault), [] :: w.scripts, by rw [hrun]; rfl⟩

theorem runIn_applyTree_dry :
    (applyTree settings path true fake minify).runIn w =
      (Act.print (s.render minify)).runIn w := by
  show (do Act.print (← scriptFor (rootOf settings path) fake minify) : Act Unit).runIn w = _
  rw [Act.runIn_bind, runIn_scriptFor hscript]

theorem runIn_compileTree {out : Option SwitchValue} (hout : given? out = none) :
    (compileTree settings path out false fake minify).runIn w =
      (do Act.print (s.render minify); return 0 : Act Nat).runIn w := by
  unfold compileTree
  rw [Act.runIn_bind, runIn_scriptFor hscript]
  simp only [hout]

/-- A script that is written stands in the file. -/
theorem read_of_compileTree {out : Option SwitchValue} {name : Text} {code : Nat}
    (hout : given? out = some name)
    (h : (compileTree settings path out false fake minify).runIn w = (.ok code, w')) :
    w'.disk.read (Path.ofText name) = .ok (Utf8.encode (s.render minify)) := by
  obtain ⟨sql, middle, hsql, h⟩ := Act.bind_eq_ok.1 h
  rw [runIn_scriptFor hscript] at hsql
  cases hsql
  rw [hout] at h
  obtain ⟨_, after, hwrite, h⟩ := Act.bind_eq_ok.1 h
  obtain ⟨_, last, hprint, h⟩ := Act.bind_eq_ok.1 h
  obtain rfl : last = w' := congrArg Prod.snd h
  rw [Act.disk_of_print hprint]
  exact Disk.read_eq_ok.2 (Artifact.find_of_writeText hwrite)

/-- A script that has bytes is written wherever a file can be written. -/
theorem exists_runIn_compileTree {out : Option SwitchValue} {name : Text} {d e : Disk}
    (minify : Bool) (hout : given? out = some name) (hname : name.Plain)
    (hplain : (s.render minify).Plain)
    (hfolders : w.disk.ensureFolders (Path.ofText name).parent = (.ok (), d))
    (hwrite : d.write (Path.ofText name) [] = .ok e) :
    ∃ w', (compileTree settings path out false fake minify).runIn w = (.ok 0, w') := by
  obtain ⟨_, hwritten⟩ := Disk.exists_write_other hwrite (Utf8.encode (s.render minify))
  have hfile := Artifact.runIn_writeText_of_write hfolders hplain hwritten
  have hline : Text.Plain ("Generated ".text ++ name) :=
    Text.plain_append.2 ⟨Text.plain_text _, hname⟩
  unfold compileTree
  rw [Act.runIn_bind, runIn_scriptFor hscript]
  simp only [hout]
  rw [Act.runIn_bind, hfile]
  exact ⟨_, Act.bind_eq_ok.2 ⟨(), _, Act.runIn_print (Act.plain_line hline), rfl⟩⟩

end

theorem calls_of_attempt (minify : Bool)
    (hsettings : Settings.loadIn w ((given? config).map Path.ofText) = .ok settings)
    (hscript : Script.ofTree w.disk (rootOf settings path)
      (if fake then .recording else .applying) = .ok s) (h : CanApply settings s) :
    ((Request.attempt ⟨config, .apply path false fake minify⟩).runIn w).2.calls =
      w.calls ++ [Tool.scriptCall settings (s.render true)] := by
  obtain ⟨r, output, happly⟩ := @runIn_applyTree w path fake minify s settings hscript h
  rw [attempt_of_settings hsettings]
  show ((do applyTree settings path false fake minify; return 0 : Act Nat).runIn w).2.calls = _
  rw [Act.runIn_bind, happly]
  cases r <;> rfl

/-- A run whose attempt ends well ends with its exit code. -/
theorem prints_of_attempt {request : Request} {t : Text}
    (hload : EnvFile.load.runIn w = (.ok (), ready))
    (hread : Request.read line = .ok request)
    (h : request.attempt.runIn ready = (.ok 0, { ready with output := ready.output ++ t })) :
    Prints line w t := by
  have hquiet := EnvFile.isQuiet_load w
  rw [hload] at hquiet
  refine ⟨_, run_of_attempt hload hread h, ?_, hquiet.calls, hquiet.disk⟩
  show ready.output ++ t = w.output ++ t
  rw [hquiet.output]

/-- A fault of the attempt is how the run ends. -/
theorem breaks_of_attempt {request : Request} {fault : Fault} {scripts : List Text}
    (hload : EnvFile.load.runIn w = (.ok (), ready))
    (hread : Request.read line = .ok request)
    (h : request.attempt.runIn ready = (.error (.fault fault), { ready with scripts })) :
    Breaks line w := by
  have hquiet := EnvFile.isQuiet_load w
  rw [hload] at hquiet
  refine ⟨fault, { ready with scripts }, ?_, hquiet.output, hquiet.calls, hquiet.disk⟩
  rw [runIn_run_of_read hload hread, h]
  rfl

/-- A text is printed or has no bytes; either way the act ends with it. -/
theorem runIn_print_return {t : Text} :
    (t.Plain → (do Act.print t; return 0 : Act Nat).runIn w =
        (.ok 0, { w with output := w.output ++ t })) ∧
      (¬t.Plain → ∃ fault, (do Act.print t; return 0 : Act Nat).runIn w =
        (.error (.fault fault), w)) := by
  refine ⟨fun ht => Act.bind_eq_ok.2 ⟨(), _, Act.runIn_print ht, rfl⟩, fun ht => ?_⟩
  cases hencode : Utf8.encodeStrict t with
  | ok data => exact absurd (Utf8.encodeStrict_eq_ok.1 hencode).1 ht
  | error fault =>
    exact ⟨_, Act.bind_eq_error.2 (.inl (Act.runIn_print_of_unencodable hencode))⟩

/-- An attempt that prints a text shows it where it has bytes, and breaks off where not. -/
theorem shows_of_attempt {request : Request} {t : Text}
    (hload : EnvFile.load.runIn w = (.ok (), ready)) (hread : Request.read line = .ok request)
    (h : request.attempt.runIn ready = (do Act.print t; return 0 : Act Nat).runIn ready) :
    (t.Plain → Prints line w t) ∧ (¬t.Plain → Breaks line w) := by
  refine ⟨fun ht => prints_of_attempt hload hread (h.trans (runIn_print_return.1 ht)), fun ht => ?_⟩
  obtain ⟨fault, hprint⟩ := runIn_print_return.2 ht
  exact breaks_of_attempt hload hread (h.trans hprint)

theorem agree_of_compiled (hload : EnvFile.load.runIn w = (.ok (), ready))
    (hsettings : Settings.loadIn w ((given? config).map Path.ofText) = .ok settings)
    (hscript : Script.ofTree w.disk (rootOf settings path)
      (if fake then .recording else .applying) = .ok s) :
    Agree w config path fake settings s := by
  have hquiet := EnvFile.isQuiet_load w
  rw [hload] at hquiet
  obtain ⟨hencodable, hminified⟩ := Script.plain_render hscript
  rw [← Settings.loadIn_of_quiet hquiet] at hsettings
  rw [← hquiet.disk] at hscript
  -- both commands that show a script end with printing it
  have hdry : ∀ line minify, Request.read line = .ok ⟨config, .apply path true fake minify⟩ →
      ((s.render minify).Plain → Prints line w (s.render minify)) ∧
        (¬(s.render minify).Plain → Breaks line w) := fun line minify hread => by
    refine shows_of_attempt hload hread ?_
    rw [attempt_of_settings hsettings, Act.runIn_bind]
    show (do applyTree settings path true fake minify; return 0 : Act Nat).runIn ready = _
    rw [Act.runIn_bind, runIn_applyTree_dry hscript]
  have hcompile : ∀ line out minify,
      Request.read line = .ok ⟨config, .compile path out false fake minify⟩ → given? out = none →
        ((s.render minify).Plain → Prints line w (s.render minify)) ∧
          (¬(s.render minify).Plain → Breaks line w) := fun line out minify hread hout => by
    refine shows_of_attempt hload hread ?_
    rw [attempt_of_settings hsettings]
    exact runIn_compileTree hscript hout
  refine ⟨fun line minify hread hcan => ?_, fun line minify hread hcan => ?_,
    fun line minify hread => (hdry line minify hread).1,
    fun line minify hread => (hdry line minify hread).2,
    fun line out minify hread hout => (hcompile line out minify hread hout).1,
    fun line out minify hread hout => (hcompile line out minify hread hout).2,
    fun line out name minify w' hread hout hrun => ?_,
    fun line out name minify d e hread hout hname hplain hfolders hwrite => ?_,
    hencodable, hminified⟩
  · refine ⟨Tool.scriptCall settings (s.render true), ?_, rfl⟩
    rw [runIn_run_of_read hload hread, (quiet_settle _ _).calls,
      calls_of_attempt minify hsettings hscript hcan, hquiet.calls]
  · obtain ⟨fault, scripts, happly⟩ := runIn_applyTree_of_not hscript minify hcan
    have hattempt : (Request.attempt ⟨config, .apply path false fake minify⟩).runIn ready =
        (.error (.fault fault), { ready with scripts }) := by
      rw [attempt_of_settings hsettings]
      exact Act.bind_eq_error.2 (.inl happly)
    exact breaks_of_attempt hload hread hattempt
  · have hattempt := attempt_of_run hload hread hrun
    rw [attempt_of_settings hsettings] at hattempt
    exact read_of_compileTree hscript hout hattempt
  · rw [← hquiet.disk] at hfolders
    obtain ⟨w', hcompile⟩ := exists_runIn_compileTree hscript minify hout hname hplain
      hfolders hwrite
    exact ⟨w', run_of_attempt hload hread ((attempt_of_settings hsettings).trans hcompile)⟩

theorem failsSilently_of_compiled {failure : Failure}
    (hload : EnvFile.load.runIn w = (.ok (), ready))
    (h : compiledScript w config path fake = .error (.failure failure))
    (hcommand : Compiles path fake command) (hread : Request.read line = .ok ⟨config, command⟩) :
    FailsSilently line w := by
  have hquiet := EnvFile.isQuiet_load w
  rw [hload] at hquiet
  have hattempt := attempt_of_error hload h hcommand
  have hlast := hquiet.trans (quiet_settle ⟨config, command⟩ (.error (.failure failure), ready))
  refine ⟨_, ?_, hlast.output, hlast.calls, hlast.disk⟩
  rw [runIn_run_of_read hload hread, hattempt]
  rfl

/-- All commands that compile a tree agree on its script, which is the minified one of
the lines that are shown: where it has bytes and the runner can be given its arguments it is
run once and shown as it is run, and where not, the commands break off before anything is
printed, started or changed.  Where there is a failure in place of a script, all of them end
with the exit code one and nothing is printed, started or changed. -/
theorem commands_agree (w : World) (config path : Option SwitchValue) (fake : Bool) :
    (∀ s, compiledScript w config path fake = .ok s →
      (∃ settings, Settings.load w.disk ((given? config).map Path.ofText) = .ok settings ∧
        Agree w config path fake settings s) ∧
        ∃ lines, (∀ line ∈ lines, Text.Unbroken line) ∧ s.render false = eachLine lines ∧
          s.render true = eachLine (lines.filter (!"--".text.isPrefixOf ·))) ∧
      ∀ failure, compiledScript w config path fake = .error (.failure failure) →
        ∀ line command, Compiles path fake command →
          Request.read line = .ok ⟨config, command⟩ → FailsSilently line w := by
  refine ⟨fun s hs => ?_, fun failure hfailure line command hcommand hread => ?_⟩
  · have hnone : ∀ fault, compiledScript w config path fake ≠ .error (.fault fault) := by
      rw [hs]
      exact fun _ => nofun
    obtain ⟨ready, hload⟩ := exists_load hnone
    have hquiet := EnvFile.isQuiet_load w
    rw [hload] at hquiet
    rw [compiledScript_of_load hload, Settings.loadIn_of_quiet hquiet, hquiet.disk] at hs
    obtain ⟨settings, hsettings, hscript⟩ := Outcome.bind_eq_ok.1 hs
    exact ⟨⟨settings, Settings.load_of_loadIn hsettings,
      agree_of_compiled hload hsettings hscript⟩,
      Script.exists_lines_of_render (Script.unbroken_tag_of_tree hscript)⟩
  · have hnone : ∀ fault, compiledScript w config path fake ≠ .error (.fault fault) := by
      rw [hfailure]
      rintro fault ⟨⟩
    obtain ⟨ready, hload⟩ := exists_load hnone
    exact failsSilently_of_compiled hload hfailure hcommand hread

/-- The tree of one function and one migration, and a runner that does its work. -/
def separatedWorld : World where
  disk := ⟨Script.separatedTree, []⟩
  tools := fun _ => .ended 0 [] []

def databaseSwitch : Option SwitchValue :=
  some (.text "db".text)

/-- A command line for the tree. -/
def databaseLine (words : List String) : List Text :=
  (words ++ ["--path", "db"]).map String.text

theorem commands_agree_separated :
    (∃ s, compiledScript separatedWorld none databaseSwitch false = .ok s ∧
      (∃ call, ((run (databaseLine ["apply"])).runIn separatedWorld).2.calls = [call] ∧
        call.script = some (s.render true)) ∧
      Prints (databaseLine ["apply", "--dry-run"]) separatedWorld (s.render false) ∧
      Prints (databaseLine ["apply", "--dry-run", "--minify"]) separatedWorld (s.render true) ∧
      Prints (databaseLine ["compile", "--minify"]) separatedWorld (s.render true) ∧
      ∃ w', (run (databaseLine ["compile", "--minify", "--out", "o.sql"])).runIn separatedWorld =
          (.ok (.finished 0), w') ∧
        w'.disk.read (Path.ofText "o.sql".text) = .ok (Utf8.encode (s.render true))) ∧
    (∃ failure, compiledScript separatedWorld none none false = .error (.failure failure)) ∧
      FailsSilently ["apply".text] separatedWorld := by
  obtain ⟨hagree, _⟩ := commands_agree separatedWorld none databaseSwitch false
  obtain ⟨s, hs⟩ : ∃ s, compiledScript separatedWorld none databaseSwitch false = .ok s :=
    Outcome.exists_of_toBool (by decide +kernel)
  obtain ⟨⟨settings, hsettings, hagree⟩, _⟩ := hagree s hs
  obtain rfl : {} = settings := Except.ok.inj hsettings
  have hplain : (s.render false).Plain := hagree.encodable.2 fun f _ file hmade =>
    hmade.plain_stem fun name above entry hentry => by
      have hnames : ∀ place ∈ Script.separatedEntries.map (·.1), ∀ name ∈ place,
          name.text.Plain := by decide +kernel
      exact hnames _ (List.mem_map_of_mem hentry) name List.mem_cons_self
  have hminified := hagree.minified hplain
  have hcan : CanApply {} s := ⟨hminified, ⟨by decide, by decide⟩⟩
  refine ⟨⟨s, hs, hagree.applied _ false (by decide +kernel) hcan,
    hagree.shown _ false (by decide +kernel) hplain,
    hagree.shown _ true (by decide +kernel) hminified,
    hagree.printed _ none true (by decide +kernel) rfl hminified, ?_⟩, ?_, ?_⟩
  · obtain ⟨w', hrun⟩ := hagree.finishes (databaseLine ["compile", "--minify", "--out", "o.sql"])
      (some (.text "o.sql".text)) _ true _ _ (by decide +kernel) rfl (by decide) hminified rfl rfl
    exact ⟨w', hrun, hagree.written _ (some (.text "o.sql".text)) _ true _ (by decide +kernel) rfl
      hrun⟩
  · exact ⟨.file (.missingRoot ⟨.relative, ["postgres".text]⟩), rfl⟩
  · exact (commands_agree separatedWorld none none false).2
      (.file (.missingRoot ⟨.relative, ["postgres".text]⟩)) rfl _ _ (.apply false false)
      (by decide +kernel)

/-! ## A tree that is compiled and not applied -/

def latinWorld : World where
  disk := ⟨Script.latinTree, []⟩
  tools := fun _ => .ended 0 [] []

def latinSwitch : Option SwitchValue :=
  some (.text "r".text)

/-- The script of the tree cannot be written, so no runner is started, and the empty file
that it was to be written to stays. -/
theorem not_applied_latin :
    (∃ s, compiledScript latinWorld none latinSwitch false = .ok s) ∧
      ∃ fault, (run ["apply".text, "--path".text, "r".text]).runIn latinWorld =
        (.error (.unencodable fault), { latinWorld with scripts := [[]] }) := by
  obtain ⟨s, hs, hplain⟩ := Script.not_plain_latin
  refine ⟨⟨s, hs⟩, ?_⟩
  obtain ⟨fault, hrun⟩ := Tool.runIn_runScript_of_unencodable hplain {} latinWorld
  have happly : (applyTree {} latinSwitch false false false).runIn latinWorld =
      (.error (.unencodable fault), { latinWorld with scripts := [[]] }) := by
    rw [runIn_applyTree_eq hs, Act.runIn_bind, hrun]
    rfl
  have hread : Request.read ["apply".text, "--path".text, "r".text] =
      .ok ⟨none, .apply latinSwitch false false false⟩ := by decide +kernel
  have hattempt : (Request.attempt ⟨none, .apply latinSwitch false false false⟩).runIn latinWorld =
      (.error (.unencodable fault), { latinWorld with scripts := [[]] }) := by
    have hsettings : Settings.loadIn latinWorld none = .ok {} := rfl
    rw [attempt_of_settings hsettings]
    exact Act.bind_eq_error.2 (.inl happly)
  have hload : EnvFile.load.runIn latinWorld = (.ok (), latinWorld) := rfl
  refine ⟨fault, ?_⟩
  rw [runIn_run_of_read hload hread, hattempt]
  rfl

end Cli
end SchemaLedger
