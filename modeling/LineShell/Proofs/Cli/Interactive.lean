import LineShell.Proofs.Cli.Scripts
import LineShell.Proofs.Line.Joining
import LineShell.Proofs.Session.Printing
import LineShell.Proofs.Text.LineEnds
import LineShell.Proofs.Text.Utf8

/-!
# Proofs/Cli/Interactive — lines typed and lines written

    typed     prompt, shown₁, prompt, shown₂, ⋯, prompt, end of input
    written           shown₁,         shown₂, ⋯, statistics

An interactive session shows what each line prints before it prompts for the next one; a script
shows at its end what all its lines have printed.  Since a session does not look at what it has
printed (`Session.exec_behind`), the pieces are the same and come in the same order
(`ofOutput_typed`).  Lines that a script neither skips as comments nor refuses are run by both, so
the two requests print the same apart from prompts and statistics (`respond_repl`).
-/

namespace LineShell

namespace Session

theorem Settled.drained {s : Session} (h : s.Settled) : s.drained.Settled :=
  ⟨⟨h.active, h.commands, h.vars⟩, h.status⟩

/-- Lines that are typed do the same behind any output. -/
theorem typed_behind (o : Output) : ∀ (lines : List String) (s : Session),
    (behind o s).typed lines = behind o (s.typed lines)
  | [], _ => rfl
  | line :: rest, s => by
    rw [typed_cons, typed_cons, exec_behind]
    exact typed_behind o rest (s.exec line).2

end Session

namespace Cli

/-! ## Transcripts one after another -/

namespace Transcript

/-- Transcripts in order. -/
def joined : List Transcript → Transcript
  | [] => {}
  | t :: rest => t ++ joined rest

theorem stdout_joined : ∀ ts : List Transcript,
    (joined ts).stdout = String.join (ts.map Transcript.stdout)
  | [] => rfl
  | t :: rest => by rw [joined, stdout_append, stdout_joined rest, List.map_cons, String.join_cons]

theorem stderr_joined : ∀ ts : List Transcript,
    (joined ts).stderr = String.join (ts.map Transcript.stderr)
  | [] => rfl
  | t :: rest => by rw [joined, stderr_append, stderr_joined rest, List.map_cons, String.join_cons]

theorem ofOutput_append (o p : Output) : ofOutput (o ++ p) = ofOutput o ++ ofOutput p := by
  rw [ofOutput, Output.allLines_append, ofLines_append]
  rfl

end Transcript

theorem Ending.after_after (t u : Transcript) (e : Ending) :
    (e.after u).after t = e.after (t ++ u) := by
  simp only [Ending.after, Transcript.append_assoc]

/-! ## The loop of an interactive session -/

namespace Repl

/-- The course of an interactive session: how often it prompts, and how it ends. -/
inductive Loop (prompt : String) (inputEnd : InputEnd) : Session → List String → Nat → Ending → Prop
  /-- The session has ended. -/
  | inactive {s : Session} {lines : List String} : s.isActive = false →
      Loop prompt inputEnd s lines 0 ⟨0, {}⟩
  /-- The input ends while a prompt stands. -/
  | ended {s : Session} : s.isActive = true →
      Loop prompt inputEnd s [] 1 ((ending inputEnd).after (.out prompt))
  /-- The line that is typed at a prompt fails. -/
  | broken {s t : Session} {line : String} {rest : List String} {shown : Transcript}
      {failure : Failure} : s.isActive = true → step s line = (shown, t, some failure) →
      Loop prompt inputEnd s (line :: rest) 1 ((broken failure).after (.out prompt ++ shown))
  /-- The line that is typed at a prompt is run, and the session goes on. -/
  | next {s t : Session} {line : String} {rest : List String} {shown : Transcript} {prompts : Nat}
      {e : Ending} : s.isActive = true → step s line = (shown, t, none) →
      Loop prompt inputEnd t rest prompts e →
      Loop prompt inputEnd s (line :: rest) (prompts + 1) (e.after (.out prompt ++ shown))

variable {prompt : String} {inputEnd : InputEnd}

/-- A session runs its course. -/
theorem Loop.run {s : Session} {lines : List String} {prompts : Nat} {e : Ending}
    (h : Loop prompt inputEnd s lines prompts e) : run prompt inputEnd s lines = e := by
  induction h with
  | @inactive s lines ha => cases lines <;> simp [Repl.run, ha]
  | ended ha => simp [Repl.run, ha]
  | broken ha hs => simp [Repl.run, ha, hs]
  | next ha hs _ ih => simp [Repl.run, ha, hs, ih]

/-- What the lines show, each on its own. -/
def shown : Session → List String → List Transcript
  | _, [] => []
  | s, line :: rest => (step s line).1 :: shown (step s line).2.1 rest

/-- What a line shows is what it has printed, and it leaves a session without output. -/
theorem shown_cons (s : Session) (line : String) (rest : List String) :
    shown s (line :: rest) =
      .ofOutput (s.exec line).2.output :: shown (s.exec line).2.drained rest := by
  rw [shown, step]
  rcases s.exec line with ⟨failure | _, t⟩ <;> rfl

theorem length_shown : ∀ (s : Session) (lines : List String), (shown s lines).length = lines.length
  | _, [] => rfl
  | s, _ :: rest => congrArg (· + 1) (length_shown (step s _).2.1 rest)

/-- What stands on a console after lines: a prompt before each, and a last one. -/
def dialogue (prompt : String) : List Transcript → Transcript
  | [] => .out prompt
  | shown :: rest => .out prompt ++ shown ++ dialogue prompt rest

theorem stdout_dialogue (prompt : String) : ∀ shown : List Transcript,
    (dialogue prompt shown).stdout =
      String.join ((shown.map Transcript.stdout).map (prompt ++ ·)) ++ prompt
  | [] => (String.empty_append).symm
  | first :: rest => by
    rw [dialogue, Transcript.stdout_append, stdout_dialogue prompt rest]
    simp [Transcript.stdout_append, String.append_assoc]

theorem stderr_dialogue (prompt : String) : ∀ shown : List Transcript,
    (dialogue prompt shown).stderr = String.join (shown.map Transcript.stderr)
  | [] => rfl
  | first :: rest => by
    rw [dialogue, Transcript.stderr_append, stderr_dialogue prompt rest]
    simp [Transcript.stderr_append]

/-- **A session of the built-in commands prompts once for each line and once more**, and then its
input ends. -/
theorem loop_of_settled (prompt : String) (inputEnd : InputEnd) :
    ∀ (lines : List String) {s : Session}, s.Settled →
      Loop prompt inputEnd s lines (lines.length + 1)
        ((ending inputEnd).after (dialogue prompt (shown s lines)))
  | [], _, hs => .ended hs.active
  | line :: rest, s, hs => by
    obtain ⟨hok, ht⟩ := hs.exec line
    have hstep : step s line =
        (.ofOutput (s.exec line).2.output, (s.exec line).2.drained, none) := by
      rw [step, (Prod.ext hok rfl : s.exec line = (.ok (), (s.exec line).2))]
      rfl
    rw [shown_cons, dialogue, ← Ending.after_after]
    exact .next hs.active hstep (loop_of_settled prompt inputEnd rest ht.drained)

/-- **Lines show together what they show one by one.** -/
theorem ofOutput_typed : ∀ (lines : List String) {s : Session}, s.output = {} →
    Transcript.ofOutput (s.typed lines).output = Transcript.joined (shown s lines)
  | [], s, ho => by
    rw [Session.typed, List.foldl_nil, ho]
    rfl
  | line :: rest, s, _ => by
    have hbehind := Session.typed_behind (s.exec line).2.output rest (s.exec line).2.drained
    rw [Session.behind_drained] at hbehind
    rw [shown_cons, Transcript.joined, ← ofOutput_typed rest rfl, Session.typed_cons, hbehind]
    exact Transcript.ofOutput_append _ _

end Repl

/-! ## Lines as text -/

/-- The text that consists of lines, each ended by a line feed. -/
def entered (lines : List String) : String := String.join (lines.map (· ++ "\n"))

theorem toList_entered_cons (line : String) (rest : List String) :
    (entered (line :: rest)).toList = line.toList ++ '\n' :: (entered rest).toList := by
  simp [entered]

theorem pieces_entered : ∀ {lines : List String}, (∀ line ∈ lines, '\n' ∉ line.toList) →
    Text.pieces '\n' (entered lines) = lines ++ [""]
  | [], _ => rfl
  | line :: rest, h => by
    have hrest := pieces_entered fun other hmem => h other (List.mem_cons_of_mem line hmem)
    rw [Text.pieces] at hrest
    rw [Text.pieces, toList_entered_cons,
      Text.splitAt_append_cons '\n' _ (h line List.mem_cons_self), List.map_cons, hrest,
      String.ofList_toList, List.cons_append]

/-- Lines that are typed are read as they are… -/
theorem inputLines_entered {lines : List String} (h : ∀ line ∈ lines, '\n' ∉ line.toList) :
    Text.inputLines (entered lines) = lines := by
  simp [Text.inputLines, pieces_entered h]

theorem notMem_entered : ∀ {lines : List String}, (∀ line ∈ lines, '\r' ∉ line.toList) →
    '\r' ∉ (entered lines).toList
  | [], _ => List.not_mem_nil
  | line :: rest, h => by
    have hrest := notMem_entered fun other hmem => h other (List.mem_cons_of_mem line hmem)
    simp [toList_entered_cons, hrest, h line List.mem_cons_self]

/-- …and a script file has one more line, an empty one behind the last line feed. -/
theorem linesOf_entered {lines : List String} (h : ∀ line ∈ lines, '\n' ∉ line.toList)
    (hr : ∀ line ∈ lines, '\r' ∉ line.toList) :
    Script.Runner.linesOf (entered lines).toList = lines ++ [""] := by
  rw [Script.Runner.linesOf, Text.unifyBreaks_of_notMem (notMem_entered hr)]
  exact pieces_entered h

/-! ## Lines that both run -/

/-- The line is a single one, and either it is blank or it can be read and is no comment. -/
structure Enterable (line : String) : Prop where
  noLineFeed : '\n' ∉ line.toList
  noReturn : '\r' ∉ line.toList
  runs : (∀ c ∈ line.toList, Text.isBlank c = true) ∨
    (∃ tokens, Line.tokenize line = .ok tokens) ∧
      ∃ c rest, Text.dropBlanks line.toList = c :: rest ∧ c ≠ '#'

theorem isComment_of_blanks {line : String} (h : ∀ c ∈ line.toList, Text.isBlank c = true) :
    Script.isComment line = true := by
  simp only [Script.isComment, Text.dropBlanks_eq_nil_iff.mpr h]

theorem exec_of_blanks {s : Session} {line : String} (ha : s.isActive = true)
    (h : ∀ c ∈ line.toList, Text.isBlank c = true) : s.exec line = (.ok (), s) := by
  have htokens : Line.tokenize line = .ok [] := by
    have hgap := Line.tokenize_blanks_append h ""
    rw [String.append_empty] at hgap
    exact hgap
  exact Session.execWith_eq_iff.mpr (htokens ▸ .blank ha rfl)

/-- A script runs the line, unless it is blank. -/
theorem Enterable.isCommand_or {line : String} (h : Enterable line) :
    Script.isCommand line = true ∨ ∀ c ∈ line.toList, Text.isBlank c = true := by
  obtain hb | ⟨ht, c, rest, hc, hne⟩ := h.runs
  · exact .inr hb
  · refine .inl (Script.isCommand_iff.mpr ⟨?_, ht⟩)
    simp only [Script.isComment, hc]
    simpa using hne

/-- …and conversely. -/
theorem enterable_of_isCommand_or {line : String} (hfeed : '\n' ∉ line.toList)
    (hreturn : '\r' ∉ line.toList)
    (h : Script.isCommand line = true ∨ line.toList.all Text.isBlank = true) :
    Enterable line := by
  refine ⟨hfeed, hreturn, ?_⟩
  obtain hc | hb := h
  · obtain ⟨hcomment, htokens⟩ := Script.isCommand_iff.mp hc
    refine .inr ⟨htokens, ?_⟩
    rw [Script.isComment] at hcomment
    cases hdrop : Text.dropBlanks line.toList with
    | nil => simp [hdrop] at hcomment
    | cons c rest => exact ⟨c, rest, rfl, by simpa [hdrop] using hcomment⟩
  · exact .inl (List.all_eq_true.mp hb)

/-- No script complains about the line. -/
theorem Enterable.not_isMalformed {line : String} (h : Enterable line) :
    Script.isMalformed line = false := by
  obtain hc | hb := h.isCommand_or
  · simp [Script.isMalformed, Script.fault?_of_isCommand hc]
  · simp [Script.isMalformed, Script.fault?, isComment_of_blanks hb]

/-- Blank lines do nothing, so it does not matter that a script skips them. -/
theorem typed_filter_isCommand : ∀ {lines : List String}, (∀ line ∈ lines, Enterable line) →
    ∀ {s : Session}, s.Settled → s.typed (lines.filter Script.isCommand) = s.typed lines
  | [], _, _, _ => rfl
  | line :: rest, h, s, hs => by
    have hrest := @typed_filter_isCommand rest fun other hmem =>
      h other (List.mem_cons_of_mem line hmem)
    obtain hc | hb := (h line List.mem_cons_self).isCommand_or
    · rw [List.filter_cons_of_pos hc, Session.typed_cons, Session.typed_cons]
      exact hrest (hs.exec line).2
    · have hskip := Script.isCommand_of_isComment (isComment_of_blanks hb)
      rw [List.filter_cons_of_neg (by simp [hskip]), Session.typed_cons,
        exec_of_blanks hs.active hb]
      exact hrest hs

/-! ## The two requests -/

theorem settled_newSession (settings : Settings) : (newSession settings).Settled :=
  Session.settled_start settings.name settings.user settings.host

/-- A request for an interactive session with settings that can be loaded and a prompt that can be
filled runs it. -/
theorem respond_of_repl {m : Machine} {args : List String} {config : Option String}
    {settings : Settings} {prompt : String} (hrequest : Request.parse args = .ok (.repl config))
    (hsettings : settingsOf m config = .ok settings)
    (hprompt : settings.formatPrompt = .ok prompt) (input : List String)
    (inputEnd : Repl.InputEnd) : respond m args input inputEnd =
      Repl.run (Text.showText prompt) inputEnd (newSession settings) input := by
  simp only [respond, hrequest, answer, runRepl, openRepl, hsettings, hprompt]

/-- **A script of such lines** shows what they show one by one and then the statistics. -/
theorem runScript_of_enterable {m : Machine} {path : String} {settings : Settings}
    {lines : List String} (hlines : ∀ line ∈ lines, Enterable line)
    (hnul : '\x00' ∉ path.toList)
    (hfile : m.read path = .ok (Text.Utf8.encode (entered lines).toList)) :
    runScript m path settings =
      ⟨0, Transcript.joined (Repl.shown (newSession settings) lines) ++
        .out (statLine (lines.length + 1) "Lines" ++
          statLine (lines.countP Script.isCommand) "Commands" ++ statLine 0 "Errors")⟩ := by
  have hs := settled_newSession settings
  have hread : Script.Runner.readLines m.read path = .ok (lines ++ [""]) := by
    rw [readLines_of_decode hnul hfile (Text.Utf8.decode_encode _),
      linesOf_entered (fun line hmem => (hlines line hmem).noLineFeed)
        (fun line hmem => (hlines line hmem).noReturn)]
  obtain ⟨after, hp⟩ := Script.Runner.exists_passes path (lines ++ [""]) 1
    (r := { session := newSession settings }) hs
  have hempty : Script.isCommand "" = false := by decide
  have hmalformed : (lines ++ [""]).countP Script.isMalformed = 0 := by
    have hlast : Script.isMalformed "" = false := by decide
    simpa [List.countP_append, hlast] using fun line hmem => (hlines line hmem).not_isMalformed
  have hcommands :
      (lines ++ [""]).countP Script.isCommand = lines.countP Script.isCommand := by
    simp [List.countP_append, hempty]
  have herrors : after.errors = #[] :=
    Array.eq_empty_of_size_eq_zero ((size_errors_of_passes hp).trans hmalformed)
  have hreports : Transcript.errLines after.reports = {} := by
    rw [Script.Runner.reports, herrors]
    rfl
  have hsession : after.session = (newSession settings).typed lines := by
    rw [hp.typed, List.filter_append, List.filter_cons_of_neg (by simp [hempty]), List.filter_nil,
      List.append_nil]
    exact typed_filter_isCommand hlines hs
  rw [runScript_of_passes hread hp, stats_of_passes hp, hcommands, hmalformed, hreports, hsession,
    Transcript.append_empty, Repl.ofOutput_typed lines rfl, herrors, List.length_append]
  rfl

/-- **Typed or written, lines do the same.**  An interactive session shows what each line shows
between two prompts, and then ends with a line feed at its last prompt, which is the one after the
last line; a script of the same lines shows the same without the prompts and then its statistics.
The error streams are equal, and both succeed. -/
theorem respond_repl {m : Machine} {runArgs replArgs : List String} {config : Option String}
    {path : String} {settings : Settings} {prompt : String} {lines : List String}
    (hrun : Request.parse runArgs = .ok (.run config (some path)))
    (hrepl : Request.parse replArgs = .ok (.repl config))
    (hsettings : settingsOf m config = .ok settings)
    (hprompt : settings.formatPrompt = .ok prompt)
    (hlines : ∀ line ∈ lines, Enterable line) (hpath : path ≠ "") (hnul : '\x00' ∉ path.toList)
    (hfile : m.read path = .ok (Text.Utf8.encode (entered lines).toList))
    (input : List String) (inputEnd : Repl.InputEnd) :
    let written := respond m runArgs input inputEnd
    let typed := respond m replArgs (Text.inputLines (entered lines)) .endOfInput
    let pieces := (Repl.shown (newSession settings) lines).map Transcript.stdout
    let standing := Text.showText prompt
    pieces.length = lines.length ∧
    written.transcript.stdout = String.join pieces ++
      (statLine (lines.length + 1) "Lines" ++
        statLine (lines.countP Script.isCommand) "Commands" ++ statLine 0 "Errors") ∧
    typed.transcript.stdout = String.join (pieces.map (standing ++ ·)) ++ standing ++ "\n" ∧
    written.transcript.stderr = typed.transcript.stderr ∧
    written.code = 0 ∧ typed.code = 0 ∧
    Repl.Loop standing .endOfInput (newSession settings) lines (lines.length + 1) typed := by
  intro written typed pieces standing
  have hwritten : written = _ := (respond_of_run hrun hsettings hpath input inputEnd).trans
    (runScript_of_enterable hlines hnul hfile)
  have hloop := Repl.loop_of_settled standing .endOfInput lines (settled_newSession settings)
  have hinput : Text.inputLines (entered lines) = lines :=
    inputLines_entered fun line hmem => (hlines line hmem).noLineFeed
  have htyped : typed = (Repl.ending .endOfInput).after
      (Repl.dialogue standing (Repl.shown (newSession settings) lines)) := by
    rw [← hloop.run]
    simp only [typed, hinput, respond_of_repl hrepl hsettings hprompt, standing]
  refine ⟨?_, ?_, ?_, ?_, ?_, ?_, htyped ▸ hloop⟩
  · rw [List.length_map, Repl.length_shown]
  · rw [hwritten, Transcript.stdout_append, Transcript.stdout_joined, Transcript.stdout_out]
  · rw [htyped, Ending.after, Transcript.stdout_append, Repl.stdout_dialogue]
    rfl
  · rw [hwritten, htyped, Ending.after, Transcript.stderr_append, Transcript.stderr_append,
      Transcript.stderr_joined, Repl.stderr_dialogue]
    rfl
  · rw [hwritten]
  · rw [htyped]
    rfl

/-- A declaration, a blank line, a name that is not registered, a text that looks like a comment
behind a blank in quotes, and the history. -/
theorem respond_repl_mixed :
    let lines := ["declare 'A=é #1'", " \t", "nope", "\" #\" x", "history"]
    let m : Machine := {
      loginUser := none
      host := "box"
      read := fun path => .ok (if path = "s.sh"
        then Text.Utf8.encode (entered lines).toList else "name = 'tsh'".toUTF8.toList)
      userConfigPath := ""
      userConfig := none }
    let written := respond m ["run", "-c", "c.toml", "s.sh"] [] .endOfInput
    let typed := respond m ["repl", "-c", "c.toml"] (Text.inputLines (entered lines)) .endOfInput
    (∀ line ∈ lines, Enterable line) ∧
    written.transcript.stdout =
      "    1  declare 'A=é #1'\n    2  nope\n    3  \" #\" x\n    4  history\n" ++
      (statLine 6 "Lines" ++ statLine 4 "Commands" ++ statLine 0 "Errors") ∧
    typed.transcript.stdout = "guest@box$ guest@box$ guest@box$ guest@box$ guest@box$ " ++
      "    1  declare 'A=é #1'\n    2  nope\n    3  \" #\" x\n    4  history\n" ++
      "guest@box$ \n" ∧
    typed.transcript.stderr = "tsh: command not found: nope\ntsh: command not found:  #\n" ∧
    written.transcript.stderr = typed.transcript.stderr ∧ written.code = 0 ∧ typed.code = 0 := by
  intro lines m written typed
  let settings : Settings := ⟨"tsh", "guest", "box", "\x7buser\x7d@\x7bhost\x7d$ "⟩
  have hsettings : settingsOf m (some "c.toml") = .ok settings := by decide +kernel
  have hprompt : settings.formatPrompt = .ok "guest@box$ " := by decide +kernel
  have hlines : ∀ line ∈ lines, Enterable line := by
    have hall : ∀ line ∈ lines, '\n' ∉ line.toList ∧ '\r' ∉ line.toList ∧
        (Script.isCommand line = true ∨ line.toList.all Text.isBlank = true) := by decide
    intro line hmem
    obtain ⟨hfeed, hreturn, hkind⟩ := hall line hmem
    exact enterable_of_isCommand_or hfeed hreturn hkind
  have hrun : Request.parse ["run", "-c", "c.toml", "s.sh"] =
      .ok (.run (some "c.toml") (some "s.sh")) := rfl
  have hrepl : Request.parse ["repl", "-c", "c.toml"] = .ok (.repl (some "c.toml")) := rfl
  obtain ⟨-, hout, hout', herr, hcode, hcode', -⟩ :=
    respond_repl hrun hrepl hsettings hprompt hlines (by decide) (by decide) rfl [] .endOfInput
  exact ⟨hlines, hout.trans (by decide +kernel), hout'.trans (by decide +kernel),
    herr.symm.trans (herr.trans (by decide +kernel)), herr, hcode, hcode'⟩

end Cli

end LineShell
