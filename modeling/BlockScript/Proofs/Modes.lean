import BlockScript.Proofs.Places
import BlockScript.Proofs.Prompt
import BlockScript.Proofs.ScopeFrame

/-!
# The modes of the command line agree

What is wrong with a source before anything is run is what is wrong with its lexemes, or else with
its syntax (`Program.ofSource_of_lexicalFaults`, `Program.ofSource_of_syntaxFaults`). A script is
rejected for it with the same report whether it is run or its trees are written, and what the
process leaves behind tells how it ended (`Console.modes_agree`).
-/

namespace BlockScript

/-! ## Static faults -/

namespace Program

variable {source : String}

/-- All that is wrong with the lexemes of a source. -/
def lexicalFaults (source : String) : List Diagnostic := (Scan.ofSource source).diagnostics

/-- All that is wrong with the statements that the tokens of a source make up. -/
def syntaxFaults (source : String) : List Diagnostic :=
  Diagnostic.ofResults (Stmt.parseAll (Scan.ofSource source).tokens).1

/-- All lexical faults of a source, or all faults of its syntax if it has no lexical one. -/
def staticFaults (source : String) : List Diagnostic :=
  match lexicalFaults source with
  | [] => syntaxFaults source
  | d :: ds => d :: ds

theorem staticFaults_of_lexicalFaults (h : lexicalFaults source ≠ []) :
    staticFaults source = lexicalFaults source := by
  rw [staticFaults]
  split
  · contradiction
  · rename_i heq
    exact heq.symm

theorem staticFaults_eq_nil_iff :
    staticFaults source = [] ↔ lexicalFaults source = [] ∧ syntaxFaults source = [] := by
  rw [staticFaults]
  split
  · rename_i heq
    simp [heq]
  · rename_i heq
    simp [heq]

/-- The faults of either stage lie one after the other. -/
theorem pairwise_staticFaults (source : String) :
    (staticFaults source).Pairwise Diagnostic.Precedes := by
  have hlexical : (lexicalFaults source).Pairwise Diagnostic.Precedes :=
    Scan.pairwise_diagnostics source
  rw [staticFaults]
  split
  · exact Unread.start.pairwise.1
  · rename_i heq
    rwa [heq] at hlexical

theorem tokens_of_lexicalFaults (h : lexicalFaults source ≠ []) :
    tokens source = .error (lexicalFaults source) :=
  if_neg fun hempty => h (List.isEmpty_iff.mp hempty)

theorem ofSource_eq_ofTokens (h : lexicalFaults source = []) :
    ofSource source = ofTokens (Scan.ofSource source).tokens := by
  have htokens : tokens source = .ok (Scan.ofSource source).tokens :=
    if_pos (List.isEmpty_iff.mpr h)
  rw [ofSource, htokens]

/-- A source with static faults is rejected for all those of the first stage that has any. -/
theorem ofSource_of_staticFaults (h : staticFaults source ≠ []) :
    ofSource source = .error (staticFaults source) := by
  rw [staticFaults] at h ⊢
  split at h
  · rename_i hlexical
    rw [ofSource_eq_ofTokens hlexical]
    exact if_neg fun hempty => h (List.isEmpty_iff.mp hempty)
  · rename_i hlexical
    rw [ofSource, tokens_of_lexicalFaults (by simp [hlexical]), hlexical]

/-- A source without a static fault is a program, whose statements are what was read. -/
theorem exists_ofSource_eq_ok (h : staticFaults source = []) :
    ∃ program, ofSource source = .ok program ∧
      (Stmt.parseAll (Scan.ofSource source).tokens).1 = program.map .ok := by
  obtain ⟨hlexical, hsyntax⟩ := staticFaults_eq_nil_iff.mp h
  obtain ⟨program, hprogram⟩ := Diagnostic.exists_map_ok_of_ofResults hsyntax
  refine ⟨program, ?_, hprogram⟩
  have hok := Diagnostic.filterMap_toOption_map_ok program
  rw [ofSource_eq_ofTokens hlexical, ← hok, ← hprogram]
  exact if_pos (List.isEmpty_iff.mpr hsyntax)

end Program

theorem Diagnostic.reports_eq_empty_iff {ds : List Diagnostic} : reports ds = "" ↔ ds = [] := by
  cases ds with
  | nil => simp [reports]
  | cons d ds => simp [reports, String.append_eq_empty_iff]

/-- The statement at which a run fails is the last one that it runs. -/
theorem Stmt.exists_split_of_execAll {m after : Machine} {ss : List Stmt} {d : Diagnostic}
    (h : execAll m ss = (.error d, after)) :
    ∃ before s rest middle, ss = before ++ s :: rest ∧ execAll m before = (.ok (), middle) ∧
      s.exec middle = (.error d, after) := by
  induction ss generalizing m with
  | nil => cases h
  | cons s ss ih =>
    cases hexec : s.exec m with
    | mk result middle =>
      rw [execAll, hexec] at h
      cases result with
      | error other =>
        cases h
        exact ⟨[], s, ss, m, rfl, rfl, hexec⟩
      | ok _ =>
        obtain ⟨before, failed, rest, last, rfl, hbefore, hfailed⟩ := ih h
        refine ⟨s :: before, failed, rest, last, rfl, ?_, hfailed⟩
        rw [execAll, hexec]
        exact hbefore

namespace Console

/-! ## Without the interpreter -/

/-- What is done with a source, where `run` is what running the statements of a program does. -/
def feedWith (run : Machine → List Stmt → Except Diagnostic Unit × Machine) (c : Console)
    (mode : Mode) (source : String) : Option Failure × Console :=
  match mode with
  | .tokens =>
    let scan := Scan.ofSource source
    (c.writeLines (scan.tokens.map Token.dump)).report .static scan.diagnostics
  | .trees =>
    match Program.ofSource source with
    | .error diagnostics => c.report .static diagnostics
    | .ok program => (none, c.writeLines (program.map Stmt.text))
  | .run =>
    match Program.ofSource source with
    | .error diagnostics => c.report .static diagnostics
    | .ok program =>
      match run c.machine program with
      | (.error d, m) => { c with machine := m }.report .runtime [d]
      | (.ok (), m) => (none, { c with machine := m })

theorem feedWith_execAll (c : Console) (mode : Mode) (source : String) :
    c.feedWith Stmt.execAll mode source = c.feed mode source := by
  cases mode with
  | tokens => rfl
  | trees => rfl
  | run =>
    simp only [feedWith, feed, Session.run]
    cases Program.ofSource source with
    | error ds => rfl
    | ok program =>
      simp only
      generalize Stmt.execAll c.machine program = outcome
      obtain ⟨result, m⟩ := outcome
      cases result <;> rfl

/-- Nothing is run unless the source is to be run and has no static fault. -/
theorem feedWith_eq_feed {mode : Mode} {source : String}
    (h : mode ≠ .run ∨ Program.staticFaults source ≠ [])
    (run : Machine → List Stmt → Except Diagnostic Unit × Machine) (c : Console) :
    c.feedWith run mode source = c.feed mode source := by
  rw [← feedWith_execAll]
  cases mode with
  | tokens => rfl
  | trees => rfl
  | run =>
    have hfaults := Program.ofSource_of_staticFaults (h.resolve_left (· rfl))
    simp only [feedWith, hfaults]

/-- What is not run leaves the bindings of the session as they are. -/
theorem environment_feed {mode : Mode} {source : String}
    (h : mode ≠ .run ∨ Program.staticFaults source ≠ []) (c : Console) :
    (c.feed mode source).2.machine.environment = c.machine.environment := by
  rw [← feedWith_execAll]
  cases mode with
  | tokens => rw [feedWith, machine_report, environment_writeLines]
  | trees =>
    rw [feedWith]
    cases Program.ofSource source with
    | error ds => simp only [machine_report]
    | ok program => exact environment_writeLines c _
  | run =>
    have hfaults := Program.ofSource_of_staticFaults (h.resolve_left (· rfl))
    simp only [feedWith, hfaults, machine_report]

/-! ## What a script leaves behind -/

/-- What is left behind by the script that spells the source. -/
def script (mode : Mode) (source : String) : Transcript := runScript mode (decode source.toUTF8)

theorem writeLines_resumed (env : Environment) (text stderr : String) (lines : List String) :
    writeLines ⟨.resumed env text.toUTF8, stderr⟩ lines =
      ⟨.resumed env (text ++ String.join (lines.map (· ++ "\n"))).toUTF8, stderr⟩ := by
  induction lines generalizing text with
  | nil => simp [writeLines]
  | cons line rest ih =>
    have hwrite : write ⟨.resumed env text.toUTF8, stderr⟩ (line ++ "\n") =
        ⟨.resumed env (text ++ (line ++ "\n")).toUTF8, stderr⟩ := by
      rw [toUTF8_append]
      rfl
    rw [writeLines, List.foldl_cons, hwrite, ← writeLines, ih]
    simp [String.append_assoc]

theorem writeLines_new (lines : List String) :
    new.writeLines lines =
      ⟨.resumed .empty (String.join (lines.map (· ++ "\n"))).toUTF8, ""⟩ := by
  have hlines := writeLines_resumed .empty "" "" lines
  rw [String.empty_append] at hlines
  exact hlines

theorem script_eq (mode : Mode) (source : String) :
    script mode source =
      match new.feed mode source with
      | (none, c) => c.transcript 0
      | (some failure, c) => c.transcript failure.exitCode := by
  rw [script, decode, fromUTF8?_toUTF8]
  rfl

variable {source : String}

theorem script_tokens (source : String) :
    script .tokens source =
      ⟨String.join ((Scan.ofSource source).tokens.map fun t => t.dump ++ "\n"),
        Diagnostic.reports (Program.lexicalFaults source),
        if Program.lexicalFaults source = [] then 0 else 65⟩ := by
  rw [script_eq, feed, writeLines_new, List.map_map]
  cases hfaults : (Scan.ofSource source).diagnostics with
  | nil =>
    simp only [Program.lexicalFaults, hfaults, report, List.isEmpty_nil, if_pos,
      transcript_resumed]
    rfl
  | cons d ds =>
    simp only [Program.lexicalFaults, hfaults, report_of_ne_nil _ _ (List.cons_ne_nil d ds),
      transcript_resumed, String.empty_append, reduceCtorEq, if_false]
    rfl

/-- A source with static faults is rejected in the same way whether its trees are to be written or
    it is to be run. -/
theorem script_of_staticFaults (h : Program.staticFaults source ≠ []) {mode : Mode}
    (hmode : mode ≠ .tokens) :
    script mode source = ⟨"", Diagnostic.reports (Program.staticFaults source), 65⟩ := by
  have hfeed : new.feed mode source =
      (some .static, ⟨.resumed .empty "".toUTF8,
        "" ++ Diagnostic.reports (Program.staticFaults source)⟩) := by
    rw [← feedWith_execAll]
    cases mode with
    | tokens => contradiction
    | trees | run =>
      simp only [feedWith, Program.ofSource_of_staticFaults h]
      exact report_of_ne_nil new .static h
  rw [script_eq, hfeed, String.empty_append]
  exact transcript_resumed _ _ _ _

theorem script_trees {program : List Stmt} (h : Program.ofSource source = .ok program) :
    script .trees source = ⟨String.join (program.map fun s => s.text ++ "\n"), "", 0⟩ := by
  simp only [script_eq, feed, h, writeLines_new, transcript_resumed, List.map_map]
  rfl

theorem script_run {program : List Stmt} (h : Program.ofSource source = .ok program) :
    script .run source =
      match Stmt.execAll (.new none) program with
      | (.error d, m) => ⟨m.output.text, d.report ++ "\n", 70⟩
      | (.ok (), m) => ⟨m.output.text, "", 0⟩ := by
  have hmachine : new.machine = .new none := rfl
  rw [script_eq, feed_run, Session.run_eq_execute, h, Session.execute_ok, hmachine]
  obtain ⟨result, m⟩ := Stmt.execAll (.new none) program
  cases result with
  | ok _ => rfl
  | error d =>
    simp [Session.Outcome.ofResult, Session.Outcome.failure?, Session.Outcome.diagnostics,
      Diagnostic.reports, transcript, Failure.exitCode, new]

/-! ## The modes -/

/-- What is left behind by a script whose statements are run: all that they printed, or what was
    printed up to the first failure, and that failure. -/
structure Executes (program : List Stmt) (t : Transcript) : Prop where
  fails_iff : t.exitCode = 70 ↔ ∃ d, (Stmt.execAll (.new none) program).1 = .error d
  failed : ∀ d m, Stmt.execAll (.new none) program = (.error d, m) →
    d.stage = .running ∧ t = ⟨m.output.text, d.report ++ "\n", 70⟩ ∧
      ∃ before s rest middle, program = before ++ s :: rest ∧
        Stmt.execAll (.new none) before = (.ok (), middle) ∧ s.exec middle = (.error d, m)
  finished : ∀ m, Stmt.execAll (.new none) program = (.ok (), m) → t = ⟨m.output.text, "", 0⟩

/-- The modes judge a script alike, and what the process leaves behind tells how it ended. -/
structure ModesAgree (source : String) : Prop where
  silent_iff : ∀ mode, (script mode source).stderr = "" ↔ (script mode source).exitCode = 0
  rejected_iff : ∀ mode, mode ≠ .tokens →
    ((script mode source).exitCode = 65 ↔
      Program.lexicalFaults source ≠ [] ∨
        Program.lexicalFaults source = [] ∧ Program.syntaxFaults source ≠ [])
  rejected : Program.staticFaults source ≠ [] → ∀ mode, mode ≠ .tokens →
    script mode source = ⟨"", Diagnostic.reports (Program.staticFaults source), 65⟩
  reported_in_order : (Program.staticFaults source).Pairwise Diagnostic.Precedes
  /-- What is done with a source depends on the interpreter as `feedWith` says. -/
  feedWith_execAll : ∀ (mode : Mode) (c : Console),
    c.feedWith Stmt.execAll mode source = c.feed mode source
  /-- In any session it makes no difference what running statements does, and all bindings stay. -/
  not_executed : ∀ mode, mode ≠ .run ∨ Program.staticFaults source ≠ [] →
    ∀ (run : Machine → List Stmt → Except Diagnostic Unit × Machine) (c : Console),
      c.feedWith run mode source = c.feed mode source ∧
        (c.feed mode source).2.machine.environment = c.machine.environment
  accepted : Program.staticFaults source = [] → ∃ program : List Stmt,
    (Stmt.parseAll (Scan.ofSource source).tokens).1 = program.map .ok ∧
      script .trees source = ⟨String.join (program.map fun s => s.text ++ "\n"), "", 0⟩ ∧
      Executes program (script .run source)
  tokens_written : script .tokens source =
    ⟨String.join ((Scan.ofSource source).tokens.map fun t => t.dump ++ "\n"),
      Diagnostic.reports (Program.lexicalFaults source),
      if Program.lexicalFaults source = [] then 0 else 65⟩
  end_written : (Scan.ofSource source).tokens.getLast? = some (Scan.endToken source)
  tokens_reported : Program.lexicalFaults source ≠ [] → ∀ mode,
    (script mode source).stderr = (script .tokens source).stderr

theorem executes_script {program : List Stmt} (h : Program.ofSource source = .ok program) :
    Executes program (script .run source) := by
  have hscript := script_run h
  constructor
  · rw [hscript]
    obtain ⟨result, m⟩ := Stmt.execAll (.new none) program
    cases result with
    | error d => simp
    | ok _ => simp
  · intro d m hexec
    rw [hexec] at hscript
    have hstage : d.stage = .running :=
      @Stmt.stage_of_execAll .empty ByteArray.empty d program (congrArg Prod.fst hexec)
    exact ⟨hstage, hscript, Stmt.exists_split_of_execAll hexec⟩
  · intro m hexec
    rw [hexec] at hscript
    exact hscript

/-- A script is rejected, finishes without a word on standard error, or fails. -/
theorem script_cases {mode : Mode} (hmode : mode ≠ .tokens) (source : String) :
    Program.staticFaults source ≠ [] ∧
        script mode source = ⟨"", Diagnostic.reports (Program.staticFaults source), 65⟩ ∨
      Program.staticFaults source = [] ∧ ∃ text, script mode source = ⟨text, "", 0⟩ ∨
        ∃ d : Diagnostic, script mode source = ⟨text, d.report ++ "\n", 70⟩ := by
  by_cases hfaults : Program.staticFaults source = []
  · refine .inr ⟨hfaults, ?_⟩
    obtain ⟨program, hprogram, -⟩ := Program.exists_ofSource_eq_ok hfaults
    cases mode with
    | tokens => contradiction
    | trees => exact ⟨_, .inl (script_trees hprogram)⟩
    | run =>
      rw [script_run hprogram]
      obtain ⟨result, m⟩ := Stmt.execAll (.new none) program
      cases result with
      | error d => exact ⟨_, .inr ⟨d, rfl⟩⟩
      | ok _ => exact ⟨_, .inl rfl⟩
  · exact .inl ⟨hfaults, script_of_staticFaults hfaults hmode⟩

theorem silent_iff (mode : Mode) (source : String) :
    (script mode source).stderr = "" ↔ (script mode source).exitCode = 0 := by
  by_cases hmode : mode = .tokens
  · rw [hmode, script_tokens, Diagnostic.reports_eq_empty_iff]
    by_cases hfaults : Program.lexicalFaults source = [] <;> simp [hfaults]
  · rcases script_cases hmode source with
      ⟨hfaults, hscript⟩ | ⟨-, text, hscript | ⟨d, hscript⟩⟩ <;> rw [hscript]
    · simp [Diagnostic.reports_eq_empty_iff, hfaults]
    · simp
    · simp [String.append_eq_empty_iff]

theorem rejected_iff {mode : Mode} (hmode : mode ≠ .tokens) (source : String) :
    (script mode source).exitCode = 65 ↔ Program.staticFaults source ≠ [] := by
  rcases script_cases hmode source with
    ⟨hfaults, hscript⟩ | ⟨hfaults, text, hscript | ⟨d, hscript⟩⟩ <;> simp [hscript, hfaults]

theorem modes_agree (source : String) : ModesAgree source where
  silent_iff mode := silent_iff mode source
  rejected_iff mode hmode := by
    rw [rejected_iff hmode, ne_eq, Program.staticFaults_eq_nil_iff]
    tauto
  rejected hfaults mode hmode := script_of_staticFaults hfaults hmode
  reported_in_order := Program.pairwise_staticFaults source
  feedWith_execAll mode c := Console.feedWith_execAll c mode source
  not_executed _ h run c := ⟨feedWith_eq_feed h run c, environment_feed h c⟩
  accepted hfaults := by
    obtain ⟨program, hprogram, hread⟩ := Program.exists_ofSource_eq_ok hfaults
    exact ⟨program, hread, script_trees hprogram, executes_script hprogram⟩
  tokens_written := script_tokens source
  end_written := List.getLast?_concat
  tokens_reported hlexical mode := by
    have hfaults : Program.staticFaults source ≠ [] := by
      rwa [Program.staticFaults_of_lexicalFaults hlexical]
    by_cases hmode : mode = .tokens
    · rw [hmode]
    · rw [script_of_staticFaults hfaults hmode, script_tokens,
        Program.staticFaults_of_lexicalFaults hlexical]

end Console

end BlockScript
