import BlockScript.Proofs.ProgramLines
import BlockScript.Proofs.Transcript

/-!
# The prompt agrees with scripts

`Session.replies` says what becomes of lines that are run one after the other, each with the
bindings that the ones before it left: the prompt shows these replies, and a script of those lines
that have no static fault prints the same up to the first one that fails
(`Console.prompt_agrees_with_script`).
-/

namespace BlockScript

/-- The diagnostic in the same column of the line `n`. -/
def Diagnostic.onLine (n : Nat) (d : Diagnostic) : Diagnostic := d.move (Position.onLine n)

/-- The lines of which each has no static fault by itself. -/
def Program.kept (lines : List String) : List String :=
  lines.filter fun line => (ofSource line).isOk

namespace Session

/-- Whether anything was run. -/
def Outcome.isRun : Outcome → Bool
  | rejected _ => false
  | failed _ | finished => true

/-- How statements end that were run. -/
def Outcome.ofResult : Except Diagnostic Unit → Outcome
  | .error d => failed d
  | .ok () => finished

/-- What becomes of a line: how it ends, what it prints, and the scopes that it leaves. -/
structure Reply where
  outcome : Outcome
  printed : String
  environment : Environment

/-- The reply to a line that is run in the environment. -/
def reply (env : Environment) (line : String) : Reply :=
  let (outcome, m) := run ⟨env, .empty none⟩ line
  ⟨outcome, m.output.text, m.environment⟩

/-- The replies to lines that are run one after the other. -/
def replies (env : Environment) : List String → List Reply
  | [] => []
  | line :: rest => reply env line :: replies (reply env line).environment rest

/-! ## The reply to a line -/

theorem execute_ok (m : Machine) (program : List Stmt) :
    execute m (.ok program) =
      (.ofResult (Stmt.execAll m program).1, (Stmt.execAll m program).2) := by
  rw [execute]
  obtain ⟨result, after⟩ := Stmt.execAll m program
  cases result <;> rfl

theorem run_appends (env : Environment) (line : String) :
    Machine.Appends (fun m => run m line) env := by
  simp only [run_eq_execute]
  cases Program.ofSource line with
  | error ds => exact Machine.appends_of_silent (.rejected ds) env fun _ => rfl
  | ok program =>
    obtain ⟨result, after, text, hexec⟩ := Stmt.execAll_appends env program
    refine ⟨.ofResult result, after, text, fun written => ?_⟩
    simp only [execute_ok, hexec written]

/-- Whatever was written before a line is run, it does what its reply says. -/
theorem run_resumed (env : Environment) (written : ByteArray) (line : String) :
    run (.resumed env written) line =
      ((reply env line).outcome,
        .resumed (reply env line).environment (written ++ (reply env line).printed.toUTF8)) := by
  obtain ⟨outcome, after, text, hrun⟩ := run_appends env line
  have hfresh : run ⟨env, .empty none⟩ line = (outcome, ⟨after, ⟨text.toUTF8, none⟩⟩) := by
    have hempty := hrun ByteArray.empty
    rw [ByteArray.empty_append] at hempty
    exact hempty
  have hreply : reply env line = ⟨outcome, text, after⟩ := by
    simp only [reply, hfresh, Output.text_toUTF8]
  rw [hreply]
  exact hrun written

/-- A line with a static fault prints nothing and leaves the scopes as they are. -/
theorem reply_of_error {line : String} {ds : List Diagnostic}
    (h : Program.ofSource line = .error ds) (env : Environment) :
    reply env line = ⟨.rejected ds, "", env⟩ := by
  have hrun : run ⟨env, .empty none⟩ line = (.rejected ds, ⟨env, .empty none⟩) := by
    rw [run_eq_execute, h]
    rfl
  have htext : (Output.empty none).text = "" := Output.text_toUTF8 "" none
  simp only [reply, hrun, htext]

theorem execAll_of_reply {line : String} {program : List Stmt}
    (h : Program.ofSource line = .ok program) (env : Environment) (written : ByteArray) :
    ∃ result, (reply env line).outcome = .ofResult result ∧
      Stmt.execAll (.resumed env written) program =
        (result, .resumed (reply env line).environment
          (written ++ (reply env line).printed.toUTF8)) := by
  have hrun := run_resumed env written line
  rw [run_eq_execute, h, execute_ok] at hrun
  obtain ⟨houtcome, hmachine⟩ := Prod.mk.inj hrun
  exact ⟨_, houtcome.symm, Prod.ext rfl hmachine⟩

/-! ## The replies to lines -/

/-- Lines with static faults have no effect on the replies to the other ones. -/
theorem replies_kept (env : Environment) (lines : List String) :
    replies env (Program.kept lines) = (replies env lines).filter (·.outcome.isRun) := by
  induction lines generalizing env with
  | nil => rfl
  | cons line rest ih =>
    have hrest := ih (reply env line).environment
    cases hprogram : Program.ofSource line with
    | error ds =>
      have hskip : Program.kept (line :: rest) = Program.kept rest := by
        rw [Program.kept, List.filter_cons_of_neg (by simp [hprogram, Except.isOk, Except.toBool])]
        rfl
      rw [reply_of_error hprogram] at hrest
      rw [hskip, replies, reply_of_error hprogram,
        List.filter_cons_of_neg (by simp [Outcome.isRun])]
      exact hrest
    | ok program =>
      have hkeep : Program.kept (line :: rest) = line :: Program.kept rest := by
        rw [Program.kept, List.filter_cons_of_pos (by simp [hprogram, Except.isOk, Except.toBool])]
        rfl
      have hrun : (reply env line).outcome.isRun = true := by
        obtain ⟨result, houtcome, -⟩ := execAll_of_reply hprogram env ByteArray.empty
        rw [houtcome]
        cases result <;> rfl
      rw [hkeep, replies, replies, List.filter_cons, if_pos hrun, hrest]

theorem exists_reply_of_mem {env : Environment} {lines : List String} {r : Reply}
    (h : r ∈ replies env lines) : ∃ line ∈ lines, ∃ before, r = reply before line := by
  induction lines generalizing env with
  | nil => cases h
  | cons line rest ih =>
    rcases List.mem_cons.mp h with rfl | h
    · exact ⟨line, List.mem_cons_self, env, rfl⟩
    · obtain ⟨other, hother, before, rfl⟩ := ih h
      exact ⟨other, List.mem_cons_of_mem _ hother, before, rfl⟩

/-- A line by itself fails at an operator or a name of line 1. -/
theorem reply_failed {env : Environment} {line : String} {d : Diagnostic}
    (h : Text.IsLines [line]) (hfailed : (reply env line).outcome = .failed d) :
    d.stage = .running ∧ d.onLine 1 = d := by
  cases hprogram : Program.ofSource line with
  | error ds =>
    rw [reply_of_error hprogram] at hfailed
    cases hfailed
  | ok program =>
    obtain ⟨result, houtcome, hexec⟩ := execAll_of_reply hprogram env ByteArray.empty
    -- The statements are on line 1 already, so that moving them there changes no fault of theirs.
    have hmove := Stmt.execAll_move (Position.onLine 1) (.resumed env ByteArray.empty) program
    rw [Program.onLine_one h hprogram, hexec] at hmove
    rw [houtcome] at hfailed
    cases result with
    | ok _ => cases hfailed
    | error other =>
      cases hfailed
      constructor
      · apply Stmt.stage_of_execAll program
        rw [hexec]
      · exact (Except.error.inj (Prod.mk.inj hmove).1).symm

/-- A line without a static fault is run, to its end or up to a failure. -/
theorem finished_or_failed_of_mem_kept {env : Environment} {lines : List String} {r : Reply}
    (h : r ∈ replies env (Program.kept lines)) :
    r.outcome = .finished ∨ ∃ d, r.outcome = .failed d := by
  rw [replies_kept] at h
  obtain ⟨-, hrun⟩ := List.mem_filter.mp h
  cases houtcome : r.outcome with
  | rejected ds => simp [houtcome, Outcome.isRun] at hrun
  | failed d => exact .inr ⟨d, rfl⟩
  | finished => exact .inl rfl

/-! ## The script of the lines -/

/-- How a script of lines with these replies ends and what it prints, where the first of the lines
    is the line `n`: the first one that fails is the last to be run. -/
def scriptOf : Nat → List Reply → Except Diagnostic Unit × String
  | _, [] => (.ok (), "")
  | n, ⟨.failed d, printed, _⟩ :: _ => (.error (d.onLine n), printed)
  | n, ⟨_, printed, _⟩ :: rest => ((scriptOf (n + 1) rest).1, printed ++ (scriptOf (n + 1) rest).2)

theorem execAll_joined {lines : List String} {programs : List (List Stmt)}
    (h : lines.map Program.ofSource = programs.map .ok) (env : Environment) (n : Nat)
    (written : ByteArray) : ∃ after,
      Stmt.execAll (.resumed env written) (Program.joined n programs) =
        ((scriptOf n (replies env lines)).1,
          .resumed after (written ++ (scriptOf n (replies env lines)).2.toUTF8)) := by
  induction lines generalizing programs env n written with
  | nil =>
    obtain rfl := List.map_eq_nil_iff.mp h.symm
    refine ⟨env, ?_⟩
    simp [Program.joined, Stmt.execAll, replies, scriptOf]
  | cons line rest ih =>
    obtain ⟨program, others, rfl, hprogram, hothers⟩ := List.map_eq_cons_iff.mp h.symm
    obtain ⟨result, houtcome, hexec⟩ := execAll_of_reply hprogram.symm env written
    have hmove := Stmt.execAll_move (Position.onLine n) (.resumed env written) program
    rw [hexec] at hmove
    rw [Program.joined, Stmt.execAll_append, hmove, replies]
    generalize reply env line = first at houtcome hexec
    obtain ⟨outcome, printed, after⟩ := first
    cases result with
    | error d =>
      obtain rfl : outcome = .failed d := houtcome
      exact ⟨after, rfl⟩
    | ok _ =>
      obtain rfl : outcome = .finished := houtcome
      -- The other lines are run with the bindings and after the output of this one.
      obtain ⟨last, hrest⟩ := ih hothers.symm after (n + 1) (written ++ printed.toUTF8)
      refine ⟨last, ?_⟩
      simp only [Diagnostic.mapError_ok, scriptOf]
      rw [hrest]
      simp [ByteArray.append_assoc]

theorem scriptOf_finished {rs : List Reply} (h : ∀ r ∈ rs, r.outcome = .finished) (n : Nat) :
    scriptOf n rs = (.ok (), String.join (rs.map Reply.printed)) := by
  induction rs generalizing n with
  | nil => simp [scriptOf]
  | cons r rest ih =>
    obtain ⟨outcome, printed, after⟩ := r
    obtain rfl : outcome = .finished := h _ List.mem_cons_self
    simp only [scriptOf, ih fun other hother => h other (List.mem_cons_of_mem _ hother)]
    simp

theorem scriptOf_failed {before after : List Reply} {d : Diagnostic} {printed : String}
    {env : Environment} (h : ∀ r ∈ before, r.outcome = .finished) (n : Nat) :
    scriptOf n (before ++ ⟨.failed d, printed, env⟩ :: after) =
      (.error (d.onLine (n + before.length)),
        String.join (before.map Reply.printed) ++ printed) := by
  induction before generalizing n with
  | nil => simp [scriptOf]
  | cons r rest ih =>
    obtain ⟨outcome, shown, left⟩ := r
    obtain rfl : outcome = .finished := h _ List.mem_cons_self
    have hrest := ih (fun other hother => h other (List.mem_cons_of_mem _ hother)) (n + 1)
    simp only [List.cons_append, scriptOf, hrest]
    simp [String.append_assoc, Nat.add_assoc, Nat.add_comm 1]

theorem exists_scriptOf_error_iff {rs : List Reply} (n : Nat) :
    (∃ d, (scriptOf n rs).1 = .error d) ↔ ∃ r ∈ rs, ∃ d, r.outcome = .failed d := by
  induction rs generalizing n with
  | nil => simp [scriptOf]
  | cons r rest ih =>
    obtain ⟨outcome, printed, after⟩ := r
    cases outcome with
    | failed d => simp [scriptOf]
    | rejected ds => simp [scriptOf, ih]
    | finished => simp [scriptOf, ih]

end Session

namespace Console

open Session (replies scriptOf)

theorem transcript_resumed (env : Environment) (text stderr : String) (exitCode : UInt32) :
    transcript ⟨.resumed env text.toUTF8, stderr⟩ exitCode = ⟨text, stderr, exitCode⟩ := by
  simp only [transcript, Machine.resumed, Output.text_toUTF8]

theorem ask_resumed (env : Environment) (text stderr : String) :
    ask ⟨.resumed env text.toUTF8, stderr⟩ = ⟨.resumed env (text ++ "> ").toUTF8, stderr⟩ := by
  rw [toUTF8_append]
  rfl

theorem feed_resumed (env : Environment) (text stderr line : String) :
    feed ⟨.resumed env text.toUTF8, stderr⟩ .run line =
      ((Session.reply env line).outcome.failure?,
        ⟨.resumed (Session.reply env line).environment
            (text ++ (Session.reply env line).printed).toUTF8,
          stderr ++ Diagnostic.reports (Session.reply env line).outcome.diagnostics⟩) := by
  rw [feed_run, Session.run_resumed, toUTF8_append]

/-- The prompt asks for each line and shows its reply. -/
theorem promptFrom_lines (env : Environment) (text stderr : String) (lines : List String) :
    promptFrom ⟨.resumed env text.toUTF8, stderr⟩ .run (lines.map .ok) =
      ⟨text ++ String.join ((replies env lines).map fun r => "> " ++ r.printed) ++ "> ",
        stderr ++ String.join ((replies env lines).map fun r =>
          Diagnostic.reports r.outcome.diagnostics), 0⟩ := by
  induction lines generalizing env text stderr with
  | nil =>
    rw [List.map_nil, promptFrom, ask_resumed, transcript_resumed]
    simp [replies]
  | cons line rest ih =>
    rw [List.map_cons, promptFrom, ask_resumed, feed_resumed, ih]
    simp [replies, String.append_assoc]

theorem runPrompt_lines {lines : List String} (h : Text.IsLines lines) :
    runPrompt .run (String.join lines).toUTF8 =
      ⟨String.join ((replies .empty lines).map fun r => "> " ++ r.printed) ++ "> ",
        String.join ((replies .empty lines).map fun r =>
          Diagnostic.reports r.outcome.diagnostics), 0⟩ := by
  have hlines : (lines.map fun line => line.toUTF8.toList).map (fun line => decode ⟨line.toArray⟩) =
      lines.map .ok := by
    rw [List.map_map]
    exact List.map_congr_left fun line _ => decode_toUTF8 line
  have hprompt := promptFrom_lines .empty "" "" lines
  rw [String.empty_append, String.empty_append] at hprompt
  rw [runPrompt, Text.splitLines_join h, hlines]
  exact hprompt

/-- A script of lines without static faults. -/
theorem runScript_join {lines : List String} {programs : List (List Stmt)}
    (h : Text.IsLines lines) (hprograms : lines.map Program.ofSource = programs.map .ok) :
    runScript .run (.ok (String.join lines)) =
      match scriptOf 1 (replies .empty lines) with
      | (.ok (), printed) => ⟨printed, "", 0⟩
      | (.error d, printed) => ⟨printed, d.report ++ "\n", 70⟩ := by
  obtain ⟨after, hexec⟩ := Session.execAll_joined hprograms .empty 1 "".toUTF8
  rw [← toUTF8_append, String.empty_append] at hexec
  have hfeed := feed_run .new (String.join lines)
  have hmachine : Console.new.machine = .resumed .empty "".toUTF8 := rfl
  rw [hmachine, Session.run_eq_execute, Program.ofSource_join h hprograms, Session.execute_ok,
    hexec] at hfeed
  simp only [runScript, hfeed]
  obtain ⟨result, printed⟩ := scriptOf 1 (replies .empty lines)
  cases result with
  | ok _ =>
    simp only [Session.Outcome.ofResult, Session.Outcome.failure?, Session.Outcome.diagnostics,
      transcript_resumed]
    rfl
  | error d =>
    simp only [Session.Outcome.ofResult, Session.Outcome.failure?, Session.Outcome.diagnostics,
      transcript_resumed]
    simp [Diagnostic.reports, Failure.exitCode, Console.new]

/-! ## The prompt and the script -/

theorem exists_programs_kept (lines : List String) :
    ∃ programs : List (List Stmt),
      (Program.kept lines).map Program.ofSource = programs.map .ok := by
  have hall : ∀ line ∈ Program.kept lines, ∃ program, Program.ofSource line = .ok program := by
    intro line hline
    have hok := (List.mem_filter.mp hline).2
    cases hprogram : Program.ofSource line with
    | error ds => simp [hprogram, Except.isOk, Except.toBool] at hok
    | ok program => exact ⟨program, rfl⟩
  generalize Program.kept lines = kept at hall
  induction kept with
  | nil => exact ⟨[], rfl⟩
  | cons line rest ih =>
    obtain ⟨program, hprogram⟩ := hall line List.mem_cons_self
    obtain ⟨programs, hrest⟩ := ih fun other hother => hall other (List.mem_cons_of_mem _ hother)
    exact ⟨program :: programs, by rw [List.map_cons, List.map_cons, hprogram, hrest]⟩

/-- What the prompt does with the lines, and a script with those of them that have no static fault:
    lines with a static fault only have it reported, and of the other ones the script prints the
    same up to the first that fails, and reports the same but for the number of the line. -/
structure PromptAgrees (lines : List String) : Prop where
  prompt_eq : runPrompt .run (String.join lines).toUTF8 =
    ⟨String.join ((replies .empty lines).map fun r => "> " ++ r.printed) ++ "> ",
      String.join ((replies .empty lines).map fun r =>
        Diagnostic.reports r.outcome.diagnostics), 0⟩
  reply_rejected : ∀ line ∈ lines, line ∉ Program.kept lines → ∀ env, ∃ ds,
    Session.reply env line = ⟨.rejected ds, "", env⟩
  replies_kept : replies .empty (Program.kept lines) =
    (replies .empty lines).filter (·.outcome.isRun)
  script_ok : ∃ program, Program.ofSource (String.join (Program.kept lines)) = .ok program
  script_finished : (∀ r ∈ replies .empty (Program.kept lines), r.outcome = .finished) →
    runScript .run (.ok (String.join (Program.kept lines))) =
      ⟨String.join ((replies .empty (Program.kept lines)).map Session.Reply.printed), "", 0⟩
  script_failed : ∀ before d printed env after,
    replies .empty (Program.kept lines) = before ++ ⟨.failed d, printed, env⟩ :: after →
    (∀ r ∈ before, r.outcome = .finished) → d.stage = .running ∧ d.onLine 1 = d ∧
      runScript .run (.ok (String.join (Program.kept lines))) =
        ⟨String.join (before.map Session.Reply.printed) ++ printed,
          (d.onLine (before.length + 1)).report ++ "\n", 70⟩
  exitCode_eq : (runScript .run (.ok (String.join (Program.kept lines)))).exitCode = 70 ∧
      (∃ r ∈ replies .empty (Program.kept lines), ∃ d, r.outcome = .failed d) ∨
    (runScript .run (.ok (String.join (Program.kept lines)))).exitCode = 0 ∧
      ∀ r ∈ replies .empty (Program.kept lines), r.outcome = .finished

/-- The prompt agrees with scripts. -/
theorem prompt_agrees_with_script {lines : List String} (h : Text.IsLines lines) :
    PromptAgrees lines := by
  obtain ⟨programs, hprograms⟩ := exists_programs_kept lines
  have hkept : Text.IsLines (Program.kept lines) := h.filter _
  have hscript := runScript_join hkept hprograms
  refine ⟨runPrompt_lines h, ?_, Session.replies_kept .empty lines,
    ⟨_, Program.ofSource_join hkept hprograms⟩, ?_, ?_, ?_⟩
  · intro line hline hnot env
    cases hprogram : Program.ofSource line with
    | error ds => exact ⟨ds, Session.reply_of_error hprogram env⟩
    | ok program =>
      refine absurd (List.mem_filter.mpr ⟨hline, ?_⟩) hnot
      rw [hprogram]
      rfl
  · intro hfinished
    rw [hscript, Session.scriptOf_finished hfinished]
  · intro before d printed env after hreplies hfinished
    have hmem : ⟨.failed d, printed, env⟩ ∈ replies .empty (Program.kept lines) := by
      rw [hreplies]
      simp
    obtain ⟨line, hline, around, hreply⟩ := Session.exists_reply_of_mem hmem
    have hfailed : (Session.reply around line).outcome = .failed d := by rw [← hreply]
    obtain ⟨hstage, hone⟩ := Session.reply_failed (hkept.singleton hline) hfailed
    refine ⟨hstage, hone, ?_⟩
    rw [hscript, hreplies, Session.scriptOf_failed hfinished, Nat.add_comm]
  · by_cases hfailed : ∃ r ∈ replies .empty (Program.kept lines), ∃ d, r.outcome = .failed d
    · obtain ⟨d, hd⟩ := (Session.exists_scriptOf_error_iff 1).mpr hfailed
      refine .inl ⟨?_, hfailed⟩
      rw [hscript]
      generalize scriptOf 1 (replies .empty (Program.kept lines)) = last at hd
      obtain ⟨result, printed⟩ := last
      obtain rfl : result = .error d := hd
      rfl
    · have hfinished : ∀ r ∈ replies .empty (Program.kept lines), r.outcome = .finished := by
        intro r hr
        rcases Session.finished_or_failed_of_mem_kept hr with houtcome | ⟨d, hd⟩
        · exact houtcome
        · exact absurd ⟨r, hr, d, hd⟩ hfailed
      refine .inr ⟨?_, hfinished⟩
      rw [hscript, Session.scriptOf_finished hfinished]

/-- The line that does not parse is left out, and the failure on the third line of the prompt is one
    on the second line of the script. -/
theorem prompt_agrees_with_script_failed :
    Text.IsLines ["print nil;\n", "(\n", "-nil;"] ∧
    runPrompt .run "print nil;\n(\n-nil;".toUTF8 =
      ⟨"> nil\n> > > ", "[line 2, column 1] Error at end: Expected expression.\n" ++
        "[line 1, column 1] Error at '-': Operand of '-' must be a number, got nil.\n", 0⟩ ∧
    runScript .run (.ok "print nil;\n-nil;") =
      ⟨"nil\n", "[line 2, column 1] Error at '-': Operand of '-' must be a number, got nil.\n",
        70⟩ := by
  have hlines : Text.IsLines ["print nil;\n", "(\n", "-nil;"] :=
    .cons (by decide : '\n' ∉ "print nil;".toList)
      (.cons (by decide : '\n' ∉ "(".toList) (.last (by decide) (by decide)))
  have hagrees := prompt_agrees_with_script hlines
  have hprompt := hagrees.prompt_eq
  have hkept : (replies .empty (Program.kept ["print nil;\n", "(\n", "-nil;"])).map
      (fun r => (r.outcome, r.printed)) =
        [(.finished, "nil\n"),
          (.failed (.runtime ⟨.minus, "-", ⟨1, 1⟩⟩ (.operandNotNumber .nil)), "")] := by
    decide +kernel
  obtain ⟨first, rest, hreplies, hfirst, hrest⟩ := List.map_eq_cons_iff.mp hkept
  obtain ⟨⟨outcome, printed, env⟩, last, rfl, hfailed, -⟩ := List.map_eq_cons_iff.mp hrest
  obtain ⟨rfl, rfl⟩ := Prod.mk.inj hfailed
  obtain ⟨hfinished, hprinted⟩ := Prod.mk.inj hfirst
  have hscript := (hagrees.script_failed [first] _ _ _ _ hreplies (by simpa using hfinished)).2.2
  have hsource : String.join (Program.kept ["print nil;\n", "(\n", "-nil;"]) =
      "print nil;\n-nil;" := by decide +kernel
  rw [hsource, List.map_singleton, hprinted, List.length_singleton] at hscript
  refine ⟨hlines, hprompt.trans ?_, hscript.trans ?_⟩
  · decide +kernel
  · decide +kernel

end Console

end BlockScript
