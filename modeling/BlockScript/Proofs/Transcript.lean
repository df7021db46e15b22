import BlockScript.Console
import BlockScript.Proofs.Failure
import BlockScript.Proofs.Relocation

/-!
# What a run leaves on the standard streams

Running a source at the command line runs it in the session and reports what the outcome says is
wrong (`Console.feed_run`). An output without a limit takes everything: what a statement writes to
it, and all else that it does, does not depend on what was written before
(`Stmt.execAll_appends`), and nothing but an operator or a name can make it fail
(`Stmt.stage_of_execAll`).
-/

namespace BlockScript

/-- What is wrong after the run of a source. -/
def Session.Outcome.diagnostics : Outcome → List Diagnostic
  | rejected ds => ds
  | failed d => [d]
  | finished => []

/-- The stage, if any, at which the run of a source failed. -/
def Session.Outcome.failure? : Outcome → Option Console.Failure
  | rejected _ => some .static
  | failed _ => some .runtime
  | finished => none

/-- The text that reports the diagnostics, each on a line. -/
def Diagnostic.reports (ds : List Diagnostic) : String :=
  String.join (ds.map fun d => d.report ++ "\n")

theorem Program.ne_nil_of_ofSource {source : String} {ds : List Diagnostic}
    (h : ofSource source = .error ds) : ds ≠ [] := by
  have hne : ∀ {α : Type} {a : α} {all : List Diagnostic},
      (if all.isEmpty then .ok a else .error all) = (.error ds : Except _ α) → ds ≠ [] := by
    intro α a all hall
    split at hall
    · cases hall
    · rename_i hempty
      obtain rfl := Except.error.inj hall
      rintro rfl
      exact hempty rfl
  unfold ofSource at h
  split at h
  · rename_i hscan
    obtain rfl := Except.error.inj h
    exact hne hscan
  · exact hne h

namespace Console

theorem foldl_writeError (c : Console) (ds : List Diagnostic) :
    ds.foldl (fun c d => c.writeError d.report) c =
      { c with stderr := c.stderr ++ Diagnostic.reports ds } := by
  induction ds generalizing c with
  | nil => simp [Diagnostic.reports]
  | cons d ds ih =>
    rw [List.foldl_cons, ih]
    simp [Diagnostic.reports, writeError, String.append_assoc]

theorem report_of_ne_nil (c : Console) (failure : Failure) {ds : List Diagnostic} (h : ds ≠ []) :
    c.report failure ds =
      (some failure, { c with stderr := c.stderr ++ Diagnostic.reports ds }) := by
  rw [report, if_neg (by simpa using h), foldl_writeError]

/-- Running a source is running it in the session and reporting what is wrong. -/
theorem feed_run (c : Console) (source : String) :
    c.feed .run source =
      ((Session.run c.machine source).1.failure?,
        ⟨(Session.run c.machine source).2,
          c.stderr ++ Diagnostic.reports (Session.run c.machine source).1.diagnostics⟩) := by
  have hrun := Session.run_eq_execute c.machine source
  simp only [feed, hrun]
  cases hprogram : Program.ofSource source with
  | error ds => exact report_of_ne_nil c .static (Program.ne_nil_of_ofSource hprogram)
  | ok program =>
    simp only [Session.execute]
    obtain ⟨result, m⟩ := Stmt.execAll c.machine program
    cases result with
    | error d => exact report_of_ne_nil ⟨m, c.stderr⟩ .runtime (List.cons_ne_nil d [])
    | ok _ => simp [Session.Outcome.failure?, Session.Outcome.diagnostics, Diagnostic.reports]

end Console

/-! ## Outputs without a limit -/

theorem fromUTF8?_toUTF8 (text : String) : String.fromUTF8? text.toUTF8 = some text := by
  have hvalid : text.toUTF8.IsValidUTF8 := text.isValidUTF8
  rw [String.fromUTF8?, dif_pos hvalid]
  rfl

theorem toUTF8_append (s t : String) : (s ++ t).toUTF8 = s.toUTF8 ++ t.toUTF8 :=
  String.toByteArray_append

theorem Output.text_toUTF8 (text : String) (capacity? : Option Nat) :
    (Output.mk text.toUTF8 capacity?).text = text := by
  have hall : text.toUTF8.extract 0 text.toUTF8.size = text.toUTF8 := ByteArray.extract_zero_size
  simp only [Output.text, textFrom, hall, Nat.sub_zero, fromUTF8?_toUTF8]

/-- The machine with an output without a limit, to which the bytes were written before. -/
def Machine.resumed (env : Environment) (written : ByteArray) : Machine := ⟨env, ⟨written, none⟩⟩

/-- Whatever was written before, what is run in the environment has the same result, leaves the
    same environment and writes the same text. -/
def Machine.Appends {α : Type} (run : Machine → α × Machine) (env : Environment) : Prop :=
  ∃ (result : α) (after : Environment) (text : String), ∀ written,
    run (.resumed env written) = (result, .resumed after (written ++ text.toUTF8))

theorem Machine.appends_of_silent {α : Type} {run : Machine → α × Machine} {env : Environment}
    (result : α) (after : Environment)
    (h : ∀ written, run (.resumed env written) = (result, .resumed after written)) :
    Appends run env := by
  refine ⟨result, after, "", fun written => ?_⟩
  rw [h written]
  simp

theorem Machine.eval_resumed (env : Environment) (written : ByteArray) (e : Expr) :
    (resumed env written).eval e = ((e.eval env).1, resumed (e.eval env).2 written) := rfl

namespace Stmt

theorem execAll_append (m : Machine) (ss rest : List Stmt) :
    execAll m (ss ++ rest) =
      match execAll m ss with
      | (.error d, m) => (.error d, m)
      | (.ok (), m) => execAll m rest := by
  induction ss generalizing m with
  | nil => rfl
  | cons s ss ih =>
    rw [List.cons_append, execAll, execAll]
    obtain ⟨result, after⟩ := s.exec m
    cases result with
    | error d => rfl
    | ok _ => exact ih after

mutual

theorem exec_appends (env : Environment) : (s : Stmt) → Machine.Appends (fun m => s.exec m) env
  | block body => by
    obtain ⟨result, after, text, hbody⟩ := execAll_appends env.openScope.2 body
    refine ⟨result, after.closeScope, text, fun written => ?_⟩
    have hopen : (Machine.resumed env written).openScope = .resumed env.openScope.2 written := rfl
    simp only [exec, hopen, hbody written]
    rfl
  | declare name none =>
    Machine.appends_of_silent (Except.ok ()) (env.define name.lexeme .nil) fun _ => rfl
  | declare name (some initializer) => by
    simp only [exec, Machine.eval_resumed, Machine.Appends]
    obtain ⟨result, after⟩ := initializer.eval env
    cases result with
    | error d => exact Machine.appends_of_silent (Except.error d) after fun _ => rfl
    | ok value =>
      exact Machine.appends_of_silent (Except.ok ()) (after.define name.lexeme value) fun _ => rfl
  | expression e => by
    simp only [exec, Machine.eval_resumed, Machine.Appends]
    obtain ⟨result, after⟩ := e.eval env
    cases result with
    | error d => exact Machine.appends_of_silent (Except.error d) after fun _ => rfl
    | ok value => exact Machine.appends_of_silent (Except.ok ()) after fun _ => rfl
  | print e => by
    simp only [exec, Machine.eval_resumed, Machine.Appends]
    obtain ⟨result, after⟩ := e.eval env
    cases result with
    | error d => exact Machine.appends_of_silent (Except.error d) after fun _ => rfl
    | ok value => exact ⟨Except.ok (), after, value.text ++ "\n", fun written => rfl⟩

theorem execAll_appends (env : Environment) : (ss : List Stmt) →
    Machine.Appends (fun m => execAll m ss) env
  | [] => Machine.appends_of_silent (Except.ok ()) env fun _ => rfl
  | s :: rest => by
    obtain ⟨result, middle, text, hs⟩ := exec_appends env s
    cases result with
    | error d =>
      refine ⟨Except.error d, middle, text, fun written => ?_⟩
      simp only [execAll, hs written]
    | ok _ =>
      -- For the rest, the text of the first statement is among what was written before.
      obtain ⟨result, after, more, hrest⟩ := execAll_appends middle rest
      refine ⟨result, after, text ++ more, fun written => ?_⟩
      simp only [execAll, hs written, hrest]
      simp [ByteArray.append_assoc]

end

end Stmt

/-! ## What can fail -/

/-- An output without a limit takes everything, so that only an operator or a name can fail. -/
theorem Stmt.stage_of_execAll {env : Environment} {written : ByteArray} {d : Diagnostic}
    (ss : List Stmt) (h : (execAll (.resumed env written) ss).1 = .error d) :
    d.stage = .running := by
  obtain ⟨address, s, hfails⟩ := execAll_eq_error_iff.mp h
  rcases hfails.exists_runtime with ⟨t, -, fault, rfl, -⟩ | ⟨-, hlimit⟩
  · rfl
  · exact absurd rfl hlimit

end BlockScript
