import BlockScript.Session

/-!
# Where tokens stand does not matter

`Token.move g` takes a token from its place to the one that `g` gives for it. Neither reading nor
running looks at places: both do the same with tokens that are moved, but that the tokens in trees
and in diagnostics are moved as well (`Stmt.parseAll_move`, `Stmt.execAll_move`,
`Session.execute_move`).
-/

namespace BlockScript

/-- The token at the place that `g` gives for its own. -/
def Token.move (g : Position → Position) (t : Token) : Token := { t with position := g t.position }

@[simp] theorem Token.kind_move (g : Position → Position) (t : Token) :
    (t.move g).kind = t.kind := rfl

@[simp] theorem Token.lexeme_move (g : Position → Position) (t : Token) :
    (t.move g).lexeme = t.lexeme := rfl

/-- The diagnostic about the token, or the text, at the place that `g` gives for its own. -/
def Diagnostic.move (g : Position → Position) : Diagnostic → Diagnostic
  | lexical p fault => lexical (g p) fault
  | syntactic t fault => syntactic (t.move g) fault
  | unexpectedEnd => unexpectedEnd
  | runtime t fault => runtime (t.move g) fault
  | outputClosed => outputClosed

theorem Diagnostic.mapError_ok {α : Type} (g : Position → Position) (a : α) :
    (Except.ok a).mapError (move g) = .ok a := rfl

/-- The expression with all its tokens moved. -/
def Expr.move (g : Position → Position) : Expr → Expr
  | literal value => literal value
  | var name => var (name.move g)
  | grouping inner => grouping (inner.move g)
  | unary op operand => unary (op.move g) (operand.move g)
  | binary left op right => binary (left.move g) (op.move g) (right.move g)
  | assign name value => assign (name.move g) (value.move g)

mutual

/-- The statement with all its tokens moved. -/
def Stmt.move (g : Position → Position) : Stmt → Stmt
  | .block body => .block (moveAll g body)
  | .declare name none => .declare (name.move g) none
  | .declare name (some initializer) => .declare (name.move g) (some (initializer.move g))
  | .expression e => .expression (e.move g)
  | .print e => .print (e.move g)

/-- The statements with all their tokens moved. -/
def Stmt.moveAll (g : Position → Position) : List Stmt → List Stmt
  | [] => []
  | s :: rest => s.move g :: moveAll g rest

end

@[simp] theorem Stmt.moveAll_eq_map (g : Position → Position) (ss : List Stmt) :
    moveAll g ss = ss.map (move g) := by
  induction ss with
  | nil => rfl
  | cons s rest ih => rw [moveAll, ih, List.map_cons]

/-- What was read, or the fault, with all tokens moved. -/
def Stmt.moveResult (g : Position → Position) : Except Diagnostic Stmt → Except Diagnostic Stmt
  | .ok s => .ok (s.move g)
  | .error d => .error (d.move g)

variable (g : Position → Position)

/-! ## Reading expressions -/

namespace Expr

namespace Pending

/-- What waits, with all its tokens moved. -/
def move : Pending → Pending
  | unary op => unary (op.move g)
  | binary left op token => binary (left.move g) op (token.move g)
  | assign name => assign (name.move g)

@[simp] theorem level_move (p : Pending) : (p.move g).level = p.level := by
  cases p <;> rfl

theorem complete_move (operand : Expr) (p : Pending) :
    (p.move g).complete (operand.move g) = (p.complete operand).move g := by
  cases p <;> rfl

theorem close_move (level : Nat) (operand : Expr) (pending : List Pending) :
    close level (operand.move g) (pending.map (move g)) =
      ((close level operand pending).1.move g, (close level operand pending).2.map (move g)) := by
  induction pending generalizing operand with
  | nil => rfl
  | cons p rest ih =>
    rw [List.map_cons, close, close, level_move, complete_move]
    split
    · exact ih (p.complete operand)
    · rfl

theorem closeAll_move (operand : Expr) (pending : List Pending) :
    closeAll (operand.move g) (pending.map (move g)) = (closeAll operand pending).move g := by
  induction pending generalizing operand with
  | nil => rfl
  | cons p rest ih =>
    have hrest := ih (p.complete operand)
    rw [← complete_move] at hrest
    exact hrest

end Pending

/-- The context with all its tokens moved. -/
def Context.move (c : Context) : Context :=
  ⟨c.pending.map (Pending.move g), c.outer.map fun pending => pending.map (Pending.move g)⟩

namespace Progress

/-- What is known of the expression, with all tokens moved. -/
def move : Progress → Progress
  | operand c => operand (c.move g)
  | operator c e => operator (c.move g) (e.move g)

/-- What the token does, with all tokens moved. -/
def Outcome.move : Outcome → Outcome
  | more p => more (p.move g)
  | done e => done (e.move g)
  | fault f => fault f

theorem stepOperand_move (c : Context) (t : Token) :
    stepOperand (c.move g) (t.move g) = (stepOperand c t).move g := by
  simp only [stepOperand, Token.kind_move]
  split
  · rfl
  · split <;> rfl

theorem stepAssign_move (c : Context) (e : Expr) :
    stepAssign (c.move g) (e.move g) = (stepAssign c e).move g := by
  simp only [stepAssign, Context.move, Pending.close_move]
  generalize Pending.close 1 e c.pending = closed
  obtain ⟨whole, pending⟩ := closed
  cases whole <;> rfl

theorem stepEnd_move (c : Context) (e : Expr) (t : Token) :
    stepEnd (c.move g) (e.move g) (t.move g) = (stepEnd c e t).move g := by
  obtain ⟨pending, outer⟩ := c
  simp only [stepEnd, Context.move, Pending.closeAll_move, Token.kind_move]
  cases outer with
  | nil => rfl
  | cons around outer =>
    simp only [List.map_cons]
    split <;> rfl

theorem stepOperator_move (c : Context) (e : Expr) (t : Token) :
    stepOperator (c.move g) (e.move g) (t.move g) = (stepOperator c e t).move g := by
  rw [stepOperator, stepOperator, stepAssign_move, stepEnd_move, Token.kind_move]
  split
  · simp only [Context.move, Pending.close_move]
    rfl
  · split <;> rfl

theorem step_move (p : Progress) (t : Token) : (p.move g).step (t.move g) = (p.step t).move g := by
  cases p with
  | operand c => exact stepOperand_move g c t
  | operator c e => exact stepOperator_move g c e t

end Progress

end Expr

/-! ## Reading statements -/

namespace Stmt

/-- What the expression is for, with all tokens moved. -/
def Goal.move : Goal → Goal
  | print => print
  | initializer name => initializer (name.move g)
  | expression => expression

/-- How far the statement has been read, with all tokens moved. -/
def Phase.move : Phase → Phase
  | start => start
  | name => name
  | declared t => declared (t.move g)
  | expr goal p => expr (goal.move g) (p.move g)

namespace Progress

/-- What is known of the statement, with all tokens moved. -/
def move (p : Progress) : Progress :=
  ⟨p.blocks.map fun body => body.map (Stmt.move g), p.phase.move g⟩

/-- What the token does, with all tokens moved. -/
def Outcome.move : Outcome → Outcome
  | more p => more (p.move g)
  | done s => done (s.move g)
  | fault f => fault f

theorem finish_move (s : Stmt) (blocks : List (List Stmt)) :
    finish (s.move g) (blocks.map fun body => body.map (Stmt.move g)) =
      (finish s blocks).move g := by
  cases blocks <;> rfl

theorem stepExpr_move (blocks : List (List Stmt)) (goal : Goal) (p : Expr.Progress) (t : Token) :
    stepExpr (blocks.map fun body => body.map (Stmt.move g)) (goal.move g) (p.move g) (t.move g) =
      (stepExpr blocks goal p t).move g := by
  simp only [stepExpr, Expr.Progress.step_move, Token.kind_move]
  cases p.step t with
  | more q => rfl
  | fault f => rfl
  | done e =>
    have hcomplete : (goal.move g).complete (e.move g) = (goal.complete e).move g := by
      cases goal <;> simp [Goal.move, Goal.complete, Stmt.move]
    have hmissing : (goal.move g).missingSemicolon = goal.missingSemicolon := by
      cases goal <;> rfl
    simp only [Expr.Progress.Outcome.move, hcomplete, hmissing]
    split
    · exact finish_move g (goal.complete e) blocks
    · rfl

theorem stepStart_move (blocks : List (List Stmt)) (t : Token) :
    stepStart (blocks.map fun body => body.map (Stmt.move g)) (t.move g) =
      (stepStart blocks t).move g := by
  have hexpr := stepExpr_move g blocks .expression .start t
  unfold stepStart
  rw [Token.kind_move]
  cases blocks with
  | nil => cases t.kind <;> first | rfl | exact hexpr
  | cons body outer =>
    -- Only a closing brace uses what the open block has so far.
    have hblock := finish_move g (.block body.reverse) outer
    rw [Stmt.move, moveAll_eq_map, List.map_reverse] at hblock
    cases t.kind <;> first | rfl | exact hblock | exact hexpr

theorem step_move (p : Progress) (t : Token) : (p.move g).step (t.move g) = (p.step t).move g := by
  obtain ⟨blocks, phase⟩ := p
  cases phase with
  | start => exact stepStart_move g blocks t
  | name =>
    simp only [step, move, Phase.move]
    by_cases ht : t.kind = .identifier
    · rw [if_pos ht, if_pos (show (t.move g).kind = .identifier from ht)]
      rfl
    · rw [if_neg ht, if_neg (show (t.move g).kind ≠ .identifier from ht)]
      rfl
  | declared name =>
    simp only [step, move, Phase.move, stepDeclared, Token.kind_move]
    split
    · rfl
    · exact finish_move g (.declare name none) blocks
    · rfl
  | expr goal q => exact stepExpr_move g blocks goal q t

theorem run_move (p : Progress) (ts : List Token) :
    (p.move g).run (ts.map (Token.move g)) =
      (moveResult g (p.run ts).1, (p.run ts).2.map (Token.move g)) := by
  induction ts generalizing p with
  | nil => rfl
  | cons t ts ih =>
    rw [List.map_cons, run, run, step_move]
    cases p.step t with
    | more q => exact ih q
    | done s => rfl
    | fault f =>
      simp only [Outcome.move]
      split <;> rfl

end Progress

theorem parse_move (ts : List Token) :
    parse (ts.map (Token.move g)) =
      (moveResult g (parse ts).1, (parse ts).2.map (Token.move g)) :=
  Progress.run_move g .start ts

theorem atEnd_map_move (ts : List Token) : atEnd (ts.map (Token.move g)) = atEnd ts := by
  cases ts <;> rfl

theorem skip_move (ts : List Token) :
    skip (ts.map (Token.move g)) = (skip ts).map (Token.move g) := by
  induction ts with
  | nil => rfl
  | cons t ts ih =>
    have hboundary : isBoundary (t.move g) = isBoundary t := rfl
    rw [List.map_cons, skip, skip, hboundary, Token.kind_move]
    split
    · rfl
    · split
      · rfl
      · exact ih

theorem parseOrSkip_move (ts : List Token) :
    parseOrSkip (ts.map (Token.move g)) =
      (moveResult g (parseOrSkip ts).1, (parseOrSkip ts).2.map (Token.move g)) := by
  rw [parseOrSkip, parseOrSkip, parse_move]
  obtain ⟨_ | s, rest⟩ := parse ts
  · exact congrArg (Prod.mk _) (skip_move g rest)
  · rfl

/-- Tokens that are moved are read as before. -/
theorem parseAll_move (ts : List Token) :
    parseAll (ts.map (Token.move g)) =
      ((parseAll ts).1.map (moveResult g), (parseAll ts).2.map (Token.move g)) := by
  fun_induction parseAll ts with
  | case1 ts hend => rw [parseAll, dif_pos (by rw [atEnd_map_move, hend])]; rfl
  | case2 ts hend round results unread hrest ih =>
    have hround := parseOrSkip_move g ts
    rw [hrest] at ih
    rw [parseAll, dif_neg (by rw [atEnd_map_move]; exact hend)]
    simp only [hround]
    rw [ih]
    rfl

end Stmt

/-! ## Running -/

theorem Environment.read_move (env : Environment) (name : Token) :
    env.read (name.move g) = (env.read name).mapError (Diagnostic.move g) := by
  simp only [read, Token.lexeme_move]
  split <;> rfl

theorem Environment.write_move (env : Environment) (name : Token) (value : Value) :
    env.write (name.move g) value = (env.write name value).mapError (Diagnostic.move g) := by
  simp only [write, Token.lexeme_move]
  split <;> rfl

theorem Expr.applyUnary_move (op : Token) (operand : Value) :
    applyUnary (op.move g) operand = (applyUnary op operand).mapError (Diagnostic.move g) := by
  simp only [applyUnary, Token.kind_move]
  split
  case h_1 o _ => cases o.apply operand <;> rfl
  case h_2 => rfl

theorem Expr.applyBinary_move (op : Token) (left right : Value) :
    applyBinary (op.move g) left right =
      (applyBinary op left right).mapError (Diagnostic.move g) := by
  simp only [applyBinary, Token.kind_move]
  split
  case h_1 o _ => cases o.apply left right <;> rfl
  case h_2 => rfl

theorem Expr.eval_move (env : Environment) (e : Expr) :
    (e.move g).eval env =
      ((e.eval env).1.mapError (Diagnostic.move g), (e.eval env).2) := by
  induction e generalizing env with
  | literal value => rfl
  | var name => simp only [Expr.move, eval, Environment.read_move]
  | grouping inner ih => exact ih env
  | unary op operand ih =>
    simp only [Expr.move, eval, ih]
    obtain ⟨result, after⟩ := operand.eval env
    cases result with
    | error d => rfl
    | ok value => exact congrArg (·, after) (applyUnary_move g op value)
  | binary left op right ihl ihr =>
    simp only [Expr.move, eval, ihl]
    obtain ⟨result, middle⟩ := left.eval env
    cases result with
    | error d => rfl
    | ok l =>
      simp only [Diagnostic.mapError_ok, ihr]
      obtain ⟨result, after⟩ := right.eval middle
      cases result with
      | error d => rfl
      | ok r => exact congrArg (·, after) (applyBinary_move g op l r)
  | assign name value ih =>
    simp only [Expr.move, eval, ih]
    obtain ⟨result, middle⟩ := value.eval env
    cases result with
    | error d => rfl
    | ok v =>
      simp only [Diagnostic.mapError_ok, Environment.write_move]
      cases middle.write name v <;> rfl

theorem Machine.eval_move (m : Machine) (e : Expr) :
    m.eval (e.move g) = ((m.eval e).1.mapError (Diagnostic.move g), (m.eval e).2) := by
  simp only [eval, Expr.eval_move]

theorem Machine.print_move (m : Machine) (value : Value) :
    (m.print value).1.mapError (Diagnostic.move g) = (m.print value).1 := by
  unfold print
  split <;> rfl

namespace Stmt

mutual

/-- A statement with its tokens moved does the same, and fails at the moved token. -/
theorem exec_move (m : Machine) : (s : Stmt) →
    (s.move g).exec m = ((s.exec m).1.mapError (Diagnostic.move g), (s.exec m).2)
  | block body => by
    rw [Stmt.move, moveAll_eq_map]
    simp only [exec]
    rw [execAll_move m.openScope body]
  | declare name none => rfl
  | declare name (some initializer) => by
    simp only [Stmt.move, exec, Machine.eval_move]
    obtain ⟨result, middle⟩ := m.eval initializer
    cases result <;> rfl
  | expression e => by
    simp only [Stmt.move, exec, Machine.eval_move]
    obtain ⟨result, middle⟩ := m.eval e
    cases result <;> rfl
  | print e => by
    simp only [Stmt.move, exec, Machine.eval_move]
    obtain ⟨result, middle⟩ := m.eval e
    cases result with
    | error d => rfl
    | ok value => exact Prod.ext (middle.print_move g value).symm rfl

theorem execAll_move (m : Machine) : (ss : List Stmt) →
    execAll m (ss.map (move g)) =
      ((execAll m ss).1.mapError (Diagnostic.move g), (execAll m ss).2)
  | [] => rfl
  | s :: rest => by
    rw [List.map_cons]
    simp only [execAll, exec_move m s]
    obtain ⟨result, middle⟩ := s.exec m
    cases result with
    | error d => rfl
    | ok _ => exact execAll_move middle rest

end

end Stmt

/-! ## Sources -/

/-- What is done to each diagnostic and to everything else is done to what is picked out of the
    results. -/
theorem Diagnostic.map_results {α : Type} {move : Except Diagnostic α → Except Diagnostic α}
    {onOk : α → α} {onError : Diagnostic → Diagnostic} (hok : ∀ a, move (.ok a) = .ok (onOk a))
    (herror : ∀ d, move (.error d) = .error (onError d)) (results : List (Except Diagnostic α)) :
    ofResults (results.map move) = (ofResults results).map onError ∧
    (results.map move).filterMap Except.toOption =
      (results.filterMap Except.toOption).map onOk := by
  induction results with
  | nil => exact ⟨rfl, rfl⟩
  | cons result rest ih =>
    obtain ⟨hdiagnostics, hothers⟩ := ih
    rw [List.map_cons]
    cases result with
    | ok a =>
      rw [hok]
      exact ⟨hdiagnostics, congrArg (onOk a :: ·) hothers⟩
    | error d =>
      rw [herror]
      exact ⟨congrArg (onError d :: ·) hdiagnostics, hothers⟩

theorem Stmt.map_moveResult (results : List (Except Diagnostic Stmt)) :
    Diagnostic.ofResults (results.map (moveResult g)) =
      (Diagnostic.ofResults results).map (Diagnostic.move g) ∧
    (results.map (moveResult g)).filterMap Except.toOption =
      (results.filterMap Except.toOption).map (move g) :=
  Diagnostic.map_results (fun _ => rfl) (fun _ => rfl) results

namespace Program

/-- The statements of a source, or what is wrong with it, with all tokens moved. -/
def move : Except (List Diagnostic) (List Stmt) → Except (List Diagnostic) (List Stmt)
  | .ok program => .ok (program.map (Stmt.move g))
  | .error diagnostics => .error (diagnostics.map (Diagnostic.move g))

theorem ofTokens_move (ts : List Token) :
    ofTokens (ts.map (Token.move g)) = move g (ofTokens ts) := by
  simp only [ofTokens, Stmt.parseAll_move, (Stmt.map_moveResult g _).1, (Stmt.map_moveResult g _).2,
    List.isEmpty_map]
  split <;> rfl

end Program

namespace Session

/-- How the run of a source ends, with all tokens moved. -/
def Outcome.move : Outcome → Outcome
  | rejected diagnostics => rejected (diagnostics.map (Diagnostic.move g))
  | failed d => failed (d.move g)
  | finished => finished

/-- Runs the statements of a source that has no static fault. -/
def execute (m : Machine) : Except (List Diagnostic) (List Stmt) → Outcome × Machine
  | .error diagnostics => (.rejected diagnostics, m)
  | .ok program =>
    match Stmt.execAll m program with
    | (.ok (), m) => (.finished, m)
    | (.error d, m) => (.failed d, m)

theorem run_eq_execute (m : Machine) (source : String) :
    run m source = execute m (Program.ofSource source) := by
  rw [run]
  cases Program.ofSource source <;> rfl

/-- Where the tokens of a source stand makes no difference to its run. -/
theorem execute_move (m : Machine) (program : Except (List Diagnostic) (List Stmt)) :
    execute m (Program.move g program) =
      ((execute m program).1.move g, (execute m program).2) := by
  cases program with
  | error diagnostics => rfl
  | ok program =>
    simp only [Program.move, execute, Stmt.execAll_move]
    obtain ⟨result, after⟩ := Stmt.execAll m program
    cases result <;> rfl

end Session

end BlockScript
