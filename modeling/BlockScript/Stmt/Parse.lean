import BlockScript.Expr.Parse
import BlockScript.Stmt

/-!
# Reading statements

As with expressions, tokens are read one at a time, and `Stmt.Progress` is what is known of a
statement after some of them: the statements so far of each open block, and how far the innermost
statement has been read. `Stmt.parse` reads one statement. `Stmt.parseAll` reads to the end of the
source; after a token that does not fit it goes on after the next semicolon, or before the next
token that begins a declaration, a print or a block.
-/

namespace BlockScript.Stmt

/-- What an expression that is being read is for. -/
inductive Goal where
  | print
  | initializer (name : Token)
  | expression
deriving DecidableEq, Repr

namespace Goal

/-- The statement that the expression completes. -/
def complete (e : Expr) : Goal → Stmt
  | print => .print e
  | initializer name => .declare name (some e)
  | expression => .expression e

/-- The fault where no semicolon follows the expression. -/
def missingSemicolon : Goal → SyntaxFault
  | print => .expectedSemicolonAfterValue
  | initializer _ => .expectedSemicolonAfterDeclaration
  | expression => .expectedSemicolonAfterExpression

end Goal

/-- How far the innermost statement has been read. -/
inductive Phase where
  /-- A statement has to come next, or the end of the block. -/
  | start
  /-- The name of a declaration has to come next. -/
  | name
  /-- The initialiser of a declaration may come next. -/
  | declared (name : Token)
  /-- An expression is being read. -/
  | expr (goal : Goal) (progress : Expr.Progress)
deriving DecidableEq, Repr

/-- What is known of a statement after some of its tokens. -/
structure Progress where
  /-- The statements so far of the open blocks: the innermost block first, and in each the latest
      statement first. -/
  blocks : List (List Stmt)
  phase : Phase
deriving Repr

/-- What a token does to a statement that is being read. -/
inductive Progress.Outcome where
  /-- The token was read. -/
  | more (progress : Progress)
  /-- The token was read and ends the statement. -/
  | done (s : Stmt)
  /-- The token does not fit. -/
  | fault (fault : SyntaxFault)
deriving Repr

namespace Progress

/-- Nothing has been read. -/
def start : Progress := ⟨[], .start⟩

/-- The statement `s` within the open blocks has been read. -/
def finish (s : Stmt) : List (List Stmt) → Outcome
  | [] => .done s
  | body :: outer => .more ⟨(s :: body) :: outer, .start⟩

/-- Reads a token of the expression, or the semicolon after it. -/
def stepExpr (blocks : List (List Stmt)) (goal : Goal) (p : Expr.Progress) (t : Token) :
    Outcome :=
  match p.step t with
  | .more q => .more ⟨blocks, .expr goal q⟩
  | .done e =>
    if t.kind = .semicolon then finish (goal.complete e) blocks else .fault goal.missingSemicolon
  | .fault f => .fault f

/-- Reads a token where a statement, or the end of the innermost block, has to come. -/
def stepStart (blocks : List (List Stmt)) (t : Token) : Outcome :=
  match t.kind, blocks with
  | .kwVar, _ => .more ⟨blocks, .name⟩
  | .kwPrint, _ => .more ⟨blocks, .expr .print .start⟩
  | .leftBrace, _ => .more ⟨[] :: blocks, .start⟩
  | .rightBrace, body :: outer => finish (.block body.reverse) outer
  | .endOfFile, [] => .fault .expectedStatement
  | .endOfFile, _ :: _ => .fault .expectedBraceAfterBlock
  | _, _ => stepExpr blocks .expression .start t

/-- Reads a token after the name of a declaration. -/
def stepDeclared (blocks : List (List Stmt)) (name : Token) (t : Token) : Outcome :=
  match t.kind with
  | .equal => .more ⟨blocks, .expr (.initializer name) .start⟩
  | .semicolon => finish (.declare name none) blocks
  | _ => .fault .expectedSemicolonAfterDeclaration

/-- Reads a token. -/
def step (p : Progress) (t : Token) : Outcome :=
  match p.phase with
  | .start => stepStart p.blocks t
  | .name =>
    if t.kind = .identifier then .more ⟨p.blocks, .declared t⟩ else .fault .expectedVariableName
  | .declared name => stepDeclared p.blocks name t
  | .expr goal q => stepExpr p.blocks goal q t

/-- Reads on, and returns what is left unread. -/
def run (p : Progress) : List Token → Except Diagnostic Stmt × List Token
  | [] => (.error .unexpectedEnd, [])
  | t :: ts =>
    match p.step t with
    | .more q => q.run ts
    | .done s => (.ok s, ts)
    | .fault f => (.error (.syntactic t f), if f.isAfterToken then ts else t :: ts)

end Progress

/-- Reads a statement, and returns what is left unread. -/
def parse (ts : List Token) : Except Diagnostic Stmt × List Token := Progress.start.run ts

/-- Whether no token is left but the mark of the end. -/
def atEnd : List Token → Bool
  | [] => true
  | t :: _ => t.isEnd

/-- Whether a token ends what is skipped, and stays unread: it begins a declaration, a print or a
    block, or marks the end. -/
def isBoundary (t : Token) : Bool :=
  match t.kind with
  | .kwVar | .kwPrint | .leftBrace | .endOfFile => true
  | _ => false

/-- Skips a statement that did not fit: to just after the next semicolon, or to the next token
    that ends what is skipped. -/
def skip : List Token → List Token
  | [] => []
  | t :: ts =>
    if isBoundary t then t :: ts
    else if t.kind = .semicolon then ts
    else skip ts

/-- What is left after the rest of a statement that does not fit was skipped. -/
def recovered : Except Diagnostic Stmt × List Token → Except Diagnostic Stmt × List Token
  | (.ok s, rest) => (.ok s, rest)
  | (.error d, rest) => (.error d, skip rest)

/-- Reads a statement, and skips the rest of one that does not fit. -/
def parseOrSkip (ts : List Token) : Except Diagnostic Stmt × List Token := recovered (parse ts)

theorem parseOrSkip_of_ok {ts rest : List Token} {s : Stmt} (h : parse ts = (.ok s, rest)) :
    parseOrSkip ts = (.ok s, rest) := by
  rw [parseOrSkip, h, recovered]

theorem parseOrSkip_of_error {ts rest : List Token} {d : Diagnostic}
    (h : parse ts = (.error d, rest)) : parseOrSkip ts = (.error d, skip rest) := by
  rw [parseOrSkip, h, recovered]

theorem length_skip_le (ts : List Token) : (skip ts).length ≤ ts.length := by
  induction ts with
  | nil => exact Nat.le_refl _
  | cons t ts ih =>
    rw [skip]
    split
    · exact Nat.le_refl _
    · split
      · exact Nat.le_succ _
      · exact Nat.le_succ_of_le ih

theorem length_skip_cons_lt {t : Token} (ts : List Token) (h : isBoundary t = false) :
    (skip (t :: ts)).length < (t :: ts).length := by
  rw [skip, if_neg (by rw [h]; exact Bool.false_ne_true)]
  split
  · exact Nat.lt_succ_self _
  · exact Nat.lt_succ_of_le (length_skip_le ts)

theorem Progress.length_run_le (p : Progress) (ts : List Token) :
    (p.run ts).2.length ≤ ts.length := by
  induction ts generalizing p with
  | nil => exact Nat.le_refl _
  | cons t ts ih =>
    rw [run]
    split
    · exact Nat.le_succ_of_le (ih _)
    · exact Nat.le_succ _
    · split
      · exact Nat.le_succ _
      · exact Nat.le_refl _

/-- The tokens that end what is skipped fit where a statement begins, but for the mark of the
    end. -/
theorem isBoundary_eq_false_of_fault {t : Token} {f : SyntaxFault}
    (h : Progress.start.step t = .fault f) (ht : t.isEnd = false) : isBoundary t = false := by
  simp only [Progress.start, Progress.step, Progress.stepStart] at h
  unfold isBoundary
  split
  case h_4 heq => simp [Token.isEnd, heq] at ht
  case h_5 => rfl
  all_goals
    rename_i heq
    simp [heq] at h

theorem length_recovered_le (outcome : Except Diagnostic Stmt × List Token) :
    (recovered outcome).2.length ≤ outcome.2.length := by
  obtain ⟨_ | s, rest⟩ := outcome
  · exact length_skip_le rest
  · exact Nat.le_refl _

/-- Each round reads a token, unless the end is reached. -/
theorem length_parseOrSkip_lt {ts : List Token} (h : atEnd ts = false) :
    (parseOrSkip ts).2.length < ts.length := by
  cases ts with
  | nil => cases h
  | cons t ts =>
    have hlt : ∀ {outcome : Except Diagnostic Stmt × List Token}, outcome.2.length ≤ ts.length →
        (recovered outcome).2.length < (t :: ts).length := fun hle =>
      Nat.lt_succ_of_le (Nat.le_trans (length_recovered_le _) hle)
    rw [parseOrSkip, parse, Progress.run]
    cases hstep : Progress.start.step t with
    | more q => exact hlt (q.length_run_le ts)
    | done s => exact hlt (Nat.le_refl _)
    | fault f =>
      simp only
      split
      · exact hlt (Nat.le_refl _)
      · exact length_skip_cons_lt ts (isBoundary_eq_false_of_fault hstep h)

/-- A statement that fits leaves fewer tokens unread. -/
theorem length_lt_of_parse_eq_ok {ts rest : List Token} {s : Stmt} (h : atEnd ts = false)
    (hp : parse ts = (.ok s, rest)) : rest.length < ts.length := by
  simpa [parseOrSkip_of_ok hp] using length_parseOrSkip_lt h

/-- Reads all statements up to the end, and returns what is left unread. -/
def parseAll (ts : List Token) : List (Except Diagnostic Stmt) × List Token :=
  if _h : atEnd ts then
    ([], ts)
  else
    let round := parseOrSkip ts
    let (results, unread) := parseAll round.2
    (round.1 :: results, unread)
termination_by ts.length
decreasing_by exact length_parseOrSkip_lt (by simpa using _h)

end BlockScript.Stmt
