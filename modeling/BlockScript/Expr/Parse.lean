import BlockScript.Expr

/-!
# Reading expressions

Tokens are read one at a time, and `Expr.Progress` is what is known of an expression after some
of them: the operators and assignments that wait for an operand on their right, group by group,
and the operand just read, if one was. An operator completes those before it that bind at least
as tightly, so that operators of one level group to the left; a unary operator binds tightest of
all, and an assignment, which waits for all that follows, least.

An expression ends before the first token that cannot go on with it. That token stays unread,
and so does a token that does not fit, except that an assignment is judged once its equals sign
was read.
-/

namespace BlockScript.Expr

/-- What waits for the operand on its right. -/
inductive Pending where
  | unary (op : Token)
  | binary (left : Expr) (op : BinaryOp) (token : Token)
  | assign (name : Token)
deriving DecidableEq, Repr

namespace Pending

/-- How tightly the operand is bound. -/
def level : Pending → Nat
  | unary _ => 5
  | binary _ op _ => op.level
  | assign _ => 0

/-- The expression that the operand completes. -/
def complete (operand : Expr) : Pending → Expr
  | unary op => .unary op operand
  | binary left _ token => .binary left token operand
  | assign name => .assign name operand

/-- Completes what waits for `operand` and binds it at least as tightly as `level`, the innermost
    first, and leaves the rest waiting. -/
def close (level : Nat) (operand : Expr) : List Pending → Expr × List Pending
  | [] => (operand, [])
  | p :: rest =>
    if level ≤ p.level then close level (p.complete operand) rest else (operand, p :: rest)

/-- Completes all that waits for `operand`. -/
def closeAll (operand : Expr) (pending : List Pending) : Expr := pending.foldl complete operand

end Pending

/-- What an operand stands in: what waits for it within the innermost open group, and what waits
    in front of each open group, the innermost first. -/
structure Context where
  pending : List Pending
  outer : List (List Pending)
deriving DecidableEq, Repr

namespace Context

/-- Nothing waits, and no group is open. -/
def empty : Context := ⟨[], []⟩

/-- The operand is on the right of `p`. -/
def push (p : Pending) (c : Context) : Context := ⟨p :: c.pending, c.outer⟩

/-- The operand begins a group. -/
def openGroup (c : Context) : Context := ⟨[], c.pending :: c.outer⟩

end Context

/-- What is known of an expression after some of its tokens. -/
inductive Progress where
  /-- An operand has to come next. -/
  | operand (context : Context)
  /-- An operand was read, and an operator may come next. -/
  | operator (context : Context) (operand : Expr)
deriving DecidableEq, Repr

/-- What a token does to an expression that is being read. -/
inductive Progress.Outcome where
  /-- The token was read. -/
  | more (progress : Progress)
  /-- The expression ended before the token. -/
  | done (e : Expr)
  /-- The token does not fit. -/
  | fault (fault : SyntaxFault)
deriving DecidableEq, Repr

/-- The value that a token denotes as an operand. -/
def constant? : Token.Kind → Option Value
  | .kwTrue => some (.boolean true)
  | .kwFalse => some (.boolean false)
  | .kwNil => some .nil
  | kind => kind.literal?

namespace Progress

/-- Nothing has been read. -/
def start : Progress := operand .empty

/-- Reads a token where an operand has to come. -/
def stepOperand (c : Context) (t : Token) : Outcome :=
  match constant? t.kind with
  | some value => .more (operator c (.literal value))
  | none =>
    match t.kind with
    | .identifier => .more (operator c (.var t))
    | .leftParen => .more (operand c.openGroup)
    | .bang | .minus => .more (operand (c.push (.unary t)))
    | _ => .fault .expectedExpression

/-- Reads an equals sign after the operand `e`, which has to be a name. -/
def stepAssign (c : Context) (e : Expr) : Outcome :=
  match Pending.close 1 e c.pending with
  | (.var name, pending) => .more (operand ⟨.assign name :: pending, c.outer⟩)
  | _ => .fault .invalidAssignmentTarget

/-- Reads a token after the operand `e` that ends the innermost group, or the expression. -/
def stepEnd (c : Context) (e : Expr) (t : Token) : Outcome :=
  let whole := Pending.closeAll e c.pending
  match c.outer with
  | [] => .done whole
  | pending :: outer =>
    if t.kind = .rightParen then .more (operator ⟨pending, outer⟩ (.grouping whole))
    else .fault .expectedParenAfterExpression

/-- Reads a token after the operand `e`. -/
def stepOperator (c : Context) (e : Expr) (t : Token) : Outcome :=
  match BinaryOp.ofKind? t.kind with
  | some op =>
    let (left, pending) := Pending.close op.level e c.pending
    .more (operand ⟨.binary left op t :: pending, c.outer⟩)
  | none => if t.kind = .equal then stepAssign c e else stepEnd c e t

/-- Reads a token. -/
def step (t : Token) : Progress → Outcome
  | operand c => stepOperand c t
  | operator c e => stepOperator c e t

/-- The expression, where no token is left. -/
def finish : Progress → Except Diagnostic Expr
  | operand _ => .error .unexpectedEnd
  | operator ⟨pending, []⟩ e => .ok (Pending.closeAll e pending)
  | operator ⟨_, _ :: _⟩ _ => .error .unexpectedEnd

/-- Reads on, and returns what is left unread. -/
def run (p : Progress) : List Token → Except Diagnostic Expr × List Token
  | [] => (p.finish, [])
  | t :: ts =>
    match p.step t with
    | .more q => q.run ts
    | .done e => (.ok e, t :: ts)
    | .fault f => (.error (.syntactic t f), if f.isAfterToken then ts else t :: ts)

end Progress

/-- Reads an expression, and returns what is left unread. -/
def parse (ts : List Token) : Except Diagnostic Expr × List Token := Progress.start.run ts

end BlockScript.Expr
