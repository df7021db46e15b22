import BlockScript.Proofs.Failure
import BlockScript.Proofs.ScopeFrame

/-!
# What a failure depends on

Whether an operator has a value is settled by the kinds of its operands, and so is the kind of the
value (`BinaryOp.kind_apply`, `UnaryOp.kind_apply`). Two runs of programs that are alike but for
the values of their literals, in environments that are alike but for the values of their bindings,
therefore fail at the same statement, at the same token and with the same fault, or not at all
(`Stmt.failure_depends_on_kinds`).
-/

namespace BlockScript

/-! ## Operators -/

namespace BinaryOp

/-- The kind of the value of an operation that takes two numbers. -/
def kindOnNumbers (result : Value.Kind) : Value.Kind → Value.Kind → Except RuntimeFault Value.Kind
  | .number, .number => .ok result
  | left, right => .error (.operandsNotNumbers left right)

/-- The kind of a sum. -/
def kindOfSum : Value.Kind → Value.Kind → Except RuntimeFault Value.Kind
  | .number, .number => .ok .number
  | .string, _ => .ok .string
  | _, .string => .ok .string
  | left, right => .error (.operandsNotAddable left right)

/-- The kind of the value of an operation, or its fault. -/
def applyKind (op : BinaryOp) (left right : Value.Kind) : Except RuntimeFault Value.Kind :=
  match op with
  | equal | notEqual => .ok .boolean
  | greater | greaterEqual | less | lessEqual => kindOnNumbers .boolean left right
  | subtract | multiply | divide => kindOnNumbers .number left right
  | add => kindOfSum left right

theorem kind_onNumbers {f : Float → Float → Value} (result : Value.Kind)
    (hf : ∀ x y, (f x y).kind = result) (left right : Value) :
    (onNumbers f left right).map Value.kind = kindOnNumbers result left.kind right.kind := by
  cases left with
  | number x =>
    cases right with
    | number y => exact congrArg Except.ok (hf x y)
    | nil | boolean | string => rfl
  | nil | boolean | string => cases right <;> rfl

theorem kind_sum (left right : Value) :
    (sum left right).map Value.kind = kindOfSum left.kind right.kind := by
  cases left <;> cases right <;> rfl

/-- Whether an operation has a value, and of which kind, depends on the kinds of its operands. -/
theorem kind_apply (op : BinaryOp) (left right : Value) :
    (op.apply left right).map Value.kind = op.applyKind left.kind right.kind := by
  cases op with
  | equal | notEqual => rfl
  | add => exact kind_sum left right
  | greater | greaterEqual | less | lessEqual =>
    exact kind_onNumbers .boolean (fun _ _ => rfl) left right
  | subtract | multiply | divide => exact kind_onNumbers .number (fun _ _ => rfl) left right

end BinaryOp

namespace UnaryOp

/-- The kind of the value of an operation, or its fault. -/
def applyKind (op : UnaryOp) (operand : Value.Kind) : Except RuntimeFault Value.Kind :=
  match op, operand with
  | negate, .number => .ok .number
  | negate, operand => .error (.operandNotNumber operand)
  | not, _ => .ok .boolean

/-- Whether an operation has a value, and of which kind, depends on the kind of its operand. -/
theorem kind_apply (op : UnaryOp) (operand : Value) :
    (op.apply operand).map Value.kind = op.applyKind operand.kind := by
  cases op <;> cases operand <;> rfl

end UnaryOp

theorem map_mapError {ε δ α β : Type} (f : α → β) (g : ε → δ) (result : Except ε α) :
    (result.mapError g).map f = (result.map f).mapError g := by
  cases result <;> rfl

namespace Expr

theorem kind_applyUnary {op : Token} {operand operand' : Value}
    (h : operand.kind = operand'.kind) :
    (applyUnary op operand).map Value.kind = (applyUnary op operand').map Value.kind := by
  unfold applyUnary
  split
  · rw [map_mapError, map_mapError, UnaryOp.kind_apply, UnaryOp.kind_apply, h]
  · rfl

theorem kind_applyBinary {op : Token} {left left' right right' : Value}
    (hleft : left.kind = left'.kind) (hright : right.kind = right'.kind) :
    (applyBinary op left right).map Value.kind =
      (applyBinary op left' right').map Value.kind := by
  unfold applyBinary
  split
  · rw [map_mapError, map_mapError, BinaryOp.kind_apply, BinaryOp.kind_apply,
      hleft, hright]
  · rfl

end Expr

/-! ## Environments -/

namespace Environment

/-- Two environments with scopes that lie in each other alike, and bind the same names to values of
    the same kinds. -/
structure Alike (env env' : Environment) : Prop where
  current_eq : env.current = env'.current
  parents_eq : env.parents = env'.parents
  kind_eq : ∀ i name,
    (env.valueIn i name).map Value.kind = (env'.valueIn i name).map Value.kind

namespace Alike

variable {env env' : Environment}

theorem depth_eq (h : env.Alike env') : env.depth = env'.depth := by
  rw [← length_parents, h.parents_eq, length_parents]

theorem parent?_eq (h : env.Alike env') (i : Nat) :
    env.scopes[i]?.map Scope.parent? = env'.scopes[i]?.map Scope.parent? := by
  have hparent := congrArg (·[i]?) h.parents_eq
  simpa only [parents, List.getElem?_map, Array.getElem?_toList] using hparent

theorem isSome_valueIn (h : env.Alike env') (i : Nat) (name : String) :
    (env.valueIn i name).isSome = (env'.valueIn i name).isSome := by
  rw [← Option.isSome_map (f := Value.kind), h.kind_eq, Option.isSome_map]

theorem contains_eq (h : env.Alike env') {i : Nat} {scope scope' : Scope}
    (hscope : env.scopes[i]? = some scope) (hscope' : env'.scopes[i]? = some scope')
    (name : String) : scope.bindings.contains name = scope'.bindings.contains name := by
  have hvalue := h.isSome_valueIn i name
  rw [valueIn, valueIn, hscope, hscope'] at hvalue
  simpa only [Option.bind_some, Std.ExtTreeMap.contains_eq_isSome_getElem?] using hvalue

theorem resolveFrom (h : env.Alike env') (name : String) (i : Nat) :
    env.resolveFrom name i = env'.resolveFrom name i := by
  induction i using Nat.strongRecOn with
  | ind i ih =>
    have hparent := h.parent?_eq i
    rw [Environment.resolveFrom, Environment.resolveFrom]
    cases hscope : env.scopes[i]? with
    | none =>
      rw [hscope] at hparent
      rw [Option.map_eq_none_iff.mp hparent.symm]
    | some scope =>
      rw [hscope] at hparent
      obtain ⟨scope', hscope', heq⟩ := Option.map_eq_some_iff.mp hparent.symm
      simp only [hscope', h.contains_eq hscope hscope' name, heq]
      -- the two walks go on alike, to a scope that lies before this one
      split
      · rfl
      · split
        · rfl
        · split
          case isTrue hlt => exact ih _ hlt
          case isFalse => rfl

theorem get? (h : env.Alike env') (name : String) :
    (env.get? name).map Value.kind = (env'.get? name).map Value.kind := by
  rw [Environment.get?, Environment.get?, resolve, resolve, h.resolveFrom, h.current_eq]
  cases env'.resolveFrom name env'.current with
  | none => rfl
  | some i => exact h.kind_eq i name

theorem read (h : env.Alike env') (name : Token) :
    (env.read name).map Value.kind = (env'.read name).map Value.kind := by
  have hvalue := h.get? name.lexeme
  rw [Environment.read, Environment.read]
  cases hget : env.get? name.lexeme with
  | none =>
    rw [hget] at hvalue
    rw [Option.map_eq_none_iff.mp hvalue.symm]
  | some value =>
    rw [hget] at hvalue
    obtain ⟨value', hget', hkind⟩ := Option.map_eq_some_iff.mp hvalue.symm
    rw [hget']
    exact congrArg Except.ok hkind.symm

theorem bindIn (h : env.Alike env') (i : Nat) (name : String) {value value' : Value}
    (hvalue : value.kind = value'.kind) :
    (env.bindIn i name value).Alike (env'.bindIn i name value') := by
  refine ⟨h.current_eq, ?_, ?_⟩
  · rw [parents_bindIn, parents_bindIn, h.parents_eq]
  · intro j other
    rw [valueIn_bindIn, valueIn_bindIn, h.depth_eq]
    split
    · exact congrArg some hvalue
    · exact h.kind_eq j other

theorem define (h : env.Alike env') (name : String) {value value' : Value}
    (hvalue : value.kind = value'.kind) :
    (env.define name value).Alike (env'.define name value') := by
  rw [Environment.define, Environment.define, h.current_eq]
  exact h.bindIn _ name hvalue

theorem openScope (h : env.Alike env') : env.openScope.2.Alike env'.openScope.2 := by
  refine ⟨h.depth_eq, ?_, ?_⟩
  · rw [parents_openScope, parents_openScope, h.parents_eq, h.current_eq]
  · intro i name
    rw [valueIn_openScope, valueIn_openScope, h.kind_eq]

/-- Both scopes are closed, or neither is. -/
theorem closeScope (h : env.Alike env') : env.closeScope.Alike env'.closeScope := by
  have hparent := h.parent?_eq env.current
  rw [Environment.closeScope, Environment.closeScope, ← h.current_eq]
  cases hscope : env.scopes[env.current]? with
  | none =>
    rw [hscope] at hparent
    rw [Option.map_eq_none_iff.mp hparent.symm]
    exact h
  | some scope =>
    rw [hscope] at hparent
    obtain ⟨scope', hscope', heq⟩ := Option.map_eq_some_iff.mp hparent.symm
    obtain ⟨parent?, bindings⟩ := scope
    obtain ⟨parent?', bindings'⟩ := scope'
    obtain rfl : parent?' = parent? := heq
    rw [hscope']
    cases parent?' with
    | none => exact h
    | some parent =>
      refine ⟨rfl, ?_, ?_⟩
      · show (env.scopes.take env.current).toList.map Scope.parent? =
          (env'.scopes.take env.current).toList.map Scope.parent?
        have htake : ∀ scopes : Array Scope,
            (scopes.take env.current).toList = scopes.toList.take env.current := by simp
        rw [htake, htake, List.map_take, List.map_take]
        exact congrArg (List.take env.current) h.parents_eq
      · intro i name
        rw [valueIn_take, valueIn_take]
        split
        · exact h.kind_eq i name
        · rfl

/-- A name is given values of one kind in scopes that lie alike, or in none. -/
theorem write (h : env.Alike env') (name : Token) {value value' : Value}
    (hvalue : value.kind = value'.kind) :
    (∃ after after', env.write name value = .ok after ∧ env'.write name value' = .ok after' ∧
      after.Alike after') ∨
    ∃ d, env.write name value = .error d ∧ env'.write name value' = .error d := by
  rw [Environment.write, Environment.write, assign?, assign?, resolve, resolve, h.resolveFrom,
    h.current_eq]
  cases env'.resolveFrom name.lexeme env'.current with
  | none => exact .inr ⟨_, rfl, rfl⟩
  | some i => exact .inl ⟨_, _, rfl, rfl, h.bindIn i name.lexeme hvalue⟩

end Alike

end Environment

/-! ## Expressions -/

/-- Two expressions that differ at most in the values of their literals, not in their kinds. -/
inductive Expr.Alike : Expr → Expr → Prop
  | literal {value value' : Value} :
      value.kind = value'.kind → Alike (.literal value) (.literal value')
  | var (name : Token) : Alike (.var name) (.var name)
  | grouping {inner inner' : Expr} : Alike inner inner' → Alike (.grouping inner) (.grouping inner')
  | unary (op : Token) {operand operand' : Expr} :
      Alike operand operand' → Alike (.unary op operand) (.unary op operand')
  | binary (op : Token) {left left' right right' : Expr} :
      Alike left left' → Alike right right' →
      Alike (.binary left op right) (.binary left' op right')
  | assign (name : Token) {value value' : Expr} :
      Alike value value' → Alike (.assign name value) (.assign name value')

/-- Two outcomes of evaluation with values of the same kind or with the same fault, in environments
    that are alike. -/
inductive Expr.AlikeOutcomes :
    Except Diagnostic Value × Environment → Except Diagnostic Value × Environment → Prop
  | value {value value' : Value} {env env' : Environment} :
      value.kind = value'.kind → env.Alike env' → AlikeOutcomes (.ok value, env) (.ok value', env')
  | fault (d : Diagnostic) {env env' : Environment} :
      env.Alike env' → AlikeOutcomes (.error d, env) (.error d, env')

namespace Expr

theorem AlikeOutcomes.of_kind_eq {result result' : Except Diagnostic Value}
    {env env' : Environment} (hkind : result.map Value.kind = result'.map Value.kind)
    (henv : env.Alike env') : AlikeOutcomes (result, env) (result', env') := by
  cases result with
  | ok value =>
    cases result' with
    | ok value' => exact .value (Except.ok.inj hkind) henv
    | error d => cases hkind
  | error d =>
    cases result' with
    | ok value => cases hkind
    | error d' =>
      obtain rfl : d = d' := Except.error.inj hkind
      exact .fault d henv

/-- Whether an expression has a value, and of which kind, depends on the kinds of the values that it
    mentions and finds. -/
theorem Alike.eval {e e' : Expr} (he : e.Alike e') {env env' : Environment}
    (henv : env.Alike env') : AlikeOutcomes (e.eval env) (e'.eval env') := by
  induction he generalizing env env' with
  | literal hkind => exact .value hkind henv
  | var name => exact .of_kind_eq (henv.read name) henv
  | grouping _ ih => exact ih henv
  | @unary op operand operand' _ ih =>
    have hoperand := ih henv
    rw [Expr.eval, Expr.eval]
    generalize operand.eval env = o, operand'.eval env' = o' at hoperand
    cases hoperand with
    | fault d hafter => exact .fault d hafter
    | value hkind hafter => exact .of_kind_eq (kind_applyUnary hkind) hafter
  | @binary op left left' right right' _ _ ihl ihr =>
    have hleft := ihl henv
    rw [Expr.eval, Expr.eval]
    generalize left.eval env = o, left'.eval env' = o' at hleft
    cases hleft with
    | fault d hmiddle => exact .fault d hmiddle
    | @value l l' middle middle' hl hmiddle =>
      have hright := ihr hmiddle
      simp only
      generalize right.eval middle = o, right'.eval middle' = o' at hright
      cases hright with
      | fault d hafter => exact .fault d hafter
      | value hr hafter => exact .of_kind_eq (kind_applyBinary hl hr) hafter
  | @assign name value value' _ ih =>
    have hvalue := ih henv
    rw [Expr.eval, Expr.eval]
    generalize value.eval env = o, value'.eval env' = o' at hvalue
    cases hvalue with
    | fault d hmiddle => exact .fault d hmiddle
    | value hkind hmiddle =>
      simp only
      rcases hmiddle.write name hkind with ⟨after, after', hw, hw', hafter⟩ | ⟨d, hw, hw'⟩
      · rw [hw, hw']
        exact .value hkind hafter
      · rw [hw, hw']
        exact .fault d hmiddle

end Expr

/-! ## Statements -/

namespace Stmt

mutual

/-- Two statements that differ at most in the values of their literals, not in their kinds. -/
inductive Alike : Stmt → Stmt → Prop
  | block {body body' : List Stmt} : AllAlike body body' → Alike (.block body) (.block body')
  | declareNil (name : Token) : Alike (.declare name none) (.declare name none)
  | declare (name : Token) {initializer initializer' : Expr} :
      initializer.Alike initializer' →
      Alike (.declare name (some initializer)) (.declare name (some initializer'))
  | expression {e e' : Expr} : e.Alike e' → Alike (.expression e) (.expression e')
  | print {e e' : Expr} : e.Alike e' → Alike (.print e) (.print e')

/-- Two lists of statements that differ at most in the values of their literals. -/
inductive AllAlike : List Stmt → List Stmt → Prop
  | nil : AllAlike [] []
  | cons {s s' : Stmt} {ss ss' : List Stmt} :
      Alike s s' → AllAlike ss ss' → AllAlike (s :: ss) (s' :: ss')

end

/-- Two outcomes of statements with the same result in environments that are alike, unless an output
    took not all of a print. -/
inductive AlikeOutcomes :
    Except Diagnostic Unit × Machine → Except Diagnostic Unit × Machine → Prop
  | same (result : Except Diagnostic Unit) {m m' : Machine} :
      m.environment.Alike m'.environment → AlikeOutcomes (result, m) (result, m')
  | closed {o o' : Except Diagnostic Unit × Machine} :
      o.1 = .error .outputClosed ∨ o'.1 = .error .outputClosed → AlikeOutcomes o o'

end Stmt

/-- A print fails only for want of room, whatever is printed. -/
theorem Machine.alike_print {m m' : Machine} (henv : m.environment.Alike m'.environment)
    (value value' : Value) : Stmt.AlikeOutcomes (m.print value) (m'.print value') := by
  rw [print, print]
  rcases m.output.write (value.text ++ "\n") with ⟨_ | _, out⟩
  · exact .closed (.inl rfl)
  · rcases m'.output.write (value'.text ++ "\n") with ⟨_ | _, out'⟩
    · exact .closed (.inr rfl)
    · exact .same _ henv

/-- An evaluation for the sake of its value, and of what is done with it. -/
theorem Machine.alike_eval {m m' : Machine} {e e' : Expr} (he : e.Alike e')
    (henv : m.environment.Alike m'.environment) :
    (∃ d after after', m.eval e = (.error d, after) ∧ m'.eval e' = (.error d, after') ∧
      after.environment.Alike after'.environment) ∨
    ∃ value value' after after', m.eval e = (.ok value, after) ∧ m'.eval e' = (.ok value', after') ∧
      value.kind = value'.kind ∧ after.environment.Alike after'.environment := by
  have houtcome := he.eval henv
  rw [eval, eval]
  generalize e.eval m.environment = o, e'.eval m'.environment = o' at houtcome
  cases houtcome with
  | fault d hafter => exact .inl ⟨d, _, _, rfl, rfl, hafter⟩
  | value hkind hafter => exact .inr ⟨_, _, _, _, rfl, rfl, hkind, hafter⟩

namespace Stmt

mutual

theorem Alike.exec {s s' : Stmt} {m m' : Machine} (henv : m.environment.Alike m'.environment) :
    s.Alike s' → AlikeOutcomes (s.exec m) (s'.exec m')
  | @Alike.block body body' hbody => by
    have houtcome := @AllAlike.execAll _ _ m.openScope m'.openScope henv.openScope hbody
    rw [Stmt.exec, Stmt.exec]
    generalize Stmt.execAll m.openScope body = o, Stmt.execAll m'.openScope body' = o' at houtcome
    cases houtcome with
    | same result hafter => exact .same result hafter.closeScope
    | closed hclosed => exact .closed hclosed
  | .declareNil name => .same _ (henv.define name.lexeme rfl)
  | .declare name he => by
    rw [Stmt.exec, Stmt.exec]
    rcases Machine.alike_eval he henv with ⟨d, _, _, h, h', hafter⟩ |
      ⟨_, _, _, _, h, h', hkind, hafter⟩
    · rw [h, h']
      exact .same _ hafter
    · rw [h, h']
      exact .same _ (hafter.define name.lexeme hkind)
  | .expression he => by
    rw [Stmt.exec, Stmt.exec]
    rcases Machine.alike_eval he henv with ⟨d, _, _, h, h', hafter⟩ | ⟨_, _, _, _, h, h', -, hafter⟩
    · rw [h, h']
      exact .same _ hafter
    · rw [h, h']
      exact .same _ hafter
  | .print he => by
    rw [Stmt.exec, Stmt.exec]
    rcases Machine.alike_eval he henv with ⟨d, _, _, h, h', hafter⟩ | ⟨_, _, _, _, h, h', -, hafter⟩
    · rw [h, h']
      exact .same _ hafter
    · rw [h, h']
      exact Machine.alike_print hafter _ _

theorem AllAlike.execAll {ss ss' : List Stmt} {m m' : Machine}
    (henv : m.environment.Alike m'.environment) :
    AllAlike ss ss' → AlikeOutcomes (execAll m ss) (execAll m' ss')
  | .nil => .same _ henv
  | @AllAlike.cons s s' ss ss' hs hss => by
    have houtcome := hs.exec henv
    rw [Stmt.execAll, Stmt.execAll]
    generalize s.exec m = o, s'.exec m' = o' at houtcome
    cases houtcome with
    | same result hmiddle =>
      cases result with
      | error d => exact .same _ hmiddle
      | ok _ => exact hss.execAll hmiddle
    | closed hclosed =>
      -- the list whose first statement finds the output closed ends there
      obtain ⟨result, middle⟩ := o
      obtain ⟨result', middle'⟩ := o'
      rcases hclosed with hclosed | hclosed
      · cases hclosed
        exact .closed (.inl rfl)
      · cases hclosed
        exact .closed (.inr rfl)

end

theorem AlikeOutcomes.eq_of_ne_outputClosed {o o' : Except Diagnostic Unit × Machine}
    (h : AlikeOutcomes o o') (hopen : o.1 ≠ .error .outputClosed)
    (hopen' : o'.1 ≠ .error .outputClosed) :
    o.1 = o'.1 ∧ o.2.environment.Alike o'.2.environment := by
  cases h with
  | same result henv => exact ⟨rfl, henv⟩
  | closed hclosed => exact absurd hclosed (not_or_intro hopen hopen')

/-- Where the run of a list fails, so does the run of a list that is alike. -/
theorem FailsAt.alike {m : Machine} {ss : List Stmt} {address : List Nat} {s : Stmt}
    {d : Diagnostic} (h : FailsAt m ss address s d) (hd : d ≠ .outputClosed) {m' : Machine}
    {ss' : List Stmt} (hss : AllAlike ss ss') (henv : m.environment.Alike m'.environment)
    (hopen' : (execAll m' ss').1 ≠ .error .outputClosed) :
    ∃ s', s.Alike s' ∧ FailsAt m' ss' address s' d := by
  induction h generalizing m' ss' with
  | @here m after s rest d hs hexec =>
    cases hss with
    | @cons _ s' _ rest' hfirst hrest =>
      have houtcome := hfirst.exec henv
      rw [hexec] at houtcome
      cases hexec' : s'.exec m' with
      | mk result' after' =>
        rw [hexec'] at houtcome
        cases houtcome with
        | same =>
          refine ⟨s', hfirst, .here ?_ hexec'⟩
          rintro body' rfl
          cases hfirst with
          | block => exact hs _ rfl
        | closed hclosed =>
          rcases hclosed with hclosed | hclosed
          · exact absurd (Except.error.inj hclosed) hd
          · exact absurd (fst_execAll_of_error (by rw [hexec', hclosed]) rest') hopen'
  | @inside m body rest address s d _ ih =>
    cases hss with
    | @cons _ _ _ rest' hfirst hrest =>
      cases hfirst with
      | @block _ body' hbody =>
        have hbody' : (execAll m'.openScope body').1 ≠ .error .outputClosed :=
          fun hclosed => hopen' (fst_execAll_of_error (by rw [fst_exec_block, hclosed]) rest')
        have hinside : m.openScope.environment.Alike m'.openScope.environment := henv.openScope
        obtain ⟨s', hs', hfails'⟩ := ih hd hbody hinside hbody'
        exact ⟨s', hs', .inside hfails'⟩
  | @later m middle first rest n address s d hexec _ ih =>
    cases hss with
    | @cons _ first' _ rest' hfirst hrest =>
      have houtcome := hfirst.exec henv
      rw [hexec] at houtcome
      cases hexec' : first'.exec m' with
      | mk result' middle' =>
        rw [hexec'] at houtcome
        cases houtcome with
        | same _ hmiddle =>
          rw [execAll_of_ok hexec'] at hopen'
          obtain ⟨s', hs', hfails'⟩ := ih hd hrest hmiddle hopen'
          exact ⟨s', hs', .later hexec' hfails'⟩
        | closed hclosed =>
          rcases hclosed with hclosed | hclosed
          · cases hclosed
          · exact absurd (fst_execAll_of_error (by rw [hexec', hclosed]) rest') hopen'

/-- The values of literals and of bindings make no difference to whether a run fails, where it does
    and what it reports, as long as each output takes all that is printed. The kinds of all
    bindings are the same again after it. -/
theorem failure_depends_on_kinds {m m' : Machine} {ss ss' : List Stmt} (hwf : AllWellFormed ss)
    (hss : AllAlike ss ss') (henv : m.environment.Alike m'.environment)
    (hopen : (execAll m ss).1 ≠ .error .outputClosed)
    (hopen' : (execAll m' ss').1 ≠ .error .outputClosed) :
    (execAll m ss).1 = (execAll m' ss').1 ∧
    (∀ d, (execAll m ss).1 = .error d →
      (∃ token fault, d = .runtime token fault ∧ fault ≠ .unknownOperator) ∧
      ∃ address s s', FailsAt m ss address s d ∧ FailsAt m' ss' address s' d ∧ s.Alike s') ∧
    (execAll m ss).2.environment.Alike (execAll m' ss').2.environment := by
  have houtcome := (hss.execAll henv).eq_of_ne_outputClosed hopen hopen'
  refine ⟨houtcome.1, ?_, houtcome.2⟩
  intro d hd
  have hne : d ≠ .outputClosed := by
    rintro rfl
    exact hopen hd
  obtain ⟨address, s, hfails⟩ := execAll_eq_error_iff.mp hd
  obtain ⟨s', hs', hfails'⟩ := hfails.alike hne hss henv hopen'
  refine ⟨?_, address, s, s', hfails, hfails', hs'⟩
  rcases hfails.exists_runtime with ⟨t, -, fault, ht, hknown⟩ | ⟨hclosed, -⟩
  · exact ⟨t, fault, ht, hknown (hfails.wellFormed hwf)⟩
  · exact absurd hclosed hne

/-- In `var a = true; -a;` the minus fails whichever boolean stands there, and whichever string `s`
    is bound to. -/
theorem failure_depends_on_kinds_negation :
    ((Machine.new none).define ⟨.identifier, "s", ⟨1, 1⟩⟩ (.string "")).environment.Alike
      ((Machine.new none).define ⟨.identifier, "s", ⟨1, 1⟩⟩ (.string "text")).environment ∧
    (execAll ((Machine.new none).define ⟨.identifier, "s", ⟨1, 1⟩⟩ (.string "text"))
      [.declare ⟨.identifier, "a", ⟨1, 5⟩⟩ (some (.literal (.boolean false))),
        .expression (.unary ⟨.minus, "-", ⟨1, 15⟩⟩ (.var ⟨.identifier, "a", ⟨1, 16⟩⟩))]).1 =
      .error (.runtime ⟨.minus, "-", ⟨1, 15⟩⟩ (.operandNotNumber .boolean)) := by
  have hwf : AllWellFormed
      [.declare ⟨.identifier, "a", ⟨1, 5⟩⟩ (some (.literal (.boolean true))),
        .expression (.unary ⟨.minus, "-", ⟨1, 15⟩⟩ (.var ⟨.identifier, "a", ⟨1, 16⟩⟩))] :=
    ⟨trivial, ⟨rfl, trivial⟩, trivial⟩
  have hss : AllAlike
      [.declare ⟨.identifier, "a", ⟨1, 5⟩⟩ (some (.literal (.boolean true))),
        .expression (.unary ⟨.minus, "-", ⟨1, 15⟩⟩ (.var ⟨.identifier, "a", ⟨1, 16⟩⟩))]
      [.declare ⟨.identifier, "a", ⟨1, 5⟩⟩ (some (.literal (.boolean false))),
        .expression (.unary ⟨.minus, "-", ⟨1, 15⟩⟩ (.var ⟨.identifier, "a", ⟨1, 16⟩⟩))] :=
    .cons (.declare _ (.literal rfl)) (.cons (.expression (.unary _ (.var _))) .nil)
  have henv : ((Machine.new none).define ⟨.identifier, "s", ⟨1, 1⟩⟩ (.string "")).environment.Alike
      ((Machine.new none).define ⟨.identifier, "s", ⟨1, 1⟩⟩ (.string "text")).environment :=
    Environment.Alike.define ⟨rfl, rfl, fun _ _ => rfl⟩ "s" rfl
  have hsame := failure_depends_on_kinds hwf hss henv (ne_outputClosed_of_execAll rfl _)
    (ne_outputClosed_of_execAll rfl _)
  have hget : (((Machine.new none).define ⟨.identifier, "s", ⟨1, 1⟩⟩ (.string "")).define
      ⟨.identifier, "a", ⟨1, 5⟩⟩ (.boolean true)).environment.get? "a" = some (.boolean true) := by
    decide +kernel
  refine ⟨henv, hsame.1.symm.trans ?_⟩
  simp only [execAll, exec, Machine.eval, Expr.eval, Environment.read, hget]
  rfl

end Stmt

end BlockScript
