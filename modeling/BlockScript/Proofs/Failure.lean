import BlockScript.Stmt.Exec

/-!
# Where a run fails

`Expr.tokens` are the operators and the names of an expression, as they are written. An expression
fails at one of them (`Expr.exists_runtime_of_eval`). `Stmt.FailsAt` tells which statement it is
that ends a run, by the numbers that lead to it through the blocks it stands in: there is one
if and only if the run fails (`Stmt.execAll_eq_error_iff`).
-/

namespace BlockScript

/-- The operators and the names of the expression. -/
def Expr.tokens : Expr → List Token
  | literal _ => []
  | var name => [name]
  | grouping inner => inner.tokens
  | unary op operand => op :: operand.tokens
  | binary left op right => left.tokens ++ op :: right.tokens
  | assign name value => name :: value.tokens

namespace Stmt

mutual

/-- The operators and the names of the statement. -/
def tokens : Stmt → List Token
  | block body => allTokens body
  | declare name none => [name]
  | declare name (some initializer) => name :: initializer.tokens
  | expression e => e.tokens
  | print e => e.tokens

/-- The operators and the names of the statements. -/
def allTokens : List Stmt → List Token
  | [] => []
  | s :: rest => s.tokens ++ allTokens rest

end

/-- Running the statements ends with the diagnostic at the statement `s`, which is no block. Its
    address is its number in the list, or the number of the block that it stands in and its address
    there. -/
inductive FailsAt : Machine → List Stmt → List Nat → Stmt → Diagnostic → Prop
  | here {m after : Machine} {s : Stmt} {rest : List Stmt} {d : Diagnostic} :
      (∀ body, s ≠ .block body) → s.exec m = (.error d, after) → FailsAt m (s :: rest) [0] s d
  | inside {m : Machine} {body rest : List Stmt} {address : List Nat} {s : Stmt} {d : Diagnostic} :
      FailsAt m.openScope body address s d →
      FailsAt m (.block body :: rest) (0 :: address) s d
  | later {m middle : Machine} {first : Stmt} {rest : List Stmt} {n : Nat} {address : List Nat}
      {s : Stmt} {d : Diagnostic} :
      first.exec m = (.ok (), middle) → FailsAt middle rest (n :: address) s d →
      FailsAt m (first :: rest) ((n + 1) :: address) s d

end Stmt

/-! ## Expressions -/

theorem Environment.runtime_of_read {env : Environment} {name : Token} {d : Diagnostic}
    (h : env.read name = .error d) : d = .runtime name .undefinedVariable := by
  unfold read at h
  split at h
  · cases h
  · exact (Except.error.inj h).symm

theorem Environment.runtime_of_write {env : Environment} {name : Token} {value : Value}
    {d : Diagnostic} (h : env.write name value = .error d) :
    d = .runtime name .undefinedVariable := by
  unfold write at h
  split at h
  · cases h
  · exact (Except.error.inj h).symm

/-- An operation fails only for the kinds of its operands. -/
theorem BinaryOp.fault_of_apply {op : BinaryOp} {left right : Value} {fault : RuntimeFault}
    (h : op.apply left right = .error fault) :
    fault ≠ .undefinedVariable ∧ fault ≠ .unknownOperator := by
  constructor <;> rintro rfl <;> cases op <;> cases left <;> cases right <;> cases h

/-- An operation fails only for the kind of its operand. -/
theorem UnaryOp.fault_of_apply {op : UnaryOp} {operand : Value} {fault : RuntimeFault}
    (h : op.apply operand = .error fault) :
    fault ≠ .undefinedVariable ∧ fault ≠ .unknownOperator := by
  constructor <;> rintro rfl <;> cases op <;> cases operand <;> cases h

theorem exists_of_mapError {α : Type} {result : Except RuntimeFault α} {t : Token}
    {d : Diagnostic} (h : result.mapError (.runtime t) = .error d) :
    ∃ fault, d = .runtime t fault ∧ result = .error fault := by
  cases result with
  | ok a => cases h
  | error fault => exact ⟨fault, (Except.error.inj h).symm, rfl⟩

namespace Expr

theorem exists_runtime_of_applyUnary {op : Token} {operand : Value} {d : Diagnostic}
    (h : applyUnary op operand = .error d) :
    ∃ fault, d = .runtime op fault ∧ fault ≠ .undefinedVariable ∧
      ((UnaryOp.ofKind? op.kind).isSome → fault ≠ .unknownOperator) := by
  unfold applyUnary at h
  split at h
  · obtain ⟨fault, hd, hfault⟩ := exists_of_mapError h
    obtain ⟨hname, hknown⟩ := UnaryOp.fault_of_apply hfault
    exact ⟨fault, hd, hname, fun _ => hknown⟩
  · rename_i hnone
    refine ⟨.unknownOperator, (Except.error.inj h).symm, nofun, fun hsome => ?_⟩
    rw [hnone] at hsome
    cases hsome

theorem exists_runtime_of_applyBinary {op : Token} {left right : Value} {d : Diagnostic}
    (h : applyBinary op left right = .error d) :
    ∃ fault, d = .runtime op fault ∧ fault ≠ .undefinedVariable ∧
      ((BinaryOp.ofKind? op.kind).isSome → fault ≠ .unknownOperator) := by
  unfold applyBinary at h
  split at h
  · obtain ⟨fault, hd, hfault⟩ := exists_of_mapError h
    obtain ⟨hname, hknown⟩ := BinaryOp.fault_of_apply hfault
    exact ⟨fault, hd, hname, fun _ => hknown⟩
  · rename_i hnone
    refine ⟨.unknownOperator, (Except.error.inj h).symm, nofun, fun hsome => ?_⟩
    rw [hnone] at hsome
    cases hsome

/-- An expression fails at one of its operators or names. It does not fail for want of an operator
    if it is well-formed. -/
theorem exists_runtime_of_eval {env : Environment} {e : Expr} {d : Diagnostic}
    (h : (e.eval env).1 = .error d) :
    ∃ t ∈ e.tokens, ∃ fault, d = .runtime t fault ∧
      (e.WellFormed → fault ≠ .unknownOperator) := by
  induction e generalizing env with
  | literal value => cases h
  | var name => exact ⟨name, List.mem_cons_self, _, Environment.runtime_of_read h, nofun⟩
  | grouping inner ih => exact ih h
  | unary op operand ih =>
    have hoperand := @ih env
    rw [eval] at h
    generalize operand.eval env = outcome at hoperand h
    obtain ⟨result, after⟩ := outcome
    cases result with
    | error other =>
      obtain ⟨t, ht, fault, hd, hknown⟩ := hoperand h
      exact ⟨t, List.mem_cons_of_mem op ht, fault, hd, fun he => hknown he.2⟩
    | ok value =>
      obtain ⟨fault, hd, -, hknown⟩ := exists_runtime_of_applyUnary h
      exact ⟨op, List.mem_cons_self, fault, hd, fun he => hknown he.1⟩
  | binary left op right ihl ihr =>
    have hleft := @ihl env
    rw [eval] at h
    generalize left.eval env = outcome at hleft h
    obtain ⟨result, middle⟩ := outcome
    cases result with
    | error other =>
      obtain ⟨t, ht, fault, hd, hknown⟩ := hleft h
      exact ⟨t, List.mem_append_left _ ht, fault, hd, fun he => hknown he.1⟩
    | ok l =>
      have hright := @ihr middle
      simp only at h
      generalize right.eval middle = outcome at hright h
      obtain ⟨result, after⟩ := outcome
      cases result with
      | error other =>
        obtain ⟨t, ht, fault, hd, hknown⟩ := hright h
        have ht : t ∈ left.tokens ++ op :: right.tokens :=
          List.mem_append_right _ (List.mem_cons_of_mem op ht)
        exact ⟨t, ht, fault, hd, fun he => hknown he.2.2⟩
      | ok r =>
        have hop : op ∈ left.tokens ++ op :: right.tokens := by simp
        obtain ⟨fault, hd, -, hknown⟩ := exists_runtime_of_applyBinary h
        exact ⟨op, hop, fault, hd, fun he => hknown he.2.1⟩
  | assign name value ih =>
    have hvalue := @ih env
    rw [eval] at h
    generalize value.eval env = outcome at hvalue h
    obtain ⟨result, middle⟩ := outcome
    cases result with
    | error other =>
      obtain ⟨t, ht, fault, hd, hknown⟩ := hvalue h
      exact ⟨t, List.mem_cons_of_mem name ht, fault, hd, hknown⟩
    | ok v =>
      simp only at h
      split at h
      · rename_i hwrite
        obtain rfl := Except.error.inj h
        exact ⟨name, List.mem_cons_self, _, Environment.runtime_of_write hwrite, nofun⟩
      · cases h

end Expr

/-! ## Statements -/

namespace Machine

theorem capacity?_eval (m : Machine) (e : Expr) :
    (m.eval e).2.output.capacity? = m.output.capacity? := rfl

theorem capacity?_print (m : Machine) (value : Value) :
    (m.print value).2.output.capacity? = m.output.capacity? := by
  have hwrite : (m.output.write (value.text ++ "\n")).2.capacity? = m.output.capacity? := by
    simp only [Output.write]
    split
    · rfl
    · split <;> rfl
  rw [print]
  generalize m.output.write (value.text ++ "\n") = outcome at hwrite
  obtain ⟨_ | _, out⟩ := outcome
  · exact hwrite
  · exact hwrite

/-- A print fails only if the output has a limit. -/
theorem outputClosed_of_print {m : Machine} {value : Value} {d : Diagnostic}
    (h : (m.print value).1 = .error d) : d = .outputClosed ∧ m.output.capacity? ≠ none := by
  unfold print at h
  split at h
  · cases h
  · rename_i out hwrite
    refine ⟨(Except.error.inj h).symm, fun hnone => ?_⟩
    rw [Output.write, hnone] at hwrite
    cases hwrite

end Machine

namespace Stmt

mutual

/-- No statement changes how much the output takes. -/
theorem capacity?_exec (m : Machine) :
    (s : Stmt) → (s.exec m).2.output.capacity? = m.output.capacity?
  | block body => by
    rw [exec]
    exact capacity?_execAll m.openScope body
  | declare name none => rfl
  | declare name (some initializer) => by
    rw [exec, ← m.capacity?_eval initializer]
    rcases m.eval initializer with ⟨_ | value, after⟩ <;> rfl
  | expression e => by
    rw [exec, ← m.capacity?_eval e]
    rcases m.eval e with ⟨_ | value, after⟩ <;> rfl
  | print e => by
    rw [exec, ← m.capacity?_eval e]
    rcases m.eval e with ⟨_ | value, after⟩
    · rfl
    · exact after.capacity?_print value

theorem capacity?_execAll (m : Machine) :
    (ss : List Stmt) → (execAll m ss).2.output.capacity? = m.output.capacity?
  | [] => rfl
  | s :: rest => by
    have hs := capacity?_exec m s
    rw [execAll]
    generalize s.exec m = outcome at hs
    obtain ⟨_ | _, middle⟩ := outcome
    · exact hs
    · exact (capacity?_execAll middle rest).trans hs

end

/-- A statement that is no block fails at one of its own operators or names, or because the output
    took not all of a print. -/
theorem exists_runtime_of_exec {m : Machine} {s : Stmt} {d : Diagnostic}
    (hs : ∀ body, s ≠ .block body) (h : (s.exec m).1 = .error d) :
    (∃ t ∈ s.tokens, ∃ fault, d = .runtime t fault ∧
      (s.WellFormed → fault ≠ .unknownOperator)) ∨
    d = .outputClosed ∧ m.output.capacity? ≠ none := by
  have heval : ∀ {e : Expr}, (m.eval e).1 = .error d → ∃ t ∈ e.tokens, ∃ fault,
      d = .runtime t fault ∧ (e.WellFormed → fault ≠ .unknownOperator) :=
    fun h => Expr.exists_runtime_of_eval h
  cases s with
  | block body => exact absurd rfl (hs body)
  | declare name initializer? =>
    cases initializer? with
    | none => cases h
    | some initializer =>
      have hvalue := @heval initializer
      rw [exec] at h
      generalize m.eval initializer = outcome at hvalue h
      obtain ⟨result, middle⟩ := outcome
      cases result with
      | error other =>
        cases h
        obtain ⟨t, ht, hd⟩ := hvalue rfl
        exact .inl ⟨t, List.mem_cons_of_mem name ht, hd⟩
      | ok value => cases h
  | expression e =>
    have hvalue := @heval e
    rw [exec] at h
    generalize m.eval e = outcome at hvalue h
    obtain ⟨result, middle⟩ := outcome
    cases result with
    | error other =>
      cases h
      exact .inl (hvalue rfl)
    | ok value => cases h
  | print e =>
    have hvalue := @heval e
    have hcapacity := m.capacity?_eval e
    rw [exec] at h
    generalize m.eval e = outcome at hvalue hcapacity h
    obtain ⟨result, middle⟩ := outcome
    cases result with
    | error other =>
      cases h
      exact .inl (hvalue rfl)
    | ok value =>
      change (middle.print value).1 = .error d at h
      exact .inr (hcapacity ▸ Machine.outputClosed_of_print h)

theorem FailsAt.tokens_subset {m : Machine} {ss : List Stmt} {address : List Nat} {s : Stmt}
    {d : Diagnostic} (h : FailsAt m ss address s d) : s.tokens ⊆ allTokens ss := by
  induction h with
  | here => exact List.subset_append_left _ _
  | inside _ ih => exact fun t ht => List.mem_append_left _ (ih ht)
  | later _ _ ih => exact fun t ht => List.mem_append_right _ (ih ht)

theorem FailsAt.wellFormed {m : Machine} {ss : List Stmt} {address : List Nat} {s : Stmt}
    {d : Diagnostic} (h : FailsAt m ss address s d) (hss : AllWellFormed ss) : s.WellFormed := by
  induction h with
  | here => exact hss.1
  | inside _ ih => exact ih hss.1
  | later _ _ ih => exact ih hss.2

/-- A run fails at an operator or a name of the statement where it does, or because the output took
    not all of a print. -/
theorem FailsAt.exists_runtime {m : Machine} {ss : List Stmt} {address : List Nat} {s : Stmt}
    {d : Diagnostic} (h : FailsAt m ss address s d) :
    (∃ t ∈ s.tokens, ∃ fault, d = .runtime t fault ∧
      (s.WellFormed → fault ≠ .unknownOperator)) ∨
    d = .outputClosed ∧ m.output.capacity? ≠ none := by
  induction h with
  | here hs hexec => exact exists_runtime_of_exec hs (congrArg Prod.fst hexec)
  | inside _ ih => exact ih
  | @later m middle first _ _ _ _ _ hexec _ ih =>
    have hmiddle : middle.output.capacity? = m.output.capacity? := by
      rw [← capacity?_exec m first, hexec]
    rwa [hmiddle] at ih

@[simp]
theorem fst_exec_block (m : Machine) (body : List Stmt) :
    ((block body).exec m).1 = (execAll m.openScope body).1 := by
  rw [exec]

theorem fst_execAll_of_error {m : Machine} {s : Stmt} {d : Diagnostic}
    (h : (s.exec m).1 = .error d) (rest : List Stmt) : (execAll m (s :: rest)).1 = .error d := by
  rw [execAll]
  generalize s.exec m = outcome at h
  obtain ⟨result, after⟩ := outcome
  obtain rfl := h
  rfl

theorem execAll_of_ok {m middle : Machine} {s : Stmt} (h : s.exec m = (.ok (), middle))
    (rest : List Stmt) : execAll m (s :: rest) = execAll middle rest := by
  rw [execAll, h]

theorem FailsAt.execAll_eq {m : Machine} {ss : List Stmt} {address : List Nat} {s : Stmt}
    {d : Diagnostic} (h : FailsAt m ss address s d) : (execAll m ss).1 = .error d := by
  induction h with
  | here _ hexec => exact fst_execAll_of_error (congrArg Prod.fst hexec) _
  | inside _ ih => exact fst_execAll_of_error (by rw [fst_exec_block, ih]) _
  | later hexec _ ih => rw [execAll_of_ok hexec, ih]

mutual

theorem exists_failsAt_of_exec {m : Machine} {d : Diagnostic} : (s : Stmt) →
    (s.exec m).1 = .error d → ∀ rest, ∃ address t, FailsAt m (s :: rest) (0 :: address) t d
  | block body, h, rest => by
    obtain ⟨address, t, hbody⟩ := exists_failsAt body h
    exact ⟨address, t, .inside hbody⟩
  | declare name initializer?, h, rest => ⟨[], _, .here nofun (Prod.ext h rfl)⟩
  | expression e, h, rest => ⟨[], _, .here nofun (Prod.ext h rfl)⟩
  | print e, h, rest => ⟨[], _, .here nofun (Prod.ext h rfl)⟩

theorem exists_failsAt {m : Machine} {d : Diagnostic} : (ss : List Stmt) →
    (execAll m ss).1 = .error d → ∃ address s, FailsAt m ss address s d
  | s :: rest, h => by
    cases hexec : s.exec m with
    | mk result middle =>
      rw [execAll, hexec] at h
      cases result with
      | error other =>
        obtain rfl := Except.error.inj h
        obtain ⟨address, t, hs⟩ := exists_failsAt_of_exec s (congrArg Prod.fst hexec) rest
        exact ⟨_, t, hs⟩
      | ok _ =>
        obtain ⟨address, t, hrest⟩ := exists_failsAt rest h
        cases address with
        | nil => cases hrest
        | cons n address => exact ⟨_, t, .later hexec hrest⟩

end

/-- A run fails if and only if one of the statements is where it does. -/
theorem execAll_eq_error_iff {m : Machine} {ss : List Stmt} {d : Diagnostic} :
    (execAll m ss).1 = .error d ↔ ∃ address s, FailsAt m ss address s d :=
  ⟨exists_failsAt ss, fun ⟨_, _, hfails⟩ => hfails.execAll_eq⟩

/-- An output without a limit takes all that a run prints. -/
theorem ne_outputClosed_of_execAll {m : Machine} (hm : m.output.capacity? = none)
    (ss : List Stmt) : (execAll m ss).1 ≠ .error .outputClosed := by
  intro hclosed
  obtain ⟨address, s, hfails⟩ := execAll_eq_error_iff.mp hclosed
  rcases hfails.exists_runtime with ⟨t, -, fault, ht, -⟩ | ⟨-, hlimit⟩
  · cases ht
  · exact hlimit hm

end Stmt

end BlockScript
