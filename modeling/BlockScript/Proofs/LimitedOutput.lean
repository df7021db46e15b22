import BlockScript.Proofs.ScopeFrame
import BlockScript.Proofs.Transcript

/-!
# Outputs with a limit

`Stmt.ReachesPrint` tells the prints that a run comes to, with the machine as it is once the value
was found. An output with a limit cuts a run short at the print that crosses the limit, if there is
one, and makes no difference otherwise (`Stmt.output_truncated`): up to that print both runs go
side by side.
-/

namespace BlockScript

namespace Machine

/-- The same machine with an output that takes only `n` bytes in all. -/
def limit (n : Nat) (m : Machine) : Machine := ⟨m.environment, ⟨m.output.written, some n⟩⟩

/-- The bytes of a print. -/
def printed (value : Value) : ByteArray := (value.text ++ "\n").toUTF8

/-- The print of the value goes beyond the first `n` bytes, and nothing in front of it does. -/
def Crosses (n : Nat) (m : Machine) (value : Value) : Prop :=
  m.output.written.size ≤ n ∧ n < (m.output.written ++ printed value).size

variable {m : Machine} {n : Nat} {value : Value}

theorem eq_resumed (h : m.output.capacity? = none) :
    m = .resumed m.environment m.output.written := by
  obtain ⟨env, written, capacity?⟩ := m
  obtain rfl : capacity? = none := h
  rfl

theorem print_unlimited (h : m.output.capacity? = none) (value : Value) :
    m.print value = (.ok (), .resumed m.environment (m.output.written ++ printed value)) := by
  rw [eq_resumed h]
  rfl

theorem eval_limit (m : Machine) (n : Nat) (e : Expr) :
    (m.limit n).eval e = ((m.eval e).1, (m.eval e).2.limit n) := rfl

theorem print_limit_of_le (h : (m.output.written ++ printed value).size ≤ n) :
    (m.limit n).print value =
      (.ok (), limit n (.resumed m.environment (m.output.written ++ printed value))) := by
  have hwrite : (m.limit n).output.write (value.text ++ "\n") =
      (true, ⟨m.output.written ++ printed value, some n⟩) := if_pos h
  rw [print, hwrite]
  rfl

theorem print_limit_of_lt (h : n < (m.output.written ++ printed value).size) :
    (m.limit n).print value =
      (.error .outputClosed,
        ⟨m.environment, ⟨(m.output.written ++ printed value).extract 0 n, some n⟩⟩) := by
  have hwrite : (m.limit n).output.write (value.text ++ "\n") =
      (false, ⟨(m.output.written ++ printed value).extract 0 n, some n⟩) :=
    if_neg (Nat.not_le_of_lt h)
  rw [print, hwrite]
  rfl

end Machine

namespace Stmt

/-! ## What is written only grows -/

/-- What was written before a run is still there after it, if there is no limit. -/
theorem exists_written_of_appends {α : Type} {run : Machine → α × Machine} {m : Machine}
    (hrun : Machine.Appends run m.environment) (h : m.output.capacity? = none) :
    ∃ more, (run m).2.output.written = m.output.written ++ more := by
  obtain ⟨result, after, text, hrun⟩ := hrun
  have hm := hrun m.output.written
  rw [← Machine.eq_resumed h] at hm
  exact ⟨text.toUTF8, by rw [hm]; rfl⟩

theorem exists_written_of_exec {m : Machine} (h : m.output.capacity? = none) (s : Stmt) :
    ∃ more, (s.exec m).2.output.written = m.output.written ++ more :=
  exists_written_of_appends (exec_appends m.environment s) h

theorem exists_written_of_execAll {m : Machine} (h : m.output.capacity? = none)
    (ss : List Stmt) : ∃ more, (execAll m ss).2.output.written = m.output.written ++ more :=
  exists_written_of_appends (execAll_appends m.environment ss) h

theorem size_le_of_execAll {m : Machine} (h : m.output.capacity? = none) (ss : List Stmt) :
    m.output.written.size ≤ (execAll m ss).2.output.written.size := by
  obtain ⟨more, hmore⟩ := exists_written_of_execAll h ss
  rw [hmore, ByteArray.size_append]
  exact Nat.le_add_right _ _

/-! ## Runs that stay within the limit -/

mutual

/-- The limit makes no difference to a statement that does not write beyond it. -/
theorem exec_limit {m : Machine} {n : Nat} (h : m.output.capacity? = none) : (s : Stmt) →
    (s.exec m).2.output.written.size ≤ n →
    s.exec (m.limit n) = ((s.exec m).1, (s.exec m).2.limit n)
  | block body, hn => by
    have hopen : (m.limit n).openScope = m.openScope.limit n := rfl
    rw [exec] at hn
    have hbody := execAll_limit (m := m.openScope) (n := n) h body hn
    rw [exec, hopen, hbody, exec]
    rfl
  | declare name none, _ => rfl
  | declare name (some initializer), _ => by
    rw [exec, Machine.eval_limit, exec]
    rcases m.eval initializer with ⟨_ | value, after⟩ <;> rfl
  | expression e, _ => by
    rw [exec, Machine.eval_limit, exec]
    rcases m.eval e with ⟨_ | value, after⟩ <;> rfl
  | print e, hn => by
    have hafter : (m.eval e).2.output.capacity? = none := h
    rw [exec] at hn
    rw [exec, Machine.eval_limit, exec]
    generalize m.eval e = outcome at hn hafter
    obtain ⟨result, after⟩ := outcome
    cases result with
    | error d => rfl
    | ok value =>
      simp only [Machine.print_unlimited hafter] at hn ⊢
      exact Machine.print_limit_of_le hn

/-- The limit makes no difference to a run that does not write beyond it. -/
theorem execAll_limit {m : Machine} {n : Nat} (h : m.output.capacity? = none) :
    (ss : List Stmt) → (execAll m ss).2.output.written.size ≤ n →
    execAll (m.limit n) ss = ((execAll m ss).1, (execAll m ss).2.limit n)
  | [], _ => rfl
  | s :: rest, hn => by
    have hs := exec_limit (n := n) h s
    have hmiddle := (capacity?_exec m s).trans h
    rw [execAll] at hn
    rw [execAll, execAll]
    generalize s.exec m = outcome at hs hmiddle hn
    obtain ⟨result, middle⟩ := outcome
    cases result with
    | error d => rw [hs hn]
    | ok _ =>
      rw [hs (Nat.le_trans (size_le_of_execAll hmiddle rest) hn)]
      exact execAll_limit hmiddle rest hn

end

/-! ## Prints -/

/-- Running the statements comes to a print of the value, with the machine as it is right after the
    value was found. The address of the print is its number in the list, or the number of the block
    that it stands in and its address there. -/
inductive ReachesPrint : Machine → List Stmt → List Nat → Value → Machine → Prop
  | here {m after : Machine} {e : Expr} {rest : List Stmt} {value : Value} :
      m.eval e = (.ok value, after) → ReachesPrint m (.print e :: rest) [0] value after
  | inside {m after : Machine} {body rest : List Stmt} {address : List Nat} {value : Value} :
      ReachesPrint m.openScope body address value after →
      ReachesPrint m (.block body :: rest) (0 :: address) value after
  | later {m middle after : Machine} {first : Stmt} {rest : List Stmt} {k : Nat}
      {address : List Nat} {value : Value} :
      first.exec m = (.ok (), middle) → ReachesPrint middle rest (k :: address) value after →
      ReachesPrint m (first :: rest) ((k + 1) :: address) value after

theorem exists_written_of_exec_append {m : Machine} (h : m.output.capacity? = none) (s : Stmt)
    (rest : List Stmt) :
    ∃ more, (execAll m (s :: rest)).2.output.written = (s.exec m).2.output.written ++ more := by
  have hmiddle := (capacity?_exec m s).trans h
  rw [execAll]
  generalize s.exec m = outcome at hmiddle
  obtain ⟨result, middle⟩ := outcome
  cases result with
  | error d => exact ⟨ByteArray.empty, ByteArray.append_empty.symm⟩
  | ok _ => exact exists_written_of_execAll hmiddle rest

namespace ReachesPrint

variable {m after : Machine} {ss : List Stmt} {address : List Nat} {value : Value}

/-- What was written before the print, and what is written in the end. -/
theorem exists_written (h : ReachesPrint m ss address value after)
    (hm : m.output.capacity? = none) :
    m.output.written.size ≤ after.output.written.size ∧
    ∃ more, (execAll m ss).2.output.written =
      after.output.written ++ Machine.printed value ++ more := by
  induction h with
  | @here m after e rest value heval =>
    have houtput : after.output = m.output := congrArg (Machine.output ∘ Prod.snd) heval.symm
    obtain ⟨more, hmore⟩ := exists_written_of_exec_append hm (.print e) rest
    refine ⟨Nat.le_of_eq (by rw [houtput]), more, ?_⟩
    rw [hmore, exec, heval]
    simp only [Machine.print_unlimited (houtput ▸ hm)]
    rfl
  | @inside m after body rest _ value _ ih =>
    obtain ⟨hle, more, hmore⟩ := ih hm
    obtain ⟨others, hothers⟩ := exists_written_of_exec_append hm (.block body) rest
    have hblock : ((block body).exec m).2.output = (execAll m.openScope body).2.output := by
      rw [exec]
      rfl
    refine ⟨hle, more ++ others, ?_⟩
    rw [hothers, hblock, hmore, ByteArray.append_assoc]
  | @later m middle after first rest _ _ value hexec _ ih =>
    have hmiddle : middle.output.capacity? = none := by
      rw [← hm, ← capacity?_exec m first, hexec]
    obtain ⟨hle, more, hmore⟩ := ih hmiddle
    obtain ⟨front, hfront⟩ := exists_written_of_exec hm first
    rw [hexec] at hfront
    refine ⟨Nat.le_trans ?_ hle, more, by rw [execAll_of_ok hexec, hmore]⟩
    rw [hfront, ByteArray.size_append]
    exact Nat.le_add_right _ _

/-- The scopes that are open at the print, beyond those at the start, are those of the blocks that
    it stands in. -/
theorem depth_eq (h : ReachesPrint m ss address value after) :
    after.environment.depth + 1 = m.environment.depth + address.length := by
  induction h with
  | @here m after e _ _ heval =>
    have hdepth := (m.frame_eval e).depth_eq
    rw [heval] at hdepth
    simp [hdepth]
  | @inside m after body rest address value _ ih =>
    have hopen : m.openScope.environment.depth = m.environment.depth + 1 :=
      m.environment.depth_openScope
    rw [ih, hopen, List.length_cons]
    omega
  | @later m middle _ first _ _ _ _ hexec _ ih =>
    have hdepth := (frame_exec m first).depth_eq
    rw [hexec] at hdepth
    rw [ih, hdepth]
    simp

end ReachesPrint

mutual

/-- A statement that writes beyond the first `n` bytes comes to the print that does. -/
theorem exists_crosses_of_exec {m : Machine} {n : Nat} (h : m.output.capacity? = none)
    (hle : m.output.written.size ≤ n) : (s : Stmt) → n < (s.exec m).2.output.written.size →
    ∀ rest, ∃ address value after,
      ReachesPrint m (s :: rest) (0 :: address) value after ∧ after.Crosses n value
  | block body, hlt, rest => by
    rw [exec] at hlt
    obtain ⟨address, value, after, hreaches, hcrosses⟩ :=
      exists_crosses (m := m.openScope) h hle body hlt
    exact ⟨address, value, after, .inside hreaches, hcrosses⟩
  | declare name none, hlt, _ => absurd hle (Nat.not_le_of_lt hlt)
  | declare name (some initializer), hlt, _ => by
    rw [exec] at hlt
    have houtput : (m.eval initializer).2.output = m.output := rfl
    generalize m.eval initializer = outcome at houtput hlt
    obtain ⟨_ | value, after⟩ := outcome <;>
      exact absurd hle (Nat.not_le_of_lt (houtput ▸ hlt))
  | expression e, hlt, _ => by
    rw [exec] at hlt
    have houtput : (m.eval e).2.output = m.output := rfl
    generalize m.eval e = outcome at houtput hlt
    obtain ⟨_ | value, after⟩ := outcome <;>
      exact absurd hle (Nat.not_le_of_lt (houtput ▸ hlt))
  | print e, hlt, rest => by
    rw [exec] at hlt
    have houtput : (m.eval e).2.output = m.output := rfl
    cases heval : m.eval e with
    | mk result after =>
      rw [heval] at houtput hlt
      cases result with
      | error d => exact absurd hle (Nat.not_le_of_lt (houtput ▸ hlt))
      | ok value =>
        simp only [Machine.print_unlimited (houtput ▸ h)] at hlt
        exact ⟨[], value, after, .here heval, houtput ▸ hle, hlt⟩

theorem exists_crosses {m : Machine} {n : Nat} (h : m.output.capacity? = none)
    (hle : m.output.written.size ≤ n) : (ss : List Stmt) →
    n < (execAll m ss).2.output.written.size →
    ∃ address value after, ReachesPrint m ss address value after ∧ after.Crosses n value
  | [], hlt => absurd hle (Nat.not_le_of_lt hlt)
  | s :: rest, hlt => by
    by_cases hs : n < (s.exec m).2.output.written.size
    · obtain ⟨address, value, after, hreaches, hcrosses⟩ := exists_crosses_of_exec h hle s hs rest
      exact ⟨_, value, after, hreaches, hcrosses⟩
    · cases hexec : s.exec m with
      | mk result middle =>
        have hmiddle := (capacity?_exec m s).trans h
        rw [hexec] at hs hmiddle
        rw [execAll, hexec] at hlt
        cases result with
        | error d => exact absurd hlt hs
        | ok _ =>
          obtain ⟨address, value, after, hreaches, hcrosses⟩ :=
            exists_crosses hmiddle (Nat.le_of_not_lt hs) rest hlt
          cases address with
          | nil => cases hreaches
          | cons k address => exact ⟨_, value, after, .later hexec hreaches, hcrosses⟩

end

/-! ## Runs that are cut short -/

/-- At the print that crosses the limit the run ends, and the scopes of the blocks that are open
    there are closed. -/
theorem ReachesPrint.execAll_limit_eq {m after : Machine} {ss : List Stmt} {address : List Nat}
    {value : Value} {n : Nat} (h : ReachesPrint m ss address value after)
    (hm : m.output.capacity? = none) (hcrosses : after.Crosses n value) :
    execAll (m.limit n) ss =
      (.error .outputClosed,
        ⟨⟨after.environment.scopes.take m.environment.depth, m.environment.current⟩,
          ⟨(after.output.written ++ Machine.printed value).extract 0 n, some n⟩⟩) := by
  induction h with
  | @here m after e rest value heval =>
    have hframe := m.frame_eval e
    rw [heval] at hframe
    have hself : after.environment =
        ⟨after.environment.scopes.take m.environment.depth, m.environment.current⟩ := by
      rw [← hframe.depth_eq, ← hframe.current_eq]
      simp [Environment.depth]
    rw [execAll, exec, Machine.eval_limit, heval]
    simp only [Machine.print_limit_of_lt hcrosses.2]
    rw [← hself]
  | @inside m after body rest address value _ ih =>
    have hopen : (m.limit n).openScope = m.openScope.limit n := rfl
    have hbody := ih hm hcrosses
    have hframe := frame_execAll (m.openScope.limit n) body
    rw [hbody] at hframe
    rw [execAll, exec, hopen, hbody]
    simp only [Machine.closeScope]
    rw [hframe.closeScope_eq]
    simp only [Machine.openScope, m.environment.depth_openScope, Array.take_eq_extract,
      Array.extract_extract]
    simp
  | @later m middle after first rest _ _ value hexec hrest ih =>
    have hmiddle : middle.output.capacity? = none := by
      rw [← hm, ← capacity?_exec m first, hexec]
    have hfits : (first.exec m).2.output.written.size ≤ n := by
      rw [hexec]
      exact Nat.le_trans (hrest.exists_written hmiddle).1 hcrosses.1
    have hframe := frame_exec m first
    rw [hexec] at hframe
    have hfirst := exec_limit hm first hfits
    rw [hexec] at hfirst
    rw [execAll_of_ok hfirst, ih hmiddle hcrosses, hframe.depth_eq, hframe.current_eq]

/-- How a run ends that is cut short at the print of the value: with the error of the output, after
    the first `n` of the bytes of the whole run, and with what the scopes that were open at the
    start bind at that print. -/
structure CutShort (env : Environment) (ss : List Stmt) (n : Nat) (address : List Nat)
    (after : Machine) : Prop where
  execAll_eq : execAll ⟨env, .empty (some n)⟩ ss =
    (.error .outputClosed, ⟨⟨after.environment.scopes.take env.depth, env.current⟩,
      ⟨(execAll ⟨env, .empty none⟩ ss).2.output.written.extract 0 n, some n⟩⟩)
  depth_eq : (execAll ⟨env, .empty (some n)⟩ ss).2.environment.depth = env.depth
  current_eq : (execAll ⟨env, .empty (some n)⟩ ss).2.environment.current = env.current
  valueIn_eq : ∀ i < env.depth, ∀ name,
    (execAll ⟨env, .empty (some n)⟩ ss).2.environment.valueIn i name =
      after.environment.valueIn i name
  /-- The scopes that are gone are those of the blocks that the print stands in. -/
  depth_after : after.environment.depth + 1 = env.depth + address.length

/-- Statements run in the same way with an output that takes only `n` bytes as with one that has no
    limit, if that is enough. Otherwise they come to one print that it is not enough for, and there
    the run is cut short, whatever its own result would be: neither a lexeme nor the grammar nor an
    operator or a name is the cause. -/
theorem output_truncated (env : Environment) (ss : List Stmt) (n : Nat) :
    ((execAll ⟨env, .empty none⟩ ss).2.output.written.size ≤ n →
      execAll ⟨env, .empty (some n)⟩ ss =
        ((execAll ⟨env, .empty none⟩ ss).1, (execAll ⟨env, .empty none⟩ ss).2.limit n)) ∧
    (n < (execAll ⟨env, .empty none⟩ ss).2.output.written.size →
      (∃ address value after,
        ReachesPrint ⟨env, .empty none⟩ ss address value after ∧ after.Crosses n value) ∧
      ∀ address value after, ReachesPrint ⟨env, .empty none⟩ ss address value after →
        after.Crosses n value → CutShort env ss n address after) ∧
    Diagnostic.outputClosed.stage = .writing := by
  have hlimit : (⟨env, .empty (some n)⟩ : Machine) = Machine.limit n ⟨env, .empty none⟩ := rfl
  refine ⟨fun hle => ?_, fun hlt => ⟨?_, ?_⟩, rfl⟩
  · rw [hlimit]
    exact execAll_limit rfl ss hle
  · exact exists_crosses rfl (Nat.zero_le n) ss hlt
  · intro address value after hreaches hcrosses
    have hframe := frame_execAll ⟨env, .empty (some n)⟩ ss
    have hexec := hreaches.execAll_limit_eq rfl hcrosses
    rw [← hlimit] at hexec
    obtain ⟨-, more, hmore⟩ := hreaches.exists_written rfl
    have hwritten : (execAll ⟨env, .empty none⟩ ss).2.output.written.extract 0 n =
        (after.output.written ++ Machine.printed value).extract 0 n := by
      have hnone : n - (after.output.written ++ Machine.printed value).size = 0 :=
        Nat.sub_eq_zero_of_le (Nat.le_of_lt hcrosses.2)
      rw [hmore, ByteArray.extract_append, hnone]
      simp
    refine ⟨by rw [hexec, hwritten], hframe.depth_eq, hframe.current_eq, ?_,
      hreaches.depth_eq⟩
    intro i hi name
    rw [hexec]
    simp only [Environment.valueIn_take, if_pos hi]

end Stmt

end BlockScript
