import BlockScript.Proofs.Lines
import BlockScript.Proofs.Parse.Exactness
import BlockScript.Proofs.Scan.Concatenation

/-!
# Programs of several lines

A source without a static fault is one whose tokens are statements of the grammar
(`Program.ofSource_eq_ok_iff`). Lines of which each is such a source make up one together, and its
statements are those of the lines, but that they stand on the later lines
(`Program.ofSource_join`).
-/

namespace BlockScript

/-- The same column of the line `n`. -/
def Position.onLine (n : Nat) (p : Position) : Position := ⟨n, p.column⟩

theorem Position.onLine_advance (n : Nat) {c : Char} (hc : c ≠ '\n') (p : Position) :
    (p.advance c).onLine n = (p.onLine n).advance c := by
  rw [advance, advance, if_neg hc, if_neg hc]
  rfl

/-! ## Sources without a static fault -/

theorem Piece.Makes.ne_endOfFile {cls : LexemeClass} {text : List Char} {kind : Token.Kind}
    (h : Makes cls text kind) : kind ≠ .endOfFile := by
  cases h with
  | operator hmem =>
    have hall : ∀ entry ∈ operators, entry.2 ≠ .endOfFile := by decide
    exact hall _ hmem
  | keyword hmem =>
    have hall : ∀ entry ∈ Token.Kind.keywords, entry.2 ≠ .endOfFile := by decide
    exact hall _ hmem
  | numeral | name | string =>
    intro heq
    cases heq

/-- The mark of the end is no lexeme. -/
theorem Piece.First.kind_ne_endOfFile {text rest : List Char} {kind : Token.Kind}
    (h : First text rest (.token kind)) : kind ≠ .endOfFile := by
  cases h with
  | token _ _ hmakes => exact hmakes.ne_endOfFile

namespace Scan

theorem isEnd_eq_false_of_items {source : String} {ts : List Token}
    (h : items source = ts.map .ok) : ∀ t ∈ ts, t.isEnd = false := by
  intro t ht
  obtain ⟨rest, hfirst⟩ := exists_first_of_items h ht
  exact decide_eq_false hfirst.kind_ne_endOfFile

end Scan

namespace Program

open Stmt (DerivesAll)

theorem ofTokens_eq_ok_iff {ts : List Token} {program : List Stmt} :
    ofTokens ts = .ok program ↔ DerivesAll (Stmt.beforeEnd ts) program := by
  have hread : ∀ ss : List Stmt, DerivesAll (Stmt.beforeEnd ts) ss → ofTokens ts = .ok ss := by
    intro ss hss
    simp only [ofTokens, Stmt.parseAll_of_derivesAll hss, Diagnostic.ofResults_map_ok,
      Diagnostic.filterMap_toOption_map_ok]
    rfl
  constructor
  · intro h
    have hnone : Diagnostic.ofResults (Stmt.parseAll ts).1 = [] := by
      unfold ofTokens at h
      simp only at h
      split at h
      · rename_i hempty
        exact List.isEmpty_iff.mp hempty
      · cases h
    obtain ⟨results, hresults⟩ := Diagnostic.exists_map_ok_of_ofResults hnone
    obtain ⟨ss, hss⟩ := Stmt.exists_derivesAll_of_parseAll ts (by rw [hresults]; simp)
    obtain rfl := Except.ok.inj ((hread ss hss).symm.trans h)
    exact hss
  · exact hread program

theorem beforeEnd_of_items {source : String} {ts : List Token}
    (h : Scan.items source = ts.map .ok) :
    Stmt.beforeEnd (ts ++ [Scan.endToken source]) = ts := by
  have hend : Stmt.beforeEnd [Scan.endToken source] = [] := Stmt.beforeEnd_eq_nil rfl
  rw [Stmt.beforeEnd_append _ (Scan.isEnd_eq_false_of_items h), hend, List.append_nil]

/-- A source has no static fault if and only if its tokens are statements of the grammar. -/
theorem ofSource_eq_ok_iff {source : String} {program : List Stmt} :
    ofSource source = .ok program ↔
      ∃ ts : List Token, Scan.items source = ts.map .ok ∧ DerivesAll ts program := by
  constructor
  · intro h
    have hscan : (Scan.ofSource source).diagnostics = [] := by
      unfold ofSource at h
      split at h
      · cases h
      · rename_i htokens
        unfold tokens at htokens
        simp only at htokens
        split at htokens
        · rename_i hempty
          exact List.isEmpty_iff.mp hempty
        · cases htokens
    obtain ⟨ts, hts⟩ := Scan.exists_tokens_of_diagnostics hscan
    rw [ofSource_of_items hts, ofTokens_eq_ok_iff, beforeEnd_of_items hts] at h
    exact ⟨ts, hts, h⟩
  · rintro ⟨ts, hts, hprogram⟩
    rw [ofSource_of_items hts, ofTokens_eq_ok_iff, beforeEnd_of_items hts]
    exact hprogram

end Program

/-! ## Lines -/

namespace Stmt

theorem DerivesAll.parseAll_eq {ts : List Token} {ss : List Stmt} (h : DerivesAll ts ss) :
    parseAll ts = (ss.map .ok, []) := by
  have hread : parseAll (ts ++ []) = (ss.map .ok, []) := h.parseAll_append rfl
  rwa [List.append_nil] at hread

/-- Statements of the grammar stay what they are when their tokens are moved. -/
theorem DerivesAll.move (g : Position → Position) {ts : List Token} {ss : List Stmt}
    (h : DerivesAll ts ss) : DerivesAll (ts.map (Token.move g)) (ss.map (Stmt.move g)) := by
  have hend : beforeEnd (ts.map (Token.move g)) = ts.map (Token.move g) := by
    have hmoved : ∀ t ∈ ts.map (Token.move g), t.isEnd = false := by
      intro t ht
      obtain ⟨u, hu, rfl⟩ := List.mem_map.mp ht
      exact h.isEnd_eq_false u hu
    have happend := beforeEnd_append [] hmoved
    rw [List.append_nil] at happend
    rw [happend]
    exact List.append_nil _
  -- Reading is exact, so that it is enough to see how the moved tokens are read.
  have hread : (parseAll (ts.map (Token.move g))).1 = (ss.map (Stmt.move g)).map .ok := by
    rw [parseAll_move, h.parseAll_eq, List.map_map, List.map_map]
    rfl
  obtain ⟨others, hothers⟩ := exists_derivesAll_of_parseAll (ts.map (Token.move g)) (by
    rw [hread]
    simp)
  have hresults := (parseAll_of_derivesAll hothers).symm.trans hread
  rw [hend] at hothers
  rwa [(List.map_inj_right fun _ _ => Except.ok.inj).mp hresults] at hothers

end Stmt

namespace Scan

/-- What stands in a line is the same wherever the line is. -/
theorem itemsAt_onLine {cs : List Char} (h : '\n' ∉ cs) (n : Nat) :
    itemsAt ⟨n, 1⟩ cs = (itemsAt .start cs).map (moveItem (Position.onLine n)) := by
  have hmove : ∀ c ∈ cs, ∀ p : Position, (p.advance c).onLine n = (p.onLine n).advance c := by
    intro c hc p
    refine Position.onLine_advance n ?_ p
    rintro rfl
    exact h hc
  exact itemsAt_move (p := .start) hmove

theorem map_moveItem_ok (g : Position → Position) (ts : List Token) :
    (ts.map .ok).map (moveItem g) = (ts.map (Token.move g)).map .ok := by
  rw [List.map_map, List.map_map]
  rfl

/-- A line without a lexical fault, and what follows it. -/
theorem itemsAt_line {cs : List Char} {ts : List Token} (h : '\n' ∉ cs)
    (hts : itemsAt .start (cs ++ ['\n']) = ts.map .ok) (n : Nat) (more : List Char) :
    itemsAt ⟨n, 1⟩ (cs ++ '\n' :: more) =
      (ts.map (Token.move (Position.onLine n))).map .ok ++ itemsAt ⟨n + 1, 1⟩ more := by
  have hclosed : ∀ q, .error (.lexical q .unterminatedString) ∉ itemsAt .start (cs ++ ['\n']) := by
    rw [hts]
    simp
  have hbody := (itemsAt_append_line [] hclosed).1
  have hmoved : itemsAt ⟨n, 1⟩ cs = (ts.map (Token.move (Position.onLine n))).map .ok := by
    rw [itemsAt_onLine h, ← hbody, hts, map_moveItem_ok]
  rw [itemsAt_append_newline more (by rw [hmoved]; simp), hmoved, Position.after_newline,
    List.count_eq_zero.mpr h]

end Scan

namespace Program

open Stmt (DerivesAll)

/-- The statements of programs of which each stands on a line, the first on the line `n`. -/
def joined : Nat → List (List Stmt) → List Stmt
  | _, [] => []
  | n, program :: rest => program.map (Stmt.move (Position.onLine n)) ++ joined (n + 1) rest

theorem exists_tokens_join {lines : List String} {programs : List (List Stmt)}
    (h : Text.IsLines lines) (hprograms : lines.map ofSource = programs.map .ok) (n : Nat) :
    ∃ ts : List Token, Scan.itemsAt ⟨n, 1⟩ (String.join lines).toList = ts.map .ok ∧
      DerivesAll ts (joined n programs) := by
  induction h generalizing programs n with
  | nil =>
    obtain rfl := List.map_eq_nil_iff.mp hprograms.symm
    exact ⟨[], by simp, .nil⟩
  | @last line _ hline =>
    obtain ⟨program, rest, rfl, hprogram, hrest⟩ := List.map_eq_cons_iff.mp hprograms.symm
    obtain rfl := List.map_eq_nil_iff.mp hrest
    obtain ⟨ts, hts, hderives⟩ := ofSource_eq_ok_iff.mp hprogram.symm
    refine ⟨ts.map (Token.move (Position.onLine n)), ?_, ?_⟩
    · have hitems : Scan.itemsAt .start line.toList = ts.map .ok := hts
      rw [String.join_cons, String.join_nil, String.append_empty, Scan.itemsAt_onLine hline,
        hitems, Scan.map_moveItem_ok]
    · simp only [joined, List.append_nil]
      exact hderives.move _
  | @cons body rest hbody _ ih =>
    obtain ⟨program, others, rfl, hprogram, hrest⟩ := List.map_eq_cons_iff.mp hprograms.symm
    obtain ⟨ts, hts, hderives⟩ := ofSource_eq_ok_iff.mp hprogram.symm
    obtain ⟨us, hus, hothers⟩ := ih hrest.symm (n + 1)
    have hitems : Scan.itemsAt .start (body.toList ++ ['\n']) = ts.map .ok := by
      rw [← hts, Scan.items, Scan.itemsAt, String.toList_append]
      rfl
    refine ⟨ts.map (Token.move (Position.onLine n)) ++ us, ?_, (hderives.move _).append hothers⟩
    have htext : (String.join ((body ++ "\n") :: rest)).toList =
        body.toList ++ '\n' :: (String.join rest).toList := by
      rw [String.join_cons, String.toList_append, String.toList_append, List.append_assoc]
      rfl
    rw [htext, Scan.itemsAt_line hbody hitems, hus, List.map_append]

/-- The statements of lines one after the other, of which each has no static fault, are those of
    the lines. -/
theorem ofSource_join {lines : List String} {programs : List (List Stmt)}
    (h : Text.IsLines lines) (hprograms : lines.map ofSource = programs.map .ok) :
    ofSource (String.join lines) = .ok (joined 1 programs) :=
  ofSource_eq_ok_iff.mpr (exists_tokens_join h hprograms 1)

/-- Everything in a line by itself is on line 1. -/
theorem onLine_one {line : String} {program : List Stmt} (h : Text.IsLines [line])
    (hprogram : ofSource line = .ok program) :
    program.map (Stmt.move (Position.onLine 1)) = program := by
  have hprograms : [line].map ofSource = [program].map .ok := congrArg ([·]) hprogram
  have hjoin := ofSource_join h hprograms
  simp only [String.join_cons, String.join_nil, String.append_empty, hprogram, joined,
    List.append_nil] at hjoin
  exact (Except.ok.inj hjoin).symm

end Program

end BlockScript
