import BlockScript.Proofs.Checked
import BlockScript.Proofs.Failure
import BlockScript.Proofs.Parse.Unread
import BlockScript.Proofs.Scan.Concatenation

/-!
# No source brings about an internal failure

What one stage relies on is established by the one before it. Scanning ends with the mark of the
end, which no reading takes, so that tokens never run out. Whatever is read has operators where
operators have to be, and the machines that evaluate it have well formed environments, so that
evaluation neither lacks an operator nor leaves the open scopes. Each stage reports faults of its
own only (`Session.no_internal_failure`).
-/

namespace BlockScript

/-! ## Trees that are read -/

namespace Expr

/-- The operators of the grammar are operators. -/
theorem Derives.wellFormed {level : Level} {ts : List Token} {e : Expr} (h : Derives level ts e) :
    e.WellFormed := by
  induction h with
  | next _ ih => exact ih
  | assign _ _ _ ih => exact ih
  | binary hop _ _ ihl ihr =>
    obtain ⟨op, hkind, -⟩ := Level.exists_ofKind?_eq_some hop
    exact ⟨ihl, Option.isSome_iff_exists.mpr ⟨op, hkind⟩, ihr⟩
  | unary hop _ ih =>
    refine ⟨?_, ih⟩
    rcases hop with hop | hop <;> rw [hop] <;> rfl
  | literal => trivial
  | var => trivial
  | grouping _ _ _ ih => exact ih

/-- Whatever the tokens are, an expression that is read from them is well formed. -/
theorem wellFormed_of_parse {ts : List Token} {e : Expr} (h : (parse ts).1 = .ok e) :
    e.WellFormed := by
  obtain ⟨us, -, he⟩ := derives_of_parse (Prod.ext h rfl : parse ts = (.ok e, (parse ts).2))
  exact he.wellFormed

end Expr

namespace Stmt

mutual

theorem Derives.wellFormed {ts : List Token} {s : Stmt} : Derives ts s → s.WellFormed
  | .declare _ _ _ => trivial
  | .define _ _ _ he _ => he.wellFormed
  | .print _ he _ => he.wellFormed
  | .block _ _ hbody => hbody.wellFormed
  | .expression he _ => he.wellFormed

theorem DerivesAll.wellFormed {ts : List Token} {ss : List Stmt} :
    DerivesAll ts ss → AllWellFormed ss
  | .nil => trivial
  | .cons hs hss => ⟨hs.wellFormed, hss.wellFormed⟩

end

/-- The statement was read from some tokens, by itself or with all others. -/
def IsRead (s : Stmt) : Prop := ∃ ts, (parse ts).1 = .ok s ∨ .ok s ∈ (parseAll ts).1

/-- Whatever the tokens are, a statement that is read from them is well formed. -/
theorem IsRead.wellFormed {s : Stmt} (h : s.IsRead) : s.WellFormed := by
  have hparse : ∀ {ts}, (parse ts).1 = .ok s → s.WellFormed := by
    intro ts hts
    obtain ⟨us, -, hs⟩ := derives_of_parse (Prod.ext hts rfl : parse ts = (.ok s, (parse ts).2))
    exact hs.wellFormed
  obtain ⟨ts, hts | hts⟩ := h
  · exact hparse hts
  · obtain ⟨us, -, hus⟩ := exists_parse_of_mem_parseAll hts
    exact hparse hus

theorem allWellFormed_of_isRead {ss : List Stmt} (h : ∀ s ∈ ss, s.IsRead) : AllWellFormed ss := by
  induction ss with
  | nil => trivial
  | cons s ss ih =>
    exact ⟨(h s List.mem_cons_self).wellFormed, ih fun t ht => h t (List.mem_cons_of_mem s ht)⟩

end Stmt

/-! ## Scanning -/

theorem Diagnostic.mem_ofResults {α : Type} {results : List (Except Diagnostic α)}
    {d : Diagnostic} : d ∈ ofResults results ↔ .error d ∈ results := by
  rw [ofResults, List.mem_filterMap]
  constructor
  · rintro ⟨result, hresult, hd⟩
    cases result with
    | ok a => cases hd
    | error other =>
      obtain rfl := Option.some.inj hd
      exact hresult
  · intro hresult
    exact ⟨.error d, hresult, rfl⟩

/-- The bytes of the lexeme from the second one to the last but one are `contents`: the two places
    are in order and lie between characters. -/
structure Token.Slices (t : Token) (contents : String) : Prop where
  le : 1 ≤ t.lexeme.utf8ByteSize - 1
  isValid_start : String.Pos.Raw.IsValid t.lexeme ⟨1⟩
  isValid_stop : String.Pos.Raw.IsValid t.lexeme ⟨t.lexeme.utf8ByteSize - 1⟩
  extract_eq : t.lexeme.toByteArray.extract 1 (t.lexeme.utf8ByteSize - 1) = contents.toByteArray

theorem Token.slices_of_quoted {t : Token} {contents : String}
    (h : t.lexeme = "\"" ++ contents ++ "\"") : t.Slices contents := by
  have hquote : ("\"" : String).utf8ByteSize = 1 := rfl
  have hsize : t.lexeme.utf8ByteSize - 1 = contents.utf8ByteSize + 1 := by
    rw [h, String.utf8ByteSize_append, String.utf8ByteSize_append, hquote]
    omega
  have hquoted : ("\"" ++ contents).utf8ByteSize = contents.utf8ByteSize + 1 := by
    rw [String.utf8ByteSize_append, hquote, Nat.add_comm]
  refine ⟨by omega, ?_, ?_, ?_⟩
  · apply String.Pos.Raw.isValid_iff_exists_append.mpr
    exact ⟨"\"", contents ++ "\"", by rw [h, String.append_assoc], rfl⟩
  · apply String.Pos.Raw.isValid_iff_exists_append.mpr
    refine ⟨"\"" ++ contents, "\"", h, ?_⟩
    rw [hsize, ← hquoted]
    rfl
  · have hfront : ("\"" : String).toByteArray.extract 1 (contents.utf8ByteSize + 1) =
        ByteArray.empty := by
      rw [ByteArray.extract_eq_empty_iff, String.size_toByteArray, hquote]
      omega
    rw [hsize, h, String.append_assoc, String.toByteArray_append, ByteArray.extract_append,
      hfront, ByteArray.empty_append, String.size_toByteArray, hquote, Nat.sub_self,
      Nat.add_sub_cancel, String.toByteArray_append]
    exact ByteArray.extract_append_eq_left String.size_toByteArray.symm

namespace Scan

open Piece (First)

theorem mem_tokens {source : String} {t : Token} :
    t ∈ (ofSource source).tokens ↔ .ok t ∈ items source ∨ t = endToken source := by
  rw [ofSource, List.mem_append, List.mem_singleton, List.mem_filterMap]
  constructor
  · rintro (⟨item, hitem, ht⟩ | ht)
    · cases item with
      | error d => cases ht
      | ok u =>
        obtain rfl := Option.some.inj ht
        exact .inl hitem
    · exact .inr ht
  · rintro (hitem | ht)
    · exact .inl ⟨.ok t, hitem, rfl⟩
    · exact .inr ht

theorem mem_diagnostics {source : String} {d : Diagnostic} :
    d ∈ (ofSource source).diagnostics ↔ .error d ∈ items source :=
  Diagnostic.mem_ofResults

/-- Only a string makes a token with contents, and it is the contents between quotes. -/
theorem eq_quoted_of_makes {cls : Piece.LexemeClass} {text : List Char} {contents : String}
    (h : Piece.Makes cls text (.string contents)) :
    String.ofList text = "\"" ++ contents ++ "\"" := by
  generalize hkind : Token.Kind.string contents = kind at h
  cases h with
  | operator hmem =>
    have hall : ∀ entry ∈ Piece.operators, entry.2.literal? = none := by decide
    have hnone := hall _ hmem
    rw [← hkind] at hnone
    cases hnone
  | keyword hmem =>
    have hall : ∀ entry ∈ Token.Kind.keywords, entry.2.literal? = none := by decide
    have hnone := hall _ hmem
    rw [← hkind] at hnone
    cases hnone
  | numeral | name => cases hkind
  | string =>
    cases hkind
    rw [String.ofList_cons, String.ofList_append, String.append_assoc]
    rfl

theorem slices_of_mem_tokens {source : String} {t : Token} {contents : String}
    (ht : t ∈ (ofSource source).tokens) (hkind : t.kind = .string contents) :
    t.Slices contents := by
  rcases mem_tokens.mp ht with ht | rfl
  · obtain ⟨rest, hfirst⟩ := (lexes_itemsAt .start source.toList).exists_first ht
    rw [hkind] at hfirst
    generalize htext : t.lexeme.toList = text at hfirst
    cases hfirst with
    | token _ _ hmakes =>
      have hlexeme := eq_quoted_of_makes hmakes
      rw [← htext, String.ofList_toList] at hlexeme
      exact Token.slices_of_quoted hlexeme
  · cases hkind

/-- The text that is reported begins no token, and is not a number that cannot be read. -/
theorem Lexes.lexical {p : Position} {cs : List Char} {items : List (Except Diagnostic Token)}
    (h : Lexes p cs items) {d : Diagnostic} (hd : .error d ∈ items) :
    ∃ q fault, d = .lexical q fault ∧ ∀ lexeme, fault ≠ .unreadableNumber lexeme := by
  induction h with
  | done => cases hd
  | skip _ _ ih => exact ih hd
  | token _ _ ih =>
    rcases List.mem_cons.mp hd with heq | hd
    · cases heq
    · exact ih hd
  | fault hfirst _ ih =>
    rcases List.mem_cons.mp hd with heq | hd
    · obtain rfl := Except.error.inj heq
      refine ⟨_, _, rfl, ?_⟩
      rintro lexeme rfl
      cases hfirst
    · exact ih hd

end Scan

/-! ## Reading -/

/-- What may be left of the tokens of a source after any number of attempts to read an expression,
    a statement, or all statements. -/
inductive Program.Unread (source : String) : List Token → Prop
  | start : Unread source (Scan.ofSource source).tokens
  | expression {ts : List Token} : Unread source ts → Unread source (Expr.parse ts).2
  | statement {ts : List Token} : Unread source ts → Unread source (Stmt.parse ts).2
  | all {ts : List Token} : Unread source ts → Unread source (Stmt.parseAll ts).2

namespace Program.Unread

variable {source : String} {ts : List Token}

theorem leaves (h : Unread source ts) : Token.Leaves (Scan.ofSource source).tokens ts := by
  induction h with
  | start => exact .refl _
  | expression _ ih => exact ih.trans (Expr.leaves_parse _)
  | statement _ ih => exact ih.trans (Stmt.leaves_parse _)
  | all _ ih => exact ih.trans (Stmt.leaves_parseAll _)

theorem endToken_mem (h : Unread source ts) : Scan.endToken source ∈ ts :=
  h.leaves.mem_of_isEnd (Scan.mem_tokens.mpr (.inr rfl)) rfl

/-- The mark of the end is always left, as the last token. -/
theorem exists_append_endToken (h : Unread source ts) :
    ∃ front, ts = front ++ [Scan.endToken source] := by
  obtain ⟨read, heq, -⟩ := h.leaves
  rcases List.eq_nil_or_concat ts with rfl | ⟨front, last, rfl⟩
  · cases h.endToken_mem
  · rw [List.concat_eq_append] at heq ⊢
    have heq : (Scan.items source).filterMap Except.toOption ++ [Scan.endToken source] =
        read ++ front ++ [last] := by
      rw [List.append_assoc]
      exact heq
    obtain ⟨-, hlast⟩ := List.append_inj' heq rfl
    exact ⟨front, by rw [hlast]⟩

/-- Whatever was read before, a fault is found at one of the tokens. -/
theorem exists_syntactic (h : Unread source ts) {d : Diagnostic}
    (hd : (Expr.parse ts).1 = .error d ∨ (Stmt.parse ts).1 = .error d ∨
      .error d ∈ (Stmt.parseAll ts).1) : ∃ t ∈ ts, ∃ fault, d = .syntactic t fault := by
  have hend := h.endToken_mem
  rcases hd with hd | hd | hd
  · rcases Expr.exists_syntactic_of_parse hd with hsyntactic | ⟨-, hnone⟩
    · exact hsyntactic
    · cases hnone _ hend
  · exact Stmt.exists_syntactic_of_mem hend rfl hd
  · obtain ⟨us, hus, hparse⟩ := Stmt.exists_parse_of_mem_parseAll hd
    obtain ⟨t, ht, hsyntactic⟩ :=
      Stmt.exists_syntactic_of_mem (hus.mem_of_isEnd hend rfl) rfl hparse
    exact ⟨t, hus.suffix.subset ht, hsyntactic⟩

end Program.Unread

/-! ## Evaluating and running -/

variable {m : Machine}

theorem Machine.runtime_of_eval {e : Expr} (he : e.WellFormed) {d : Diagnostic}
    (hd : (m.eval e).1 = .error d) :
    ∃ t fault, d = .runtime t fault ∧ fault ≠ .unknownOperator := by
  obtain ⟨t, -, fault, ht, hknown⟩ := Expr.exists_runtime_of_eval hd
  exact ⟨t, fault, ht, hknown he⟩

theorem Stmt.runtime_of_execAll {ss : List Stmt} (hss : AllWellFormed ss) {d : Diagnostic}
    (hd : (execAll m ss).1 = .error d) :
    (∃ t fault, d = .runtime t fault ∧ fault ≠ .unknownOperator) ∨ d = .outputClosed := by
  obtain ⟨address, s, hfails⟩ := execAll_eq_error_iff.mp hd
  rcases hfails.exists_runtime with ⟨t, -, fault, ht, hknown⟩ | ⟨hclosed, -⟩
  · exact .inl ⟨t, fault, ht, hknown (hfails.wellFormed hss)⟩
  · exact .inr hclosed

/-- Nothing fails inside while a source is scanned, the tokens are read and what is read is
    evaluated and run by the machine, and each stage reports faults of its own only. -/
structure Session.Sound (source : String) (m : Machine) : Prop where
  /-- The contents of a string literal are taken from between two places that are in order and lie
      between characters. -/
  slices : ∀ t ∈ (Scan.ofSource source).tokens, ∀ contents, t.kind = .string contents →
    t.Slices contents
  /-- Scanning reports lexical faults, and never a number that cannot be read. -/
  scanning : ∀ d ∈ (Scan.ofSource source).diagnostics,
    ∃ p fault, d = .lexical p fault ∧ ∀ lexeme, fault ≠ .unreadableNumber lexeme
  /-- However the tokens are read, none that marks the end is taken, and the one at the end of the
      source is left. -/
  unread : ∀ ts, Program.Unread source ts →
    Token.Leaves (Scan.ofSource source).tokens ts ∧ ∃ front, ts = front ++ [Scan.endToken source]
  /-- Reading reports tokens that do not fit, and never that there are none left. -/
  reading : ∀ ts, Program.Unread source ts → ∀ d, (Expr.parse ts).1 = .error d ∨
    (Stmt.parse ts).1 = .error d ∨ .error d ∈ (Stmt.parseAll ts).1 →
    ∃ t fault, d = .syntactic t fault
  /-- An expression that was read, of any source and even of tokens that no source has, has
      operators for its operations. It is evaluated without leaving the open scopes, and fails at
      an operator or a name. -/
  evaluating : ∀ ts e, (Expr.parse ts).1 = .ok e → e.WellFormed ∧
    m.evalChecked e = some (m.eval e) ∧
    ∀ d, (m.eval e).1 = .error d → ∃ t fault, d = .runtime t fault ∧ fault ≠ .unknownOperator
  /-- Statements that were read have operators for their operations. They run without leaving the
      open scopes, and fail at an operator or a name, or because not all of a print was taken. -/
  running : ∀ ss, (∀ s ∈ ss, s.IsRead) → Stmt.AllWellFormed ss ∧
    Stmt.execAllChecked m ss = some (Stmt.execAll m ss) ∧
    ∀ d, (Stmt.execAll m ss).1 = .error d →
      (∃ t fault, d = .runtime t fault ∧ fault ≠ .unknownOperator) ∨ d = .outputClosed
  /-- There is always a global scope. -/
  global : 0 < m.environment.depth

theorem Session.no_internal_failure (source : String) (hm : m.Reachable) : Sound source m where
  slices _ ht _ := Scan.slices_of_mem_tokens ht
  scanning _ hd :=
    (Scan.lexes_itemsAt .start source.toList).lexical (Scan.mem_diagnostics.mp hd)
  unread _ hts := ⟨hts.leaves, hts.exists_append_endToken⟩
  reading _ hts _ hd := by
    obtain ⟨t, -, fault, ht⟩ := hts.exists_syntactic hd
    exact ⟨t, fault, ht⟩
  evaluating _ _ he := by
    have hread := Expr.wellFormed_of_parse he
    exact ⟨hread, Machine.evalChecked_eq hm.wellFormed hread,
      fun d => Machine.runtime_of_eval hread⟩
  running ss hss := by
    have hread := Stmt.allWellFormed_of_isRead hss
    exact ⟨hread, Stmt.execAllChecked_eq hm.wellFormed ss hread,
      fun d => Stmt.runtime_of_execAll hread⟩
  global := Nat.zero_lt_of_lt hm.wellFormed.current_lt

/-- In `print "é";` the quotes take one byte each and the letter two. -/
theorem Session.no_internal_failure_string :
    (Machine.new none).Reachable ∧
    Token.Slices ⟨.string "é", "\"é\"", ⟨1, 7⟩⟩ "é" ∧
    Stmt.execAllChecked (.new none) [.print (.literal (.string "é"))] =
      some (Stmt.execAll (.new none) [.print (.literal (.string "é"))]) := by
  have hsound := no_internal_failure "print \"é\";" (.new none)
  have hread : ∀ s ∈ [Stmt.print (.literal (.string "é"))], s.IsRead := by
    intro s hs
    rw [List.mem_singleton.mp hs]
    exact ⟨[⟨.kwPrint, "print", ⟨1, 1⟩⟩, ⟨.string "é", "\"é\"", ⟨1, 7⟩⟩,
      ⟨.semicolon, ";", ⟨1, 10⟩⟩], .inl rfl⟩
  exact ⟨.new none, hsound.slices _ (by decide +kernel) _ rfl, (hsound.running _ hread).2.1⟩

end BlockScript
