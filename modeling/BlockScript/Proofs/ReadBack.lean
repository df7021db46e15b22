import BlockScript.Proofs.Number.Numeral
import BlockScript.Proofs.ProgramLines
import BlockScript.Proofs.ScopeFrame

/-!
# Values are read back from their text

`Value.source` is the text of a value as it is written in a source: what is printed for it, and for
a string that in double quotes. Nil, a boolean, a finite number and a string without a double quote
have such a text that is an expression with this value (`Value.exists_readAs`). A declaration with
it for an initializer binds the name to the value again, with no difference in any bit of a number
(`Value.read_back`).
-/

namespace BlockScript

open Piece (First IsLexeme LexemeClass Makes operators)

/-! ## One token after the other -/

/-- A lexeme is what stands in front of a text where nothing else follows. -/
theorem Piece.IsLexeme.first {text : List Char} {cls : LexemeClass} {kind : Token.Kind}
    (h : IsLexeme text cls) (hmakes : Makes cls text kind) : First text [] (.token kind) := by
  refine .token ?_ ⟨h, ?_⟩ hmakes
  · rw [List.append_nil]
    intro hfront
    cases h with
    | operator hmem =>
      have hall : ∀ entry ∈ operators, ¬ ['/', '/'] <+: entry.1 := by decide
      exact hall _ hmem hfront
    | numeral hnumeral =>
      obtain ⟨c, cs, rfl, hc⟩ := hnumeral.exists_cons
      obtain ⟨rfl, -⟩ := List.cons_prefix_cons.mp hfront
      cases hc
    | word hletter =>
      obtain ⟨rfl, -⟩ := List.cons_prefix_cons.mp hfront
      exact absurd hletter (by decide)
    | string =>
      obtain ⟨heq, -⟩ := List.cons_prefix_cons.mp hfront
      cases heq
  · intro other _ hfront _
    rw [List.append_nil] at hfront
    exact hfront.length_le

/-- A word of letters is a token by itself, a keyword or a name. -/
theorem Piece.first_letters {text : List Char} (hne : text ≠ [])
    (hletters : text.all Piece.isWordStart = true) :
    First text [] (.token (.ofWord (String.ofList text))) := by
  have hall : ∀ c ∈ text, Piece.IsLetter c := fun c hc =>
    Piece.isWordStart_iff.mp (List.all_eq_true.mp hletters c hc)
  obtain ⟨c, cs, rfl⟩ := List.exists_cons_of_ne_nil hne
  have hlexeme : IsLexeme (c :: cs) .word :=
    .word (hall c List.mem_cons_self) fun d hd => .inl (hall d (List.mem_cons_of_mem c hd))
  exact hlexeme.first (Piece.makes_ofWord (c :: cs))

theorem Piece.first_keyword {word : String} {kind : Token.Kind}
    (h : (word, kind) ∈ Token.Kind.keywords) : First word.toList [] (.token kind) := by
  have hall : ∀ entry ∈ Token.Kind.keywords,
      entry.1.toList ≠ [] ∧ entry.1.toList.all Piece.isWordStart = true := by
    decide
  obtain ⟨hne, hletters⟩ := hall _ h
  have hfirst := Piece.first_letters hne hletters
  rwa [String.ofList_toList, Token.Kind.ofWord, Piece.lookup_of_mem_keywords h] at hfirst

theorem Piece.first_operator {text : List Char} {kind : Token.Kind} (h : (text, kind) ∈ operators) :
    First text [] (.token kind) :=
  (IsLexeme.operator h).first (.operator h)

namespace Scan

theorem itemsAt_token {p : Position} {text rest : List Char} {kind : Token.Kind}
    (h : First text rest (.token kind)) :
    itemsAt p (text ++ rest) =
      .ok ⟨kind, String.ofList text, p⟩ :: itemsAt (p.after text) rest :=
  itemsAt_append h

/-- A token with a blank after it. -/
theorem itemsAt_token_blank {p : Position} {text : List Char} {kind : Token.Kind}
    (h : First text [] (.token kind)) (rest : List Char) :
    itemsAt p (text ++ ' ' :: rest) =
      .ok ⟨kind, String.ofList text, p⟩ :: itemsAt ((p.after text).after [' ']) rest := by
  have hblank : First [' '] rest .blank := .blank (by decide)
  have htoken : First text (' ' :: rest) (.token kind) := h.append_blank (by decide) rest
  rw [itemsAt_token htoken]
  exact congrArg _ (itemsAt_append hblank)

theorem itemsAt_semicolon (p : Position) :
    itemsAt p [';'] = [.ok ⟨.semicolon, ";", p⟩] := by
  have hfirst : First [';'] [] (.token .semicolon) := Piece.first_operator (by decide)
  have hitems := itemsAt_token (p := p) hfirst
  rw [List.append_nil, itemsAt_nil] at hitems
  exact hitems

end Scan

/-! ## The text of a value in a source -/

namespace Value

/-- The text of a value as it is written in a source. -/
def source : Value → String
  | .string s => "\"" ++ s ++ "\""
  | value => value.text

/-- There is a text in a source that stands for the value. -/
def IsReadable : Value → Prop
  | .nil | .boolean _ => True
  | .number x => x.isFinite = true
  | .string s => '"' ∉ s.toList

/-- A source that declares `r` with the value. -/
def declaration (v : Value) : String := "var r = " ++ v.source ++ ";"

/-- At the place `p` and with a semicolon after it, the text of the value is scanned as the tokens
    `ts`, which are those of the expression `e`. That has the value everywhere. -/
structure ReadAs (v : Value) (p : Position) (ts : List Token) (e : Expr) : Prop where
  items_eq : ∀ rest, Scan.itemsAt p (v.source.toList ++ ';' :: rest) =
    ts.map .ok ++ Scan.itemsAt (p.after v.source.toList) (';' :: rest)
  derives : e.Derives .assignment ts
  eval_eq : ∀ env, e.eval env = (.ok v, env)

theorem exists_readAs_literal {v : Value} {kind : Token.Kind}
    (hfirst : First v.source.toList [] (.token kind)) (hdenotes : kind.Denotes v) (p : Position) :
    ∃ ts e, v.ReadAs p ts e := by
  refine ⟨[⟨kind, String.ofList v.source.toList, p⟩], .literal v, ?_, ?_, fun _ => rfl⟩
  · intro rest
    exact Scan.itemsAt_token (hfirst.append Piece.isSeparate_semicolon rest)
  · exact (Expr.Derives.literal hdenotes).of_rank_le (by decide)

/-- The text of a number without its sign is a token by itself, if the number is finite. -/
theorem first_magnitudeText {x : Float} (hnan : x.isNaN = false) (hinf : x.isInf = false) :
    First (Number.magnitudeText x).toList [] (.token (.number x.abs)) :=
  (IsLexeme.numeral (Number.isNumeral_magnitudeText hinf)).first
    (.numeral (Number.read?_magnitudeText hnan hinf))

/-- A number with a minus sign is written as a minus and the numeral of its absolute value. -/
theorem exists_readAs_number {x : Float} (h : x.isFinite = true) (p : Position) :
    ∃ ts e, (Value.number x).ReadAs p ts e := by
  have hnan := Number.isNaN_of_isFinite h
  have hfirst := first_magnitudeText hnan (Number.isInf_of_isFinite h)
  cases hsign : Number.isNegative x with
  | false =>
    have hsource : (Value.number x).source = Number.magnitudeText x :=
      Number.text_of_isNegative_eq_false hnan hsign
    rw [← hsource, Number.abs_eq_self hnan hsign] at hfirst
    exact exists_readAs_literal hfirst (.number x) p
  | true =>
    have hsource : (Value.number x).source.toList = ['-'] ++ (Number.magnitudeText x).toList := by
      show (Number.text x).toList = _
      rw [Number.text_of_isNegative hnan hsign, String.toList_append]
      rfl
    have hliteral : Expr.Derives .primary
        [⟨.number x.abs, String.ofList (Number.magnitudeText x).toList, p.after ['-']⟩]
        (.literal (.number x.abs)) := .literal (.number x.abs)
    refine ⟨⟨.minus, "-", p⟩ :: [_], .unary ⟨.minus, "-", p⟩ _, ?_,
      (Expr.Derives.unary (.inr rfl) (hliteral.of_rank_le (by decide))).of_rank_le (by decide), ?_⟩
    · intro rest
      have hminus : First ['-'] ((Number.magnitudeText x).toList ++ ';' :: rest) (.token .minus) :=
        Piece.firstAt_lead '-' _
      have hnumeral := Scan.itemsAt_token (p := p.after ['-'])
        (hfirst.append Piece.isSeparate_semicolon rest)
      rw [hsource, List.append_assoc, Scan.itemsAt_token hminus]
      rw [List.nil_append] at hnumeral
      rw [hnumeral, Position.after_append]
      rfl
    · intro env
      show (Except.ok (Value.number (-x.abs)), env) = _
      rw [Number.neg_abs_eq_self hnan hsign]

theorem exists_readAs_string {s : String} (h : '"' ∉ s.toList) (p : Position) :
    ∃ ts e, (Value.string s).ReadAs p ts e := by
  have hsource : (Value.string s).source.toList = '"' :: (s.toList ++ ['"']) := by
    simp [source]
  have hmakes : Makes .string ('"' :: (s.toList ++ ['"'])) (.string s) := by
    have hstring : Makes .string _ (.string (String.ofList s.toList)) := .string
    rwa [String.ofList_toList] at hstring
  have hfirst := (IsLexeme.string h).first hmakes
  rw [← hsource] at hfirst
  exact exists_readAs_literal hfirst (.string s) p

/-- The text of a value stands for an expression that has the value. -/
theorem exists_readAs {v : Value} (h : v.IsReadable) (p : Position) : ∃ ts e, v.ReadAs p ts e := by
  cases v with
  | nil =>
    have hkeyword : (source .nil, .kwNil) ∈ Token.Kind.keywords := by decide
    exact exists_readAs_literal (Piece.first_keyword hkeyword) .nil p
  | boolean b =>
    cases b with
    | true =>
      have hkeyword : (source (.boolean true), .kwTrue) ∈ Token.Kind.keywords := by decide
      exact exists_readAs_literal (Piece.first_keyword hkeyword) .true p
    | false =>
      have hkeyword : (source (.boolean false), .kwFalse) ∈ Token.Kind.keywords := by decide
      exact exists_readAs_literal (Piece.first_keyword hkeyword) .false p
  | number x => exact exists_readAs_number h p
  | string s => exact exists_readAs_string h p

theorem first_name : First ['r'] [] (.token .identifier) :=
  Piece.first_letters (by decide) (by decide)

theorem exists_itemsAt_declaration (rest : List Char) :
    ∃ keyword name equals : Token, ∃ q, keyword.kind = .kwVar ∧ name.kind = .identifier ∧
      equals.kind = .equal ∧ name.lexeme = "r" ∧
      Scan.itemsAt .start ("var r = ".toList ++ rest) =
        .ok keyword :: .ok name :: .ok equals :: Scan.itemsAt q rest := by
  have hvar : First "var".toList [] (.token .kwVar) := Piece.first_keyword (by decide)
  have hequal : First ['='] [] (.token .equal) := Piece.first_operator (by decide)
  have hchars : "var r = ".toList ++ rest =
      "var".toList ++ ' ' :: (['r'] ++ ' ' :: (['='] ++ ' ' :: rest)) := by simp
  rw [hchars, Scan.itemsAt_token_blank hvar, Scan.itemsAt_token_blank first_name,
    Scan.itemsAt_token_blank hequal]
  exact ⟨_, _, _, _, rfl, rfl, rfl, rfl, rfl⟩

/-- The tokens of the source that declares `r` with the value are those of a declaration. -/
theorem exists_tokens_declaration {v : Value} (h : v.IsReadable) :
    ∃ ts name e, Scan.items v.declaration = ts.map .ok ∧
      Stmt.DerivesAll ts [.declare name (some e)] ∧ name.lexeme = "r" ∧
      ∀ env, e.eval env = (.ok v, env) := by
  have hchars : v.declaration.toList = "var r = ".toList ++ (v.source.toList ++ [';']) := by
    simp [declaration]
  have hitems : Scan.items v.declaration = Scan.itemsAt .start v.declaration.toList := rfl
  obtain ⟨keyword, name, equals, q, hkeyword, hname, hequals, hlexeme, hstart⟩ :=
    exists_itemsAt_declaration (v.source.toList ++ [';'])
  obtain ⟨ts, e, hread⟩ := exists_readAs h q
  have hderives : Stmt.Derives
      (keyword :: name :: equals :: (ts ++ [⟨.semicolon, ";", q.after v.source.toList⟩]))
      (.declare name (some e)) := .define hkeyword hname hequals hread.derives rfl
  refine ⟨_, name, e, ?_, .cons hderives .nil, hlexeme, hread.eval_eq⟩
  rw [hitems, hchars, hstart, hread.items_eq [], Scan.itemsAt_semicolon]
  simp

/-- A value with a text in a source is read back from it. The source that declares `r` with that
    text is scanned without a fault and parsed to a single declaration, and where only the global
    scope is open it runs to its end, prints nothing, and binds `r` to the value and nothing
    else. -/
theorem read_back {v : Value} (h : v.IsReadable) :
    (Scan.ofSource v.declaration).diagnostics = [] ∧
    (∃ name e, Program.ofSource v.declaration = .ok [.declare name (some e)] ∧
      name.lexeme = "r") ∧
    ∀ m : Machine, m.environment.WellFormed → m.environment.depth = 1 →
      Session.run m v.declaration = (.finished, ⟨m.environment.define "r" v, m.output⟩) ∧
      (m.environment.define "r" v).getGlobal? "r" = some v := by
  obtain ⟨ts, name, e, hts, hderives, hname, heval⟩ := exists_tokens_declaration h
  have hprogram := Program.ofSource_eq_ok_iff.mpr ⟨ts, hts, hderives⟩
  refine ⟨?_, ⟨name, e, hprogram, hname⟩, ?_⟩
  · rw [Scan.ofSource_of_items hts]
  · intro m hwf hdepth
    refine ⟨?_, ?_⟩
    · simp only [Session.run, hprogram, Stmt.execAll, Stmt.exec, Machine.eval, heval,
        Machine.define, hname]
    · have hcurrent : m.environment.current = 0 := by
        have hsize := hwf.current_eq
        rw [Environment.depth] at hdepth
        omega
      rw [Environment.getGlobal?, Environment.define, hcurrent, Environment.valueIn_bindIn]
      exact if_pos ⟨rfl, rfl, by omega⟩

/-- The zero with a minus sign comes back with its sign. -/
theorem read_back_negative_zero :
    (Value.number (.ofBits 0x8000000000000000)).declaration = "var r = -0;" ∧
    (Session.run (.new none) "var r = -0;").2.environment.getGlobal? "r" =
      some (.number (.ofBits 0x8000000000000000)) := by
  have hfinite : (Value.number (.ofBits 0x8000000000000000)).IsReadable :=
    show Float.isFinite _ = true by decide +kernel
  have hdeclaration : (Value.number (.ofBits 0x8000000000000000)).declaration = "var r = -0;" := by
    decide +kernel
  obtain ⟨-, -, hruns⟩ := read_back hfinite
  obtain ⟨hrun, hvalue⟩ := hruns (.new none) Environment.Represents.empty.wellFormed rfl
  rw [hdeclaration] at hrun
  rw [hrun]
  exact ⟨hdeclaration, hvalue⟩

end Value

end BlockScript
