import BlockScript.Stmt

/-!
# The grammar

What the token string of a statement is, and which tree it has, with no regard to how it is read.
The relations below have one constructor for each production of the grammar

    statement   → declaration | printStmt | block | exprStmt
    declaration → "var" IDENTIFIER ( "=" assignment )? ";"
    printStmt   → "print" assignment ";"
    block       → "{" statement* "}"
    exprStmt    → assignment ";"
    assignment  → IDENTIFIER "=" assignment | equality
    equality    → comparison ( ( "!=" | "==" ) comparison )*
    comparison  → term ( ( ">" | ">=" | "<" | "<=" ) term )*
    term        → factor ( ( "-" | "+" ) factor )*
    factor      → unary ( ( "/" | "*" ) unary )*
    unary       → ( "!" | "-" ) unary | primary
    primary     → NUMBER | STRING | "true" | "false" | "nil" | IDENTIFIER | "(" assignment ")"

where the repetitions make trees that lean to the left.
-/

namespace BlockScript

/-- The value that a literal token stands for: what its kind carries, or says. -/
inductive Token.Kind.Denotes : Token.Kind → Value → Prop
  | number (x : Float) : Denotes (.number x) (.number x)
  | string (s : String) : Denotes (.string s) (.string s)
  | true : Denotes .kwTrue (.boolean true)
  | false : Denotes .kwFalse (.boolean false)
  | nil : Denotes .kwNil .nil

theorem Token.Kind.Denotes.ne_endOfFile {kind : Token.Kind} {value : Value}
    (h : kind.Denotes value) : kind ≠ .endOfFile := by
  cases h <;> exact nofun

namespace Expr

/-- The nonterminals of the grammar of expressions, the loosest first. -/
inductive Level where
  | assignment | equality | comparison | term | factor | unary | primary
deriving DecidableEq, Repr

namespace Level

/-- The level that the phrases of a level are made of. -/
def next : Level → Level
  | assignment => equality
  | equality => comparison
  | comparison => term
  | term => factor
  | factor => unary
  | unary | primary => primary

/-- The operators that stand between two phrases at a level. -/
def operators : Level → List Token.Kind
  | equality => [.bangEqual, .equalEqual]
  | comparison => [.greater, .greaterEqual, .less, .lessEqual]
  | term => [.minus, .plus]
  | factor => [.slash, .star]
  | assignment | unary | primary => []

/-- How many levels are looser. -/
def rank : Level → Nat
  | assignment => 0
  | equality => 1
  | comparison => 2
  | term => 3
  | factor => 4
  | unary => 5
  | primary => 6

theorem rank_le_rank_next (level : Level) : level.rank ≤ level.next.rank := by
  cases level <;> decide

theorem rank_next_of_lt {level other : Level} (h : level.rank < other.rank) :
    level.next.rank = level.rank + 1 := by
  cases level <;> first | rfl | (cases other <;> contradiction)

theorem rank_next_of_mem_operators {level : Level} {kind : Token.Kind}
    (h : kind ∈ level.operators) : level.next.rank = level.rank + 1 := by
  cases level <;> first | rfl | exact absurd h List.not_mem_nil

theorem rank_mem_operators {level : Level} {kind : Token.Kind} (h : kind ∈ level.operators) :
    0 < level.rank ∧ level.rank < unary.rank := by
  cases level <;> first | decide | exact absurd h List.not_mem_nil

theorem ne_endOfFile_of_mem_operators {level : Level} {kind : Token.Kind}
    (h : kind ∈ level.operators) : kind ≠ .endOfFile := by
  rintro rfl
  cases level <;> simp [operators] at h

theorem rank_injective {level other : Level} (h : level.rank = other.rank) : level = other := by
  cases level <;> cases other <;> first | rfl | contradiction

end Level

/-- The tokens are a phrase of the level, with the tree `e`. -/
inductive Derives : Level → List Token → Expr → Prop
  | next {level : Level} {ts : List Token} {e : Expr} :
      Derives level.next ts e → Derives level ts e
  | assign {name equals : Token} {ts : List Token} {value : Expr} :
      name.kind = .identifier → equals.kind = .equal → Derives .assignment ts value →
      Derives .assignment (name :: equals :: ts) (.assign name value)
  | binary {level : Level} {op : Token} {ts us : List Token} {left right : Expr} :
      op.kind ∈ level.operators → Derives level ts left → Derives level.next us right →
      Derives level (ts ++ op :: us) (.binary left op right)
  | unary {op : Token} {ts : List Token} {operand : Expr} :
      op.kind = .bang ∨ op.kind = .minus → Derives .unary ts operand →
      Derives .unary (op :: ts) (.unary op operand)
  | literal {t : Token} {value : Value} :
      t.kind.Denotes value → Derives .primary [t] (.literal value)
  | var {name : Token} : name.kind = .identifier → Derives .primary [name] (.var name)
  | grouping {opening closing : Token} {ts : List Token} {inner : Expr} :
      opening.kind = .leftParen → closing.kind = .rightParen → Derives .assignment ts inner →
      Derives .primary (opening :: (ts ++ [closing])) (.grouping inner)

/-- A phrase of a level is one of every looser level. -/
theorem Derives.of_rank_le {level other : Level} {ts : List Token} {e : Expr}
    (h : Derives level ts e) (hle : other.rank ≤ level.rank) : Derives other ts e := by
  obtain ⟨n, hn⟩ := Nat.exists_eq_add_of_le hle
  induction n generalizing other with
  | zero => exact Level.rank_injective hn ▸ h
  | succ n ih =>
    have hnext := Level.rank_next_of_lt (show other.rank < level.rank by omega)
    exact .next (ih (by omega) (by omega))

theorem Derives.of_var {level : Level} {ts : List Token} {name : Token}
    (h : Derives level ts (.var name)) : ts = [name] ∧ name.kind = .identifier := by
  generalize he : Expr.var name = e at h
  induction h with
  | next _ ih => exact ih he
  | var hname => cases he; exact ⟨rfl, hname⟩
  | _ => cases he

theorem Derives.ne_nil {level : Level} {ts : List Token} {e : Expr} (h : Derives level ts e) :
    ts ≠ [] := by
  induction h with
  | next _ ih => exact ih
  | _ => simp

/-- The mark of the end stands in no phrase. -/
theorem Derives.isEnd_eq_false {level : Level} {ts : List Token} {e : Expr}
    (h : Derives level ts e) : ∀ t ∈ ts, t.isEnd = false := by
  induction h with
  | next _ ih => exact ih
  | assign hname hequals _ ih =>
    intro t ht
    rcases List.mem_cons.mp ht with rfl | ht
    · simp [Token.isEnd, hname]
    · rcases List.mem_cons.mp ht with rfl | ht
      · simp [Token.isEnd, hequals]
      · exact ih t ht
  | binary hop _ _ ihl ihr =>
    intro t ht
    rcases List.mem_append.mp ht with ht | ht
    · exact ihl t ht
    · rcases List.mem_cons.mp ht with rfl | ht
      · simpa [Token.isEnd] using Level.ne_endOfFile_of_mem_operators hop
      · exact ihr t ht
  | unary hop _ ih =>
    intro t ht
    rcases List.mem_cons.mp ht with rfl | ht
    · rcases hop with hop | hop <;> simp [Token.isEnd, hop]
    · exact ih t ht
  | literal hvalue => simpa [Token.isEnd] using hvalue.ne_endOfFile
  | var hname => simp [Token.isEnd, hname]
  | grouping hopening hclosing _ ih =>
    intro t ht
    rcases List.mem_cons.mp ht with rfl | ht
    · simp [Token.isEnd, hopening]
    · rcases List.mem_append.mp ht with ht | ht
      · exact ih t ht
      · rw [List.mem_singleton.mp ht]
        simp [Token.isEnd, hclosing]

end Expr

namespace Stmt

mutual

/-- The tokens are a statement, with the tree `s`. -/
inductive Derives : List Token → Stmt → Prop
  | declare {keyword name semicolon : Token} :
      keyword.kind = .kwVar → name.kind = .identifier → semicolon.kind = .semicolon →
      Derives [keyword, name, semicolon] (.declare name none)
  | define {keyword name equals semicolon : Token} {ts : List Token} {e : Expr} :
      keyword.kind = .kwVar → name.kind = .identifier → equals.kind = .equal →
      Expr.Derives .assignment ts e → semicolon.kind = .semicolon →
      Derives (keyword :: name :: equals :: (ts ++ [semicolon])) (.declare name (some e))
  | print {keyword semicolon : Token} {ts : List Token} {e : Expr} :
      keyword.kind = .kwPrint → Expr.Derives .assignment ts e → semicolon.kind = .semicolon →
      Derives (keyword :: (ts ++ [semicolon])) (.print e)
  | block {opening closing : Token} {ts : List Token} {body : List Stmt} :
      opening.kind = .leftBrace → closing.kind = .rightBrace → DerivesAll ts body →
      Derives (opening :: (ts ++ [closing])) (.block body)
  | expression {semicolon : Token} {ts : List Token} {e : Expr} :
      Expr.Derives .assignment ts e → semicolon.kind = .semicolon →
      Derives (ts ++ [semicolon]) (.expression e)

/-- The tokens are any number of statements one after the other, with these trees. -/
inductive DerivesAll : List Token → List Stmt → Prop
  | nil : DerivesAll [] []
  | cons {ts us : List Token} {s : Stmt} {rest : List Stmt} :
      Derives ts s → DerivesAll us rest → DerivesAll (ts ++ us) (s :: rest)

end

theorem Derives.ne_nil {ts : List Token} {s : Stmt} (h : Derives ts s) : ts ≠ [] := by
  cases h <;> simp

mutual

/-- The mark of the end stands in no statement. -/
theorem Derives.isEnd_eq_false {ts : List Token} {s : Stmt} :
    Derives ts s → ∀ t ∈ ts, t.isEnd = false
  | .declare hkeyword hname hsemicolon => by simp [Token.isEnd, hkeyword, hname, hsemicolon]
  | .define hkeyword hname hequals he hsemicolon => by
    have hts := he.isEnd_eq_false
    simp only [List.mem_cons, List.mem_append, List.not_mem_nil, or_false]
    rintro t (rfl | rfl | rfl | ht | rfl)
    · simp [Token.isEnd, hkeyword]
    · simp [Token.isEnd, hname]
    · simp [Token.isEnd, hequals]
    · exact hts t ht
    · simp [Token.isEnd, hsemicolon]
  | .print hkeyword he hsemicolon => by
    have hts := he.isEnd_eq_false
    simp only [List.mem_cons, List.mem_append, List.not_mem_nil, or_false]
    rintro t (rfl | ht | rfl)
    · simp [Token.isEnd, hkeyword]
    · exact hts t ht
    · simp [Token.isEnd, hsemicolon]
  | .block hopening hclosing hbody => by
    have hts := hbody.isEnd_eq_false
    simp only [List.mem_cons, List.mem_append, List.not_mem_nil, or_false]
    rintro t (rfl | ht | rfl)
    · simp [Token.isEnd, hopening]
    · exact hts t ht
    · simp [Token.isEnd, hclosing]
  | .expression he hsemicolon => by
    have hts := he.isEnd_eq_false
    simp only [List.mem_append, List.mem_singleton]
    rintro t (ht | rfl)
    · exact hts t ht
    · simp [Token.isEnd, hsemicolon]

theorem DerivesAll.isEnd_eq_false {ts : List Token} {ss : List Stmt} :
    DerivesAll ts ss → ∀ t ∈ ts, t.isEnd = false
  | .nil => by simp
  | .cons hs hrest => by
    have hts := hs.isEnd_eq_false
    have hus := hrest.isEnd_eq_false
    intro t ht
    rcases List.mem_append.mp ht with ht | ht
    · exact hts t ht
    · exact hus t ht

end

theorem DerivesAll.append {ts us : List Token} {ss rest : List Stmt} (h : DerivesAll ts ss)
    (hrest : DerivesAll us rest) : DerivesAll (ts ++ us) (ss ++ rest) := by
  match h with
  | .nil => exact hrest
  | .cons hs hss => rw [List.append_assoc]; exact .cons hs (hss.append hrest)

end Stmt

end BlockScript
