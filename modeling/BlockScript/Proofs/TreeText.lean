import BlockScript.Proofs.Layout
import BlockScript.Proofs.Lines
import BlockScript.Proofs.Modes
import BlockScript.Proofs.Phrase
import BlockScript.Proofs.ReadBack

/-!
# The text of a tree can be read

The text of a statement is that of a phrase (`Stmt.toList_text`), and a statement that was read from
a source is read back from its phrase, but for the places (`Stmt.Spelt.reads`). The one exception
is a literal that is infinite, whose text is that of the name `inf`. So the texts of two
statements are the same if and only if the statements are, with this name in the place of such
literals (`Stmt.Spelt.text_eq_iff`).
-/

namespace BlockScript

open Piece (First IsLexeme IsLetter Makes operators)

/-! ## Words that are tokens -/

/-- The token that the text is as a whole, if it is one. -/
def Token.ofText (text : List Char) : Token :=
  match Piece.split text with
  | [⟨.token kind, _⟩] => ⟨kind, String.ofList text, .start⟩
  | _ => ⟨.endOfFile, String.ofList text, .start⟩

theorem Token.ofText_eq {text : List Char} {kind : Token.Kind} (h : First text [] (.token kind)) :
    ofText text = ⟨kind, String.ofList text, .start⟩ := by
  have hsplit := Piece.split_append h
  rw [List.append_nil, Piece.split] at hsplit
  simp only [ofText, hsplit]

/-- A token is told by its lexeme, but for the place. -/
theorem Scan.Alone.ofText_eq {t : Token} (h : Alone t) :
    Token.ofText t.lexeme.toList = t.move .forget := by
  rw [Token.ofText_eq h, String.ofList_toList]
  rfl

/-- Whether no lexeme of the kind has a delimiter in it. -/
def Token.Kind.isBare : Kind → Bool
  | leftParen | rightParen | string _ => false
  | _ => true

/-- The lexeme of a token that is neither a parenthesis nor a string is a word. -/
theorem Piece.First.isWord {text : List Char} {kind : Token.Kind} (h : First text [] (.token kind))
    (hbare : kind.isBare = true) : Phrase.IsWord text := by
  cases h with
  | @token _ _ cls _ _ hlongest hmakes =>
    have hcls : cls ≠ .string := by
      rintro rfl
      cases hmakes
      cases hbare
    refine ⟨?_, ?_⟩
    · obtain ⟨c, cs, rfl, -⟩ := hlongest.isLexeme.exists_cons
      exact List.cons_ne_nil c cs
    · intro c hmem
      rw [← Bool.not_eq_true]
      intro hc
      have hall : [' ', '(', ')', '"', '\n'].all (fun c =>
          (¬ IsLetter c ∧ c.isDigit = false ∧ c ≠ '.') ∧
          ∀ entry ∈ operators, entry.2.isBare = true → c ∉ entry.1) = true := by decide
      obtain ⟨hsign, hoperators⟩ :=
        of_decide_eq_true (List.all_eq_true.mp hall c (of_decide_eq_true hc))
      obtain rfl := hlongest.isLexeme.eq_operator_of_mem hcls hmem hsign
      cases hmakes with
      | operator hoperator => exact hoperators _ hoperator hbare hmem

theorem Scan.Alone.isWord {t : Token} (h : Alone t) (hbare : t.kind.isBare = true) :
    Phrase.IsWord t.lexeme.toList :=
  First.isWord h hbare

theorem Piece.Makes.read? {text : List Char} {cls : LexemeClass} {x : Float}
    (h : Makes cls text (.number x)) : Number.read? text = some x := by
  generalize hkind : Token.Kind.number x = kind at h
  have hliteral : kind.literal? = some (.number x) := by rw [← hkind]; rfl
  cases h with
  | numeral hread =>
    cases hkind
    exact hread
  | operator hmem =>
    have hall : ∀ entry ∈ operators, entry.2.literal? = none := by decide
    rw [hall _ hmem] at hliteral
    cases hliteral
  | keyword hmem =>
    have hall : ∀ entry ∈ Token.Kind.keywords, entry.2.literal? = none := by decide
    rw [hall _ hmem] at hliteral
    cases hliteral
  | name | string => cases hkind

theorem Piece.First.read? {text rest : List Char} {x : Float}
    (h : First text rest (.token (.number x))) : Number.read? text = some x := by
  cases h with
  | token _ _ hmakes => exact hmakes.read?

/-! ## Trees as phrases -/

/-- A literal as a phrase. -/
def Value.phrase : Value → Phrase
  | .string s => .quoted s.toList
  | value => .word value.text.toList

/-- The tree of an expression as a phrase. -/
def Expr.phrase : Expr → Phrase
  | literal value => value.phrase
  | var name => .word name.lexeme.toList
  | grouping inner => .list "group".toList [inner.phrase]
  | unary op operand => .list op.lexeme.toList [operand.phrase]
  | binary left op right => .list op.lexeme.toList [left.phrase, right.phrase]
  | assign name value => .list ['='] [.word name.lexeme.toList, value.phrase]

mutual

/-- The tree of a statement as a phrase. -/
def Stmt.phrase : Stmt → Phrase
  | .block body => .list "block".toList (bodyPhrases body)
  | .declare name (some initializer) =>
    .list "var".toList [.word name.lexeme.toList, initializer.phrase]
  | .declare name none => .list "var".toList [.word name.lexeme.toList]
  | .expression e => .list [';'] [e.phrase]
  | .print e => .list "print".toList [e.phrase]

/-- The trees of statements as phrases. -/
def Stmt.bodyPhrases : List Stmt → List Phrase
  | [] => []
  | s :: rest => s.phrase :: bodyPhrases rest

end

theorem Expr.toList_literalText (value : Value) :
    (literalText value).toList = value.phrase.chars := by
  cases value with
  | string s => exact String.toList_ofList
  | nil | boolean | number => rfl

theorem Expr.toList_text (e : Expr) : e.text.toList = e.phrase.chars := by
  induction e with
  | literal value => exact toList_literalText value
  | var name => rfl
  | grouping inner ih => simp [text, phrase, Phrase.chars, Phrase.itemChars, ih]
  | unary op operand ih => simp [text, phrase, Phrase.chars, Phrase.itemChars, ih]
  | binary left op right ihl ihr => simp [text, phrase, Phrase.chars, Phrase.itemChars, ihl, ihr]
  | assign name value ih => simp [text, phrase, Phrase.chars, Phrase.itemChars, ih]

mutual

theorem Stmt.toList_text : (s : Stmt) → s.text.toList = s.phrase.chars
  | .block body => by simp [text, phrase, Phrase.chars, toList_bodyText body]
  | .declare name (some initializer) => by
    simp [text, phrase, Phrase.chars, Phrase.itemChars, initializer.toList_text]
  | .declare name none => by simp [text, phrase, Phrase.chars, Phrase.itemChars]
  | .expression e => by simp [text, phrase, Phrase.chars, Phrase.itemChars, e.toList_text]
  | .print e => by simp [text, phrase, Phrase.chars, Phrase.itemChars, e.toList_text]

theorem Stmt.toList_bodyText :
    (body : List Stmt) → (bodyText body).toList = Phrase.itemChars (bodyPhrases body)
  | [] => rfl
  | s :: rest => by
    simp [bodyText, bodyPhrases, Phrase.itemChars, s.toList_text, toList_bodyText rest]

end

/-! ## Trees that are read from a source -/

/-- The value is what some token of a source denotes. -/
def Value.Spelt (v : Value) : Prop := ∃ t, Scan.Alone t ∧ t.kind.Denotes v

/-- The token is a name of a source. -/
structure Token.IsName (t : Token) : Prop where
  alone : Scan.Alone t
  kind_eq : t.kind = .identifier

/-- All tokens of the expression are tokens of a source. -/
def Expr.Spelt : Expr → Prop
  | literal value => value.Spelt
  | var name => name.IsName
  | grouping inner => inner.Spelt
  | unary op operand =>
    (Scan.Alone op ∧ (UnaryOp.ofKind? op.kind).isSome) ∧ operand.Spelt
  | binary left op right =>
    left.Spelt ∧ (Scan.Alone op ∧ (BinaryOp.ofKind? op.kind).isSome) ∧ right.Spelt
  | assign name value => name.IsName ∧ value.Spelt

mutual

/-- All tokens of the statement are tokens of a source. -/
def Stmt.Spelt : Stmt → Prop
  | .block body => AllSpelt body
  | .declare name (some initializer) => name.IsName ∧ initializer.Spelt
  | .declare name none => name.IsName
  | .expression e => e.Spelt
  | .print e => e.Spelt

/-- All tokens of the statements are tokens of a source. -/
def Stmt.AllSpelt : List Stmt → Prop
  | [] => True
  | s :: rest => s.Spelt ∧ AllSpelt rest

end

theorem Stmt.AllSpelt.spelt {ss : List Stmt} {s : Stmt} (h : AllSpelt ss) (hs : s ∈ ss) :
    s.Spelt := by
  induction ss with
  | nil => cases hs
  | cons t rest ih =>
    rcases List.mem_cons.mp hs with rfl | hs
    · exact h.1
    · exact ih h.2 hs

theorem Expr.Derives.spelt {level : Expr.Level} {ts : List Token} {e : Expr}
    (h : Expr.Derives level ts e) (hts : ∀ t ∈ ts, Scan.Alone t) : e.Spelt := by
  induction h with
  | next _ ih => exact ih hts
  | assign hname _ _ ih =>
    exact ⟨⟨hts _ (by simp), hname⟩, ih fun t ht => hts t (by simp [ht])⟩
  | @binary level op ts us left right hop _ _ ihl ihr =>
    obtain ⟨operator, hoperator, -⟩ := Level.exists_ofKind?_eq_some hop
    exact ⟨ihl fun t ht => hts t (by simp [ht]), ⟨hts op (by simp), by rw [hoperator]; rfl⟩,
      ihr fun t ht => hts t (by simp [ht])⟩
  | @unary op ts operand hop _ ih =>
    refine ⟨⟨hts op (by simp), ?_⟩, ih fun t ht => hts t (by simp [ht])⟩
    rcases hop with hop | hop <;> rw [hop] <;> rfl
  | literal hvalue => exact ⟨_, hts _ (by simp), hvalue⟩
  | var hname => exact ⟨hts _ (by simp), hname⟩
  | grouping _ _ _ ih => exact ih fun t ht => hts t (by simp [ht])

mutual

theorem Stmt.Derives.spelt {ts : List Token} {s : Stmt} (hts : ∀ t ∈ ts, Scan.Alone t) :
    Stmt.Derives ts s → s.Spelt
  | .declare _ hname _ => ⟨hts _ (by simp), hname⟩
  | .define _ hname _ he _ => ⟨⟨hts _ (by simp), hname⟩, he.spelt fun t ht => hts t (by simp [ht])⟩
  | .print _ he _ => he.spelt fun t ht => hts t (by simp [ht])
  | .block _ _ hbody => Stmt.DerivesAll.spelt (fun t ht => hts t (by simp [ht])) hbody
  | .expression he _ => he.spelt fun t ht => hts t (by simp [ht])

theorem Stmt.DerivesAll.spelt {ts : List Token} {ss : List Stmt} (hts : ∀ t ∈ ts, Scan.Alone t) :
    Stmt.DerivesAll ts ss → Stmt.AllSpelt ss
  | .nil => trivial
  | .cons hs hrest =>
    ⟨Stmt.Derives.spelt (fun t ht => hts t (by simp [ht])) hs,
      Stmt.DerivesAll.spelt (fun t ht => hts t (by simp [ht])) hrest⟩

end

theorem Program.allSpelt_of_ofSource {source : String} {program : List Stmt}
    (h : ofSource source = .ok program) : Stmt.AllSpelt program := by
  obtain ⟨ts, hts, hderives⟩ := ofSource_eq_ok_iff.mp h
  exact Stmt.DerivesAll.spelt (Scan.alone_of_items hts) hderives

/-! ## Infinite literals -/

/-- Whether the value is an infinite number. -/
def Value.isInfinite : Value → Bool
  | .number x => x.isInf
  | _ => false

/-- The expression with the name `inf` in the place of every infinite literal. -/
def Expr.nameInfinities : Expr → Expr
  | literal value =>
    if value.isInfinite then var ⟨.identifier, "inf", .start⟩ else literal value
  | var name => var name
  | grouping inner => grouping inner.nameInfinities
  | unary op operand => unary op operand.nameInfinities
  | binary left op right => binary left.nameInfinities op right.nameInfinities
  | assign name value => assign name value.nameInfinities

mutual

/-- The statement with the name `inf` in the place of every infinite literal. -/
def Stmt.nameInfinities : Stmt → Stmt
  | .block body => .block (nameAllInfinities body)
  | .declare name (some initializer) => .declare name (some initializer.nameInfinities)
  | .declare name none => .declare name none
  | .expression e => .expression e.nameInfinities
  | .print e => .print e.nameInfinities

/-- The statements with the name `inf` in the place of every infinite literal. -/
def Stmt.nameAllInfinities : List Stmt → List Stmt
  | [] => []
  | s :: rest => s.nameInfinities :: nameAllInfinities rest

end

/-- No literal of a source is NaN or has a minus sign. -/
theorem Value.Spelt.text_eq {x : Float} (h : (Value.number x).Spelt) :
    x.isNaN = false ∧ Number.isNegative x = false ∧
    (Value.number x).text = Number.magnitudeText x := by
  obtain ⟨⟨kind, lexeme, place⟩, halone, hdenotes⟩ := h
  cases hdenotes
  obtain ⟨hnan, hsign⟩ := Number.unsigned_of_read? (First.read? halone)
  exact ⟨hnan, hsign, Number.text_of_isNegative_eq_false hnan hsign⟩

theorem Value.Spelt.phrase_of_isInfinite {v : Value} (h : v.Spelt) (hv : v.isInfinite = true) :
    v.phrase = .word "inf".toList := by
  cases v with
  | number x =>
    have hinf : x.isInf = true := hv
    obtain ⟨-, -, htext⟩ := h.text_eq
    show Phrase.word (Value.number x).text.toList = _
    rw [htext, Number.magnitudeText, if_pos hinf]
  | nil | boolean | string => cases hv

/-- An infinite literal is written as the name that takes its place. -/
theorem Expr.Spelt.phrase_nameInfinities {e : Expr} (h : e.Spelt) (g : Position → Position) :
    (e.move g).nameInfinities.phrase = e.phrase := by
  induction e with
  | literal value =>
    simp only [move, nameInfinities]
    split
    case isTrue hinf => exact (Value.Spelt.phrase_of_isInfinite h hinf).symm
    case isFalse => rfl
  | var name => rfl
  | grouping inner ih => simp only [move, nameInfinities, phrase, ih h]
  | unary op operand ih =>
    simp only [move, nameInfinities, phrase, Token.lexeme_move, ih h.2]
  | binary left op right ihl ihr =>
    simp only [move, nameInfinities, phrase, Token.lexeme_move, ihl h.1, ihr h.2.2]
  | assign name value ih =>
    simp only [move, nameInfinities, phrase, Token.lexeme_move, ih h.2]

mutual

theorem Stmt.Spelt.phrase_nameInfinities (g : Position → Position) :
    (s : Stmt) → s.Spelt → (s.move g).nameInfinities.phrase = s.phrase
  | .block body, h => by
    rw [move, nameInfinities, phrase, AllSpelt.bodyPhrases_nameAllInfinities g body h, phrase]
  | .declare name (some initializer), h => by
    rw [move, nameInfinities, phrase, Expr.Spelt.phrase_nameInfinities h.2, Token.lexeme_move,
      phrase]
  | .declare name none, h => rfl
  | .expression e, h => by
    rw [move, nameInfinities, phrase, Expr.Spelt.phrase_nameInfinities h, phrase]
  | .print e, h => by
    rw [move, nameInfinities, phrase, Expr.Spelt.phrase_nameInfinities h, phrase]

theorem Stmt.AllSpelt.bodyPhrases_nameAllInfinities (g : Position → Position) :
    (ss : List Stmt) → AllSpelt ss →
    bodyPhrases (nameAllInfinities (moveAll g ss)) = bodyPhrases ss
  | [], _ => rfl
  | s :: rest, ⟨hs, hrest⟩ => by
    rw [moveAll, nameAllInfinities, bodyPhrases, Stmt.Spelt.phrase_nameInfinities g s hs,
      AllSpelt.bodyPhrases_nameAllInfinities g rest hrest, bodyPhrases]

end

/-! ## Reading phrases -/

/-- The tree of a single token. -/
def Expr.ofToken (t : Token) : Expr :=
  match constant? t.kind with
  | some value => .literal value
  | none => .var t

/-- The token that the phrase is, or begins with. -/
def Phrase.token : Phrase → Token
  | .word text | .list text _ => .ofText text
  | .quoted _ => .ofText []

/-- The expression that the phrase is the tree of, if there is one. -/
def Expr.ofPhrase : Phrase → Expr
  | .word text => ofToken (.ofText text)
  | .quoted contents => .literal (.string (String.ofList contents))
  | .list head [p] =>
    match UnaryOp.ofKind? (Token.ofText head).kind with
    | some _ => .unary (.ofText head) (ofPhrase p)
    | none => .grouping (ofPhrase p)
  | .list head [p, q] =>
    match BinaryOp.ofKind? (Token.ofText head).kind with
    | some _ => .binary (ofPhrase p) (.ofText head) (ofPhrase q)
    | none => .assign p.token (ofPhrase q)
  | .list _ _ => .literal .nil

mutual

/-- The statement that the phrase is the tree of, if there is one. -/
def Stmt.ofPhrase : Phrase → Stmt
  | .word _ | .quoted _ => .block []
  | .list head items =>
    match (Token.ofText head).kind, items with
    | .kwVar, [name, initializer] => .declare name.token (some (Expr.ofPhrase initializer))
    | .kwVar, [name] => .declare name.token none
    | .semicolon, [e] => .expression (Expr.ofPhrase e)
    | .kwPrint, [e] => .print (Expr.ofPhrase e)
    | _, _ => .block (ofPhrases items)

/-- The statements that the phrases are the trees of, if there are such. -/
def Stmt.ofPhrases : List Phrase → List Stmt
  | [] => []
  | p :: rest => ofPhrase p :: ofPhrases rest

end

/-- The phrase is well formed and is read as the expression. -/
structure Phrase.Reads (p : Phrase) (e : Expr) : Prop where
  wellFormed : p.WellFormed
  ofPhrase_eq : Expr.ofPhrase p = e

theorem Phrase.Reads.of_first {text : List Char} {kind : Token.Kind}
    (h : First text [] (.token kind)) (hbare : kind.isBare = true) :
    (Phrase.word text).Reads (Expr.ofToken ⟨kind, String.ofList text, .start⟩) := by
  refine ⟨h.isWord hbare, ?_⟩
  rw [Expr.ofPhrase, Token.ofText_eq h]

theorem Value.Spelt.reads {v : Value} (h : v.Spelt) :
    v.phrase.Reads (Expr.literal v).nameInfinities := by
  cases v with
  | nil => exact .of_first (Piece.first_keyword (by decide : ("nil", .kwNil) ∈ _)) rfl
  | boolean b =>
    cases b with
    | true => exact .of_first (Piece.first_keyword (by decide : ("true", .kwTrue) ∈ _)) rfl
    | false => exact .of_first (Piece.first_keyword (by decide : ("false", .kwFalse) ∈ _)) rfl
  | string s =>
    refine ⟨trivial, ?_⟩
    rw [phrase, Expr.ofPhrase, String.ofList_toList]
    rfl
  | number x =>
    obtain ⟨hnan, hsign, htext⟩ := h.text_eq
    cases hinfinite : (Value.number x).isInfinite with
    | true =>
      have hfirst : First "inf".toList [] (.token .identifier) :=
        Piece.first_letters (by decide) (by decide)
      rw [h.phrase_of_isInfinite hinfinite, Expr.nameInfinities, if_pos hinfinite]
      exact .of_first hfirst rfl
    | false =>
      have hfirst := first_magnitudeText hnan hinfinite
      rw [Number.abs_eq_self hnan hsign, ← htext] at hfirst
      rw [Expr.nameInfinities, if_neg (Bool.eq_false_iff.mp hinfinite)]
      exact .of_first hfirst rfl

theorem UnaryOp.isBare_of_ofKind? {kind : Token.Kind} (h : (ofKind? kind).isSome = true) :
    kind.isBare = true := by
  cases kind <;> first | rfl | cases h

theorem BinaryOp.isBare_of_ofKind? {kind : Token.Kind} (h : (ofKind? kind).isSome = true) :
    kind.isBare = true := by
  cases kind <;> first | rfl | cases h

theorem Token.IsName.reads {t : Token} (h : t.IsName) :
    (Phrase.word t.lexeme.toList).Reads (.var (t.move .forget)) := by
  obtain ⟨kind, lexeme, place⟩ := t
  obtain ⟨halone, rfl⟩ := h
  have hreads := Phrase.Reads.of_first halone rfl
  rwa [String.ofList_toList] at hreads

/-- An expression of a source is read back from its phrase, but for the places and for infinite
    literals. -/
theorem Expr.Spelt.reads {e : Expr} (h : e.Spelt) :
    e.phrase.Reads (e.move .forget).nameInfinities := by
  induction e with
  | literal value => exact Value.Spelt.reads h
  | var name => exact Token.IsName.reads h
  | grouping inner ih =>
    have hgroup : First "group".toList [] (.token .identifier) :=
      Piece.first_letters (by decide) (by decide)
    refine ⟨⟨hgroup.isWord rfl, (ih h).wellFormed, trivial⟩, ?_⟩
    simp only [phrase, ofPhrase, Token.ofText_eq hgroup, UnaryOp.ofKind?, (ih h).ofPhrase_eq, move,
      nameInfinities]
  | unary op operand ih =>
    obtain ⟨⟨halone, hop⟩, hoperand⟩ := h
    obtain ⟨operator, hoperator⟩ := Option.isSome_iff_exists.mp hop
    have hreads := ih hoperand
    refine ⟨⟨halone.isWord (UnaryOp.isBare_of_ofKind? hop), hreads.wellFormed, trivial⟩, ?_⟩
    simp only [phrase, ofPhrase, halone.ofText_eq, Token.kind_move, hoperator,
      hreads.ofPhrase_eq, move, nameInfinities]
  | binary left op right ihl ihr =>
    obtain ⟨hleft, ⟨halone, hop⟩, hright⟩ := h
    obtain ⟨operator, hoperator⟩ := Option.isSome_iff_exists.mp hop
    have hl := ihl hleft
    have hr := ihr hright
    refine ⟨⟨halone.isWord (BinaryOp.isBare_of_ofKind? hop), hl.wellFormed, hr.wellFormed,
      trivial⟩, ?_⟩
    simp only [phrase, ofPhrase, halone.ofText_eq, Token.kind_move, hoperator,
      hl.ofPhrase_eq, hr.ofPhrase_eq, move, nameInfinities]
  | assign name value ih =>
    obtain ⟨hname, hvalue⟩ := h
    have hequal : First ['='] [] (.token .equal) := Piece.first_operator (by decide)
    have hreads := ih hvalue
    refine ⟨⟨hequal.isWord rfl, hname.reads.wellFormed, hreads.wellFormed, trivial⟩, ?_⟩
    simp only [phrase, ofPhrase, Token.ofText_eq hequal, BinaryOp.ofKind?, Phrase.token,
      hname.alone.ofText_eq, hreads.ofPhrase_eq, move, nameInfinities]

mutual

/-- A statement of a source is read back from its phrase, but for the places and for infinite
    literals. -/
theorem Stmt.Spelt.reads : (s : Stmt) → s.Spelt →
    s.phrase.WellFormed ∧ ofPhrase s.phrase = (s.move .forget).nameInfinities
  | .block body, h => by
    have hblock : First "block".toList [] (.token .identifier) :=
      Piece.first_letters (by decide) (by decide)
    obtain ⟨hwf, hread⟩ := AllSpelt.reads body h
    refine ⟨⟨hblock.isWord rfl, hwf⟩, ?_⟩
    simp only [phrase, ofPhrase, Token.ofText_eq hblock, hread, move, nameInfinities]
  | .declare name (some initializer), ⟨hname, hinitializer⟩ => by
    have hvar : First "var".toList [] (.token .kwVar) := Piece.first_keyword (by decide)
    have hreads := hinitializer.reads
    refine ⟨⟨hvar.isWord rfl, hname.reads.wellFormed, hreads.wellFormed, trivial⟩, ?_⟩
    simp only [phrase, ofPhrase, Token.ofText_eq hvar, Phrase.token, hname.alone.ofText_eq,
      hreads.ofPhrase_eq, move, nameInfinities]
  | .declare name none, hname => by
    have hvar : First "var".toList [] (.token .kwVar) := Piece.first_keyword (by decide)
    refine ⟨⟨hvar.isWord rfl, (Token.IsName.reads hname).wellFormed, trivial⟩, ?_⟩
    simp only [phrase, ofPhrase, Token.ofText_eq hvar, Phrase.token,
      (Token.IsName.alone hname).ofText_eq, move, nameInfinities]
  | .expression e, h => by
    have hsemicolon : First [';'] [] (.token .semicolon) := Piece.first_operator (by decide)
    have hreads := Expr.Spelt.reads h
    refine ⟨⟨hsemicolon.isWord rfl, hreads.wellFormed, trivial⟩, ?_⟩
    simp only [phrase, ofPhrase, Token.ofText_eq hsemicolon, hreads.ofPhrase_eq, move,
      nameInfinities]
  | .print e, h => by
    have hprint : First "print".toList [] (.token .kwPrint) := Piece.first_keyword (by decide)
    have hreads := Expr.Spelt.reads h
    refine ⟨⟨hprint.isWord rfl, hreads.wellFormed, trivial⟩, ?_⟩
    simp only [phrase, ofPhrase, Token.ofText_eq hprint, hreads.ofPhrase_eq, move, nameInfinities]

theorem Stmt.AllSpelt.reads : (ss : List Stmt) → AllSpelt ss →
    Phrase.AllWellFormed (bodyPhrases ss) ∧
    ofPhrases (bodyPhrases ss) = nameAllInfinities (moveAll .forget ss)
  | [], _ => ⟨trivial, rfl⟩
  | s :: rest, ⟨hs, hrest⟩ => by
    obtain ⟨hwf, hread⟩ := Stmt.Spelt.reads s hs
    obtain ⟨hwfs, hreads⟩ := AllSpelt.reads rest hrest
    refine ⟨⟨hwf, hwfs⟩, ?_⟩
    rw [bodyPhrases, ofPhrases, hread, hreads, moveAll, nameAllInfinities]

end

/-! ## The texts of statements -/

/-- The texts of two statements of sources are the same if and only if the statements are, but for
    the places and for infinite literals. -/
theorem Stmt.Spelt.text_eq_iff {s t : Stmt} (hs : s.Spelt) (ht : t.Spelt) :
    s.text = t.text ↔ (s.move .forget).nameInfinities = (t.move .forget).nameInfinities := by
  obtain ⟨hswf, hsread⟩ := Stmt.Spelt.reads s hs
  obtain ⟨htwf, htread⟩ := Stmt.Spelt.reads t ht
  rw [← String.toList_inj, s.toList_text, t.toList_text]
  constructor
  · intro htexts
    rw [← hsread, ← htread, Phrase.chars_inj hswf htwf htexts]
  · intro htrees
    rw [← Stmt.Spelt.phrase_nameInfinities .forget s hs,
      ← Stmt.Spelt.phrase_nameInfinities .forget t ht, htrees]

theorem Stmt.Spelt.not_mem_newline_text {s : Stmt} (h : s.Spelt) : '\n' ∉ s.text.toList := by
  rw [s.toList_text]
  exact Phrase.not_mem_newline_chars _ (Stmt.Spelt.reads s h).1

/-- What is written for a source without a static fault can be read. Each statement takes one
    line, and the lines of two statements, of the same source or of different ones, are the same
    if and only if the statements are, where places are forgotten and the name `inf` takes the
    place of literals that are infinite. -/
theorem Program.trees_readable {source other : String} {program others : List Stmt}
    (h : ofSource source = .ok program) (hother : ofSource other = .ok others) :
    (∀ s ∈ program, '\n' ∉ s.text.toList) ∧
    Text.splitLines (Console.script .trees source).stdout.toUTF8.toList =
      program.map (fun s => (s.text ++ "\n").toUTF8.toList) ∧
    ∀ s ∈ program, ∀ t ∈ others,
      s.text = t.text ↔ (s.move .forget).nameInfinities = (t.move .forget).nameInfinities := by
  have hspelt := allSpelt_of_ofSource h
  have hothers := allSpelt_of_ofSource hother
  have hnewline : ∀ s ∈ program, '\n' ∉ s.text.toList := fun s hs =>
    (hspelt.spelt hs).not_mem_newline_text
  refine ⟨hnewline, ?_, fun s hs t ht => (hspelt.spelt hs).text_eq_iff (hothers.spelt ht)⟩
  have hlines : Text.IsLines ((program.map Stmt.text).map (· ++ "\n")) := by
    refine .map fun line hline => ?_
    obtain ⟨s, hs, rfl⟩ := List.mem_map.mp hline
    exact hnewline s hs
  rw [Console.script_trees h]
  rw [List.map_map] at hlines
  exact (Text.splitLines_join hlines).trans (List.map_map ..)

theorem Program.ofSource_primary {source : String} {t semicolon : Token} {e : Expr}
    (h : Scan.items source = [.ok t, .ok semicolon]) (he : Expr.Derives .primary [t] e)
    (hsemicolon : semicolon.kind = .semicolon) : ofSource source = .ok [.expression e] := by
  have hderives : Stmt.Derives [t, semicolon] (.expression e) :=
    .expression (he.of_rank_le (by decide)) hsemicolon
  exact ofSource_eq_ok_iff.mpr ⟨[t, semicolon], h, .cons hderives .nil⟩

/-- A numeral that is too large for a finite number is written as the name `inf`. -/
theorem Program.trees_readable_infinity :
    ofSource "inf;" = .ok [.expression (.var ⟨.identifier, "inf", ⟨1, 1⟩⟩)] ∧
    ofSource (String.ofList ('1' :: List.replicate 309 '0' ++ [';'])) =
      .ok [.expression (.literal (.number (.ofBits 0x7ff0000000000000)))] ∧
    (Stmt.expression (.var ⟨.identifier, "inf", ⟨1, 1⟩⟩)).text =
      (Stmt.expression (.literal (.number (.ofBits 0x7ff0000000000000)))).text := by
  have hitems : Scan.items "inf;" =
      [.ok ⟨.identifier, "inf", ⟨1, 1⟩⟩, .ok ⟨.semicolon, ";", ⟨1, 4⟩⟩] := by decide +kernel
  have hname := ofSource_primary hitems (.var rfl) rfl
  have hread : Number.read? ('1' :: List.replicate 309 '0') =
      some (.ofBits 0x7ff0000000000000) := by decide +kernel
  have hdigits : Piece.IsDigits ('1' :: List.replicate 309 '0') := by
    refine ⟨List.cons_ne_nil _ _, fun c hc => ?_⟩
    rcases List.mem_cons.mp hc with rfl | hc
    · decide
    · rw [List.eq_of_mem_replicate hc]
      decide
  have hfirst := (IsLexeme.numeral (.whole hdigits)).first (.numeral hread)
  have hscan := Scan.itemsAt_token (p := .start) (hfirst.append Piece.isSeparate_semicolon [])
  rw [List.nil_append, Scan.itemsAt_semicolon] at hscan
  rw [← String.toList_ofList (l := '1' :: List.replicate 309 '0' ++ [';'])] at hscan
  have hnumeral := ofSource_primary hscan (.literal (.number _)) rfl
  obtain ⟨-, -, hreadable⟩ := trees_readable hname hnumeral
  refine ⟨hname, hnumeral, (hreadable _ List.mem_cons_self _ List.mem_cons_self).mpr ?_⟩
  have hinfinite : (Value.number (.ofBits 0x7ff0000000000000)).isInfinite = true := by
    decide +kernel
  simp only [Stmt.move, Stmt.nameInfinities, Expr.move, Expr.nameInfinities, if_pos hinfinite]
  rfl

end BlockScript
