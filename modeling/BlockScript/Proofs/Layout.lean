import BlockScript.Proofs.Scan.Concatenation
import BlockScript.Proofs.Transcript

/-!
# Layout does not matter

`Scan.LaidOut` describes the sources that are made of given lexemes, with at least a blank between
any two of them. All of them have the same tokens, but for the places, and sources with the same
tokens are read and run alike (`Scan.layout_irrelevant`).
-/

namespace BlockScript

/-- Forgets the place. -/
def Position.forget (_ : Position) : Position := .start

namespace Scan

open Piece (First blanks)

/-- The lexemes of the tokens of a source, without the mark of the end. -/
def lexemes (source : String) : List String :=
  ((items source).filterMap Except.toOption).map Token.lexeme

/-- Blanks, and comments with the line feeds that end them. -/
inductive Filler : List Char → Prop
  | nil : Filler []
  | blank {c : Char} {text : List Char} :
      c ∈ [' ', '\t', '\r', '\n'] → Filler text → Filler (c :: text)
  | comment {body text : List Char} :
      '\n' ∉ body → Filler text → Filler ('/' :: '/' :: body ++ '\n' :: text)

/-- A blank, and then any blanks and comments. -/
inductive Separator : List Char → Prop
  | mk {c : Char} {text : List Char} :
      c ∈ [' ', '\t', '\r', '\n'] → Filler text → Separator (c :: text)

/-- The lexemes in order, with a separator after each, which the last one may lack. -/
inductive Spaced : List String → List Char → Prop
  | nil : Spaced [] []
  | last {lexeme : String} : Spaced [lexeme] lexeme.toList
  | cons {lexeme : String} {lexemes : List String} {separator text : List Char} :
      Separator separator → Spaced lexemes text →
      Spaced (lexeme :: lexemes) (lexeme.toList ++ (separator ++ text))

/-- The source is made of the lexemes in order, of separators between them, and of blanks and
    comments around. -/
inductive LaidOut (lexemes : List String) (source : String) : Prop
  | mk {lead text : List Char} :
      Filler lead → Spaced lexemes text → source.toList = lead ++ text → LaidOut lexemes source

/-! ## The tokens of a layout -/

theorem itemsAt_filler {p : Position} {filler : List Char} (h : Filler filler)
    (rest : List Char) : itemsAt p (filler ++ rest) = itemsAt (p.after filler) rest := by
  induction h generalizing p with
  | nil => rfl
  | @blank c text hc _ ih =>
    have hfirst : First [c] (text ++ rest) .blank := .blank (by simpa [blanks] using hc)
    have hitems := itemsAt_append (p := p) hfirst
    rw [ih] at hitems
    exact hitems
  | @comment body text hbody _ ih =>
    have hcomment : First ('/' :: '/' :: body) ('\n' :: (text ++ rest)) .blank :=
      .comment hbody (by simp)
    have hfeed : First ['\n'] (text ++ rest) .blank := .blank (by decide)
    have hitems := itemsAt_append (p := p) hcomment
    have hrest := itemsAt_append (p := p.after ('/' :: '/' :: body)) hfeed
    rw [ih] at hrest
    have happend : '/' :: '/' :: body ++ '\n' :: text ++ rest =
        '/' :: '/' :: body ++ '\n' :: (text ++ rest) := List.append_assoc _ _ _
    rw [happend, hitems, Position.after_append]
    exact hrest

/-- The token is what its lexeme makes where nothing else is around. -/
def Alone (t : Token) : Prop := First t.lexeme.toList [] (.token t.kind)

/-- The lexeme tells the kind of a token. -/
theorem Alone.kind_eq {t u : Token} (ht : Alone t) (hu : Alone u) (h : t.lexeme = u.lexeme) :
    t.kind = u.kind := by
  have heq : t.lexeme.toList ++ [] = u.lexeme.toList ++ [] := by rw [h]
  obtain ⟨-, hkind⟩ := hu.unique ht heq
  exact Piece.Content.token.inj hkind

theorem map_forget_eq {ts us : List Token} (hts : ∀ t ∈ ts, Alone t) (hus : ∀ u ∈ us, Alone u)
    (h : ts.map Token.lexeme = us.map Token.lexeme) :
    ts.map (Token.move .forget) = us.map (Token.move .forget) := by
  induction ts generalizing us with
  | nil =>
    obtain rfl := List.map_eq_nil_iff.mp h.symm
    rfl
  | cons t ts ih =>
    cases us with
    | nil => cases h
    | cons u us =>
      obtain ⟨hlexeme, hrest⟩ := List.cons.inj h
      have hkind := (hts t List.mem_cons_self).kind_eq (hus u List.mem_cons_self) hlexeme
      have htail := ih (fun v hv => hts v (List.mem_cons_of_mem _ hv))
        (fun v hv => hus v (List.mem_cons_of_mem _ hv)) hrest
      rw [List.map_cons, List.map_cons, htail, Token.move, Token.move, hkind, hlexeme]
      rfl

theorem itemsAt_spaced {p : Position} {ts : List Token} {text : List Char}
    (hts : ∀ t ∈ ts, Alone t) (h : Spaced (ts.map Token.lexeme) text) :
    (itemsAt p text).map (moveItem .forget) = (ts.map (Token.move .forget)).map .ok := by
  generalize hlexemes : ts.map Token.lexeme = lexemes at h
  induction h generalizing p ts with
  | nil =>
    obtain rfl := List.map_eq_nil_iff.mp hlexemes
    rw [itemsAt_nil]
    rfl
  | last =>
    obtain ⟨t, rest, rfl, rfl, hrest⟩ := List.map_eq_cons_iff.mp hlexemes
    obtain rfl := List.map_eq_nil_iff.mp hrest
    have hitems := itemsAt_append (p := p) (hts t List.mem_cons_self)
    rw [itemsAt_nil, List.append_nil] at hitems
    rw [hitems]
    simp [Piece.item?, moveItem, Token.move, Position.forget]
  | @cons lexeme lexemes separator text hseparator _ ih =>
    obtain ⟨t, rest, rfl, rfl, hrest⟩ := List.map_eq_cons_iff.mp hlexemes
    cases hseparator with
    | @mk c filler hc hfiller =>
      -- The separator begins with a blank, so that the lexeme in front of it stays what it is.
      have hblank : c ∈ blanks := by simpa [blanks] using hc
      have hfirst := (hts t List.mem_cons_self).append_blank hblank (filler ++ text)
      have hgap := itemsAt_filler (p := p.after t.lexeme.toList) (.blank hc hfiller) text
      have htail := ih (p := (p.after t.lexeme.toList).after (c :: filler))
        (fun u hu => hts u (List.mem_cons_of_mem _ hu)) hrest
      have hitems := itemsAt_append (p := p) hfirst
      rw [List.nil_append, ← List.cons_append, hgap] at hitems
      rw [hitems, List.map_append, htail]
      simp [Piece.item?, moveItem, Token.move, Position.forget]

theorem alone_of_items {source : String} {ts : List Token} (h : items source = ts.map .ok) :
    ∀ t ∈ ts, Alone t := by
  intro t ht
  obtain ⟨rest, hfirst⟩ := exists_first_of_items h ht
  exact hfirst.token_alone

theorem lexemes_of_items {source : String} {ts : List Token} (h : items source = ts.map .ok) :
    lexemes source = ts.map Token.lexeme := by
  rw [lexemes, h, List.filterMap_map]
  simp [Except.toOption, Function.comp_def]

/-- A layout of the lexemes has the same tokens, but for the places. -/
theorem exists_tokens_of_laidOut {source other : String} {ts : List Token}
    (h : items source = ts.map .ok) (hlaid : LaidOut (lexemes source) other) :
    ∃ us : List Token, items other = us.map .ok ∧
      us.map (Token.move .forget) = ts.map (Token.move .forget) := by
  cases hlaid with
  | @mk lead text hlead hspaced hother =>
    rw [lexemes_of_items h] at hspaced
    have hitems := itemsAt_spaced (p := Position.start.after lead) (alone_of_items h) hspaced
    rw [← itemsAt_filler hlead, ← hother] at hitems
    exact exists_tokens_of_moveItem hitems

/-! ## Sources with the same tokens -/

/-- The two sources are read and run alike. Trees and diagnostics differ at most in the places, and
    all else is the same: the scopes and the output that a run leaves behind, what is written to
    standard output, and the exit code. -/
structure Interchangeable (source other : String) : Prop where
  results_eq : (Stmt.parseAll (ofSource other).tokens).1.map (Stmt.moveResult .forget) =
    (Stmt.parseAll (ofSource source).tokens).1.map (Stmt.moveResult .forget)
  outcome_eq : ∀ m, (Session.run m other).1.move .forget = (Session.run m source).1.move .forget
  machine_eq : ∀ m, (Session.run m other).2 = (Session.run m source).2
  feed_eq : ∀ c : Console, ∃ failure? m ds es,
    ds.map (Diagnostic.move .forget) = es.map (Diagnostic.move .forget) ∧
    c.feed .run source = (failure?, ⟨m, c.stderr ++ Diagnostic.reports ds⟩) ∧
    c.feed .run other = (failure?, ⟨m, c.stderr ++ Diagnostic.reports es⟩)
  runScript_eq : ∃ stdout exitCode ds es,
    ds.map (Diagnostic.move .forget) = es.map (Diagnostic.move .forget) ∧
    Console.runScript .run (.ok source) = ⟨stdout, Diagnostic.reports ds, exitCode⟩ ∧
    Console.runScript .run (.ok other) = ⟨stdout, Diagnostic.reports es, exitCode⟩

theorem diagnostics_move (g : Position → Position) (outcome : Session.Outcome) :
    (outcome.move g).diagnostics = outcome.diagnostics.map (Diagnostic.move g) := by
  cases outcome <;> rfl

theorem failure?_move (g : Position → Position) (outcome : Session.Outcome) :
    (outcome.move g).failure? = outcome.failure? := by
  cases outcome <;> rfl

theorem interchangeable_of_tokens {source other : String} {ts us : List Token}
    (hts : items source = ts.map .ok) (hus : items other = us.map .ok)
    (h : us.map (Token.move .forget) = ts.map (Token.move .forget)) :
    Interchangeable source other := by
  have htokens : (us ++ [endToken other]).map (Token.move .forget) =
      (ts ++ [endToken source]).map (Token.move .forget) := by
    rw [List.map_append, List.map_append, h]
    rfl
  have hrun : ∀ m, (Session.run m other).1.move .forget = (Session.run m source).1.move .forget ∧
      (Session.run m other).2 = (Session.run m source).2 := by
    intro m
    have hexecute := congrArg (fun all => Session.execute m (Program.ofTokens all)) htokens
    simp only [Program.ofTokens_move, Session.execute_move, ← Program.ofSource_of_items hts,
      ← Program.ofSource_of_items hus, ← Session.run_eq_execute] at hexecute
    exact Prod.mk.inj hexecute
  have hfeed : ∀ c : Console, ∃ failure? m ds es,
      ds.map (Diagnostic.move .forget) = es.map (Diagnostic.move .forget) ∧
      c.feed .run source = (failure?, ⟨m, c.stderr ++ Diagnostic.reports ds⟩) ∧
      c.feed .run other = (failure?, ⟨m, c.stderr ++ Diagnostic.reports es⟩) := by
    intro c
    obtain ⟨houtcome, hmachine⟩ := hrun c.machine
    have hdiagnostics := congrArg Session.Outcome.diagnostics houtcome
    have hfailure := congrArg Session.Outcome.failure? houtcome
    rw [diagnostics_move, diagnostics_move] at hdiagnostics
    rw [failure?_move, failure?_move] at hfailure
    refine ⟨_, _, _, _, hdiagnostics.symm, c.feed_run source, ?_⟩
    rw [c.feed_run other, hfailure, hmachine]
  refine ⟨?_, fun m => (hrun m).1, fun m => (hrun m).2, hfeed, ?_⟩
  · have hparse := congrArg (fun all => (Stmt.parseAll all).1) htokens
    simp only [Stmt.parseAll_move] at hparse
    rw [ofSource_of_items hts, ofSource_of_items hus]
    exact hparse
  · obtain ⟨failure?, m, ds, es, hdiagnostics, hsource, hother⟩ := hfeed .new
    have hnew : Console.new.stderr = "" := rfl
    rw [hnew, String.empty_append] at hsource hother
    cases failure? with
    | none =>
      refine ⟨m.output.text, 0, ds, es, hdiagnostics, ?_, ?_⟩
      · simp only [Console.runScript, hsource]
        rfl
      · simp only [Console.runScript, hother]
        rfl
    | some failure =>
      refine ⟨m.output.text, failure.exitCode, ds, es, hdiagnostics, ?_, ?_⟩
      · simp only [Console.runScript, hsource]
        rfl
      · simp only [Console.runScript, hother]
        rfl

/-- Layout does not matter. Any layout of the lexemes of a source without a lexical fault has the
    same tokens at other places, and a source with the same lexemes is read and run alike. -/
theorem layout_irrelevant {source : String} (h : (ofSource source).diagnostics = []) :
    (∀ other, LaidOut (lexemes source) other → (ofSource other).diagnostics = [] ∧
      (ofSource other).tokens.map (Token.move .forget) =
        (ofSource source).tokens.map (Token.move .forget)) ∧
    ∀ other, (ofSource other).diagnostics = [] → lexemes other = lexemes source →
      Interchangeable source other := by
  obtain ⟨ts, hts⟩ := exists_tokens_of_diagnostics h
  constructor
  · intro other hlaid
    obtain ⟨us, hus, hforget⟩ := exists_tokens_of_laidOut hts hlaid
    rw [ofSource_of_items hts, ofSource_of_items hus, List.map_append, List.map_append, hforget]
    exact ⟨rfl, rfl⟩
  · intro other hother hlexemes
    obtain ⟨us, hus⟩ := exists_tokens_of_diagnostics hother
    rw [lexemes_of_items hts, lexemes_of_items hus] at hlexemes
    exact interchangeable_of_tokens hts hus
      (map_forget_eq (alone_of_items hus) (alone_of_items hts) hlexemes)

/-- Two slashes within a string are no comment, and outside of it they begin one. -/
theorem layout_irrelevant_slashes :
    (ofSource "print\"//\";").diagnostics = [] ∧
    LaidOut (lexemes "print\"//\";") "print //\n\"//\" ;" ∧
    (ofSource "print //\n\"//\" ;").diagnostics = [] ∧
    Interchangeable "print\"//\";" "print //\n\"//\" ;" := by
  have hsource : (ofSource "print\"//\";").diagnostics = [] := by decide +kernel
  have hlexemes : lexemes "print\"//\";" = ["print", "\"//\"", ";"] := by decide +kernel
  have hlaid : LaidOut (lexemes "print\"//\";") "print //\n\"//\" ;" := by
    have hcomment : Filler ['/', '/', '\n'] := .comment (by simp : '\n' ∉ ([] : List Char)) .nil
    rw [hlexemes]
    refine .mk .nil (.cons (.mk (c := ' ') (by simp) hcomment)
      (.cons (.mk (c := ' ') (by simp) .nil) .last)) rfl
  have hother := ((layout_irrelevant hsource).1 _ hlaid).1
  have hsame : lexemes "print //\n\"//\" ;" = lexemes "print\"//\";" := by decide +kernel
  exact ⟨hsource, hlaid, hother, (layout_irrelevant hsource).2 _ hother hsame⟩

end Scan

end BlockScript
