import BlockScript.Proofs.Parse.Soundness

/-!
# Reading is exact

`Stmt.parse` reads a statement if and only if one of the grammar stands in front
(`Stmt.parse_eq_ok_iff`), and `Stmt.parseAll` reads without a fault if and only if statements of
the grammar reach up to the mark of the end. Reading is a function, so the grammar is unambiguous
and no statement begins another one (`Stmt.parse_exact`).
-/

namespace BlockScript.Stmt

theorem parse_eq_ok_iff {ts rest : List Token} {s : Stmt} :
    parse ts = (.ok s, rest) ↔ ∃ us, ts = us ++ rest ∧ Derives us s := by
  constructor
  · exact derives_of_parse
  · rintro ⟨us, rfl, hs⟩
    exact parse_append hs rest

/-- Two statements that stand in front of the same tokens are the same. -/
theorem Derives.unique {ts us rest others : List Token} {s t : Stmt} (hs : Derives ts s)
    (ht : Derives us t) (heq : ts ++ rest = us ++ others) : ts = us ∧ rest = others ∧ s = t := by
  have hread := parse_append hs rest
  rw [heq, parse_append ht others] at hread
  cases hread
  exact ⟨List.append_cancel_right heq, rfl, rfl⟩

/-- The tokens before the first mark of the end, or all where there is none. -/
def beforeEnd (ts : List Token) : List Token := ts.takeWhile fun t => !t.isEnd

theorem beforeEnd_append {ts : List Token} (us : List Token) (h : ∀ t ∈ ts, t.isEnd = false) :
    beforeEnd (ts ++ us) = ts ++ beforeEnd us :=
  List.takeWhile_append_of_pos fun t ht => by simp [h t ht]

theorem exists_beforeEnd_append (ts : List Token) :
    ∃ rest, ts = beforeEnd ts ++ rest ∧ atEnd rest = true := by
  refine ⟨ts.dropWhile fun t => !t.isEnd, List.takeWhile_append_dropWhile.symm, ?_⟩
  cases hrest : ts.dropWhile fun t => !t.isEnd with
  | nil => rfl
  | cons t rest =>
    have hhead := List.head?_dropWhile_not (fun t : Token => !t.isEnd) ts
    simpa [hrest, atEnd] using hhead

theorem beforeEnd_eq_nil {ts : List Token} (h : atEnd ts = true) : beforeEnd ts = [] := by
  cases ts with
  | nil => rfl
  | cons t ts =>
    have ht : t.isEnd = true := h
    simp [beforeEnd, ht]

theorem Derives.atEnd_append {ts : List Token} {s : Stmt} (h : Derives ts s) (us : List Token) :
    atEnd (ts ++ us) = false := by
  cases ts with
  | nil => exact absurd rfl h.ne_nil
  | cons t ts => exact h.isEnd_eq_false t List.mem_cons_self

theorem parseAll_of_parse {ts rest : List Token} {s : Stmt} (hend : atEnd ts = false)
    (h : parse ts = (.ok s, rest)) :
    parseAll ts = (.ok s :: (parseAll rest).1, (parseAll rest).2) := by
  rw [parseAll, dif_neg (by simp [hend]), parseOrSkip_of_ok h]

/-- Statements of the grammar are read up to what ends the source. -/
theorem DerivesAll.parseAll_append {ts rest : List Token} {ss : List Stmt}
    (h : DerivesAll ts ss) (hrest : atEnd rest = true) :
    parseAll (ts ++ rest) = (ss.map .ok, rest) := by
  induction ss generalizing ts with
  | nil =>
    cases h
    rw [List.nil_append, parseAll, dif_pos hrest]
    rfl
  | cons s ss ih =>
    cases h with
    | @cons ts us _ _ hs hss =>
      have hparse := parse_append hs (us ++ rest)
      rw [List.append_assoc, parseAll_of_parse (hs.atEnd_append _) hparse, ih hss]
      rfl

theorem parseAll_of_derivesAll {ts : List Token} {ss : List Stmt}
    (h : DerivesAll (beforeEnd ts) ss) : (parseAll ts).1 = ss.map .ok := by
  obtain ⟨rest, hts, hrest⟩ := exists_beforeEnd_append ts
  rw [hts, h.parseAll_append hrest]

/-- Where all that is read fits, it is statements of the grammar. -/
theorem exists_derivesAll_of_parseAll (ts : List Token)
    (h : ∀ result ∈ (parseAll ts).1, ∃ s, result = .ok s) :
    ∃ ss, DerivesAll (beforeEnd ts) ss := by
  fun_induction parseAll ts with
  | case1 ts hend =>
    rw [beforeEnd_eq_nil hend]
    exact ⟨[], .nil⟩
  | case2 ts hend round results unread hrest ih =>
    rw [hrest] at ih
    obtain ⟨ss, hss⟩ := ih fun result hresult => h result (List.mem_cons_of_mem _ hresult)
    obtain ⟨s, hs⟩ := h round.1 List.mem_cons_self
    cases hparse : parse ts with
    | mk result rest =>
      cases result with
      | error d => simp [round, parseOrSkip_of_error hparse] at hs
      | ok s =>
        obtain ⟨us, rfl, hderives⟩ := parse_eq_ok_iff.mp hparse
        have hround : round.2 = rest := by simp [round, parseOrSkip_of_ok hparse]
        rw [hround] at hss
        refine ⟨s :: ss, ?_⟩
        rw [beforeEnd_append rest hderives.isEnd_eq_false]
        exact .cons hderives hss

/-- Reading is exact. A statement is read from the front of `ts` if and only if the grammar has it
    there, with what follows it left unread; the grammar has at most one statement there, and none
    that begins another; and all of `ts` is read without a fault if and only if what stands before
    the mark of the end is statements of the grammar, which are then the results. -/
theorem parse_exact (ts : List Token) :
    (∀ s rest, parse ts = (.ok s, rest) ↔ ∃ us, ts = us ++ rest ∧ Derives us s) ∧
    (∀ us rest s vs others t, ts = us ++ rest ∧ Derives us s → ts = vs ++ others ∧ Derives vs t →
      us = vs ∧ rest = others ∧ s = t) ∧
    (∀ us s t, Derives ts s → Derives (ts ++ us) t → us = []) ∧
    ((∀ result ∈ (parseAll ts).1, ∃ s, result = .ok s) ↔ ∃ ss, DerivesAll (beforeEnd ts) ss) ∧
    (∀ ss, DerivesAll (beforeEnd ts) ss → (parseAll ts).1 = ss.map .ok) := by
  refine ⟨fun s rest => parse_eq_ok_iff, ?_, ?_, ⟨exists_derivesAll_of_parseAll ts, ?_⟩,
    fun ss => parseAll_of_derivesAll⟩
  · rintro us rest s vs others t ⟨rfl, hs⟩ ⟨heq, ht⟩
    exact hs.unique ht heq
  · intro us s t hs ht
    have hwhole : ts ++ us = (ts ++ us) ++ [] := (List.append_nil _).symm
    exact (hs.unique ht hwhole).2.1
  · rintro ⟨ss, hss⟩ result hresult
    rw [parseAll_of_derivesAll hss] at hresult
    obtain ⟨s, -, rfl⟩ := List.mem_map.mp hresult
    exact ⟨s, rfl⟩

end BlockScript.Stmt
