import CallHoist.Proofs.Grammar.Form

/-!
# Runs over a form

A run takes each text that has the form of its rule with names and atoms that are taken where they stand, in front of
each text that the rule does not go on with. So for a call the form says exactly what is taken (`takes_call_iff`).

A repetition gives nothing back, and the choices are ordered. Neither costs a text of the form. A sum goes on over each
operand of the chain that has at most one sign and stops at the first that has more, or at a parenthesis; from there
the chain goes on (`run_rounds`). A ternary that is tried on a chain fails at what comes behind its first term
(`run_ternary_of_chain`).
-/

namespace CallHoist.Grammar

open Text Peg Form

/-- Behind blanks, the text does not begin with a character of a class. -/
def Still (p : Char → Bool) (y : Text) : Prop := leads p (behindBlanks y) = false

/-! ### Signs -/

theorem run_atom_of_leads {c : Char} (hw : isWordChar c = false) (hq : c ≠ '"') (hcol : c ≠ ':') (s : Text) :
    atom.run (c :: s) = none := by
  have hname : qualifiedName.run (c :: s) = none := run_name_of_leads hw (by simp [dropFront?, Ne.symm hcol])
  have hstring : string.run (c :: s) = none := by
    show (Peg.seq (.lit ['"']) _).run _ = _
    rw [run_seq, run_lit_singleton, run]
    simp [hq]
  have hnumber : number.run (c :: s) = none := by
    have hd : isDigit c ≠ true := fun h => by
      rw [isWordChar_of_isDigit h] at hw
      cases hw
    show (Peg.seq (.one isDigit) _).run _ = _
    rw [run_seq, run, if_neg hd]
    rfl
  rw [atom, run_alt, hname, constant, run_alt, hstring, hnumber]
  rfl

private theorem isSign_cases {c : Char} (h : isSign c = true) :
    isWordChar c = false ∧ c ≠ '"' ∧ c ≠ ':' ∧ isWhiteSpace c = false := by
  simp only [isSign, Bool.or_eq_true, beq_iff_eq] at h
  rcases h with rfl | rfl <;> decide

private theorem leads_of_run_atom {x r : Text} (h : atom.run x = some r) :
    leads isSign x = false ∧ leads isWhiteSpace x = false := by
  obtain ⟨t, rfl, ht⟩ := exists_takes h
  refine ⟨?_, ((opens_takes.begins_atom ht).append r).leads_blank⟩
  cases hx : t ++ r with
  | nil => rfl
  | cons c s =>
    rw [leads_cons, Bool.eq_false_iff]
    intro hc
    obtain ⟨hw, hq, hcol, -⟩ := isSign_cases hc
    rw [hx, run_atom_of_leads hw hq hcol] at h
    cases h

private theorem Signs.leads_blank {n : Nat} {s x : Text} (h : Signs n s) (hx : leads isWhiteSpace x = false) :
    leads isWhiteSpace (s ++ x) = false := by
  cases h with
  | nil => exact hx
  | cons hc _ _ => exact (isSign_cases hc).2.2.2

/-- An optional sign takes the first of the signs that are there. -/
private theorem run_signed {n : Nat} {s x : Text} (hs : Signs (n + 1) s) (hx : leads isSign x = false)
    (hb : leads isWhiteSpace x = false) (a : Peg) :
    ∃ s', Signs n s' ∧ (signed a).run (s ++ x) = a.run (s' ++ x) := by
  have hopt : ∀ y, (signed a).run y = a.run (((Peg.seq sign blanks).run y).getD y) := by
    intro y
    rw [signed, run_seq, run_opt, Option.bind_some]
  cases hs with
  | nil =>
    refine ⟨[], .nil, ?_⟩
    rw [hopt, run_seq]
    cases x with
    | nil => rfl
    | cons c x =>
      rw [leads_cons] at hx
      simp [sign, run, hx]
  | @cons _ c b s hc hbl hs =>
    refine ⟨s, hs, ?_⟩
    rw [hopt, List.cons_append, List.append_assoc, run_seq, sign, run, if_pos hc, Option.bind_some, run_blanks,
      behindBlanks_append hbl, behindBlanks_of_leads (hs.leads_blank hb)]
    rfl

private theorem Signs.eq_nil {s : Text} (h : Signs 0 s) : s = [] := by
  cases h
  rfl

private theorem run_operand {s x : Text} (hs : Signs 1 s) (hx : leads isSign x = false)
    (hb : leads isWhiteSpace x = false) : operand.run (s ++ x) = atom.run x := by
  obtain ⟨s', hs', h⟩ := run_signed hs hx hb atom
  rw [hs'.eq_nil] at h
  exact h

/-- The further operands of a sum. -/
def addends : Peg := .after operator operand

private theorem run_sExpression {s x : Text} (hs : Signs 2 s) (hx : leads isSign x = false)
    (hb : leads isWhiteSpace x = false) : sExpression.run (s ++ x) = (atom.run x).bind (star addends).run := by
  obtain ⟨s', hs', h⟩ := run_signed hs hx hb (.seq operand (.star addends))
  rw [run_seq, run_operand hs' hx hb] at h
  exact h

private theorem run_star_isSome (a : Peg) (s : Text) : ∃ r, (star a).run s = some r := ⟨_, run_star a s⟩

/-- A signed term that begins with an atom is a sum. -/
private theorem run_signedTerm {s x r : Text} (hs : Signs 3 s) (h : atom.run x = some r) :
    signedTerm.run (s ++ x) = (star addends).run r := by
  obtain ⟨hx, hb⟩ := leads_of_run_atom h
  obtain ⟨s', hs', ht⟩ := run_signed hs hx hb term
  obtain ⟨m, hm⟩ := run_star_isSome addends r
  rw [signedTerm, ht, term, run_alt, run_sExpression hs' hx hb, h, Option.bind_some, hm]
  rfl

/-! ### Sums -/

private theorem isWhiteSpace_of_isOperator {c : Char} (h : isOperator c = true) : isWhiteSpace c = false :=
  (isBreak_cases (isOperator_cases h).1).1

private theorem run_operator (s : Text) : operator.run s = (Peg.one isOperator).run s := rfl

theorem Form.Operand.takes {u z : Text} (h : Operand Takes 1 u z) : operand.Takes u z := by
  obtain ⟨hs, ha⟩ := h
  obtain ⟨hx, hb⟩ := leads_of_run_atom ha
  rw [Takes, List.append_assoc, run_operand hs hx hb]
  exact ha

private theorem run_addends {v y : Text} (h : Rounds (After isOperator (Operand Takes 1)) y v) :
    (star addends).run (v ++ y) = (star addends).run y := by
  refine Rounds.run_star (h.imp fun u w _ hu => ?_)
  obtain @⟨b, b', t, _, c, hb, hc, hb', ho⟩ := hu
  have ht := ho.takes
  have hlead : leads isWhiteSpace (t ++ (w ++ y)) = false := by
    obtain ⟨hs, ha⟩ := ho
    rw [List.append_assoc]
    exact hs.leads_blank (leads_of_run_atom ha).2
  rw [Takes, List.append_assoc, List.cons_append, List.append_assoc, addends,
    run_after_cons run_operator hb hc (isWhiteSpace_of_isOperator hc) hb' hlead]
  exact ht

private theorem Form.Plain.run_sExpression {t y : Text} (h : Plain Takes 2 t y) :
    sExpression.run (t ++ y) = (star addends).run y := by
  obtain ⟨⟨hs, ha⟩, hv⟩ := h
  obtain ⟨hx, hb⟩ := leads_of_run_atom ha
  rw [List.append_assoc, List.append_assoc, Grammar.run_sExpression hs hx hb, ha, Option.bind_some, run_addends hv]

private theorem Form.Plain.run_signedTerm {t y : Text} (h : Plain Takes 3 t y) :
    signedTerm.run (t ++ y) = (star addends).run y := by
  obtain ⟨⟨hs, ha⟩, hv⟩ := h
  rw [List.append_assoc, List.append_assoc, Grammar.run_signedTerm hs ha, run_addends hv]

private theorem run_addends_of_still {y : Text} (h : Still isOperator y) : (star addends).run y = some y :=
  run_star_of_none (run_after_of_leads run_operator h)

theorem Form.Plain.takes {t y : Text} (h : Plain Takes 2 t y) (hy : Still isOperator y) : sExpression.Takes t y := by
  rw [Takes, h.run_sExpression, run_addends_of_still hy]

/-! ### Signed terms -/

private theorem run_paren {c : Char} (s : Text) (p : Peg) : (Peg.seq (.lit [c]) p).run (c :: s) = p.run s := by
  rw [run_seq, run_lit_singleton, run, if_pos (beq_self_eq_true c), Option.bind_some]

private theorem still_of_cons {p : Char → Bool} {b : Text} {c : Char} (hb : b.all isWhiteSpace = true)
    (hc : isWhiteSpace c = false) (hp : p c = false) (s : Text) : Still p (b ++ c :: s) := by
  rw [Still, behindBlanks_cons hb hc]
  exact hp

section Group

variable {s b t b' y : Text} (hb : b.all isWhiteSpace = true) (ht : Plain Takes 2 t (b' ++ ')' :: y))
  (hb' : b'.all isWhiteSpace = true)
include hb ht hb'

theorem takes_pExpression (hs : Signs 1 s) : pExpression.Takes (s ++ '(' :: (b ++ (t ++ (b' ++ [')'])))) y := by
  obtain ⟨s', hs', hgroup⟩ := run_signed (x := '(' :: (b ++ (t ++ (b' ++ ')' :: y)))) hs rfl rfl
    (.all [.lit ['('], blanks, sExpression, blanks, .lit [')']])
  have hsum : sExpression.Takes t (b' ++ ')' :: y) := ht.takes (still_of_cons hb' rfl rfl _)
  have hbody : (Peg.all [.lit ['('], blanks, sExpression, blanks, .lit [')']]).run
      ('(' :: (b ++ (t ++ (b' ++ ')' :: y)))) = some y := by
    show (Peg.seq (.lit ['(']) (.seq blanks (.seq sExpression (.seq blanks (.lit [')']))))).run _ = _
    rw [run_paren, run_blanks_seq, behindBlanks_append hb,
      behindBlanks_of_leads ((ht.begins opens_takes).append _).leads_blank, run_seq, hsum, Option.bind_some,
      run_blanks_seq, behindBlanks_cons hb' rfl, run_lit_singleton]
    rfl
  rw [hs'.eq_nil, List.nil_append, hbody] at hgroup
  simpa [Takes, pExpression] using hgroup

/-- No sum begins with a parenthesis, so the second alternative of a term is left. -/
theorem takes_term_of_group (hs : Signs 1 s) : term.Takes (s ++ '(' :: (b ++ (t ++ (b' ++ [')'])))) y := by
  have hgroup := takes_pExpression hb ht hb' hs
  have hatom : ∀ x, atom.run ('(' :: x) = none := run_atom_of_leads rfl (by decide) (by decide)
  have hsum : ∀ x, sExpression.run (s ++ '(' :: x) = none := by
    intro x
    rw [run_sExpression (hs.mono (by decide)) rfl rfl, hatom]
    rfl
  unfold Takes at hgroup ⊢
  rw [term, run_alt, hgroup, List.append_assoc, List.cons_append, hsum]
  rfl

private theorem takes_signedTerm_of_group (hs : Signs 2 s) :
    signedTerm.Takes (s ++ '(' :: (b ++ (t ++ (b' ++ [')'])))) y := by
  obtain ⟨s', hs', hterm⟩ := run_signed (x := '(' :: (b ++ (t ++ (b' ++ ')' :: y)))) hs rfl rfl term
  have hgroup := takes_term_of_group hb ht hb' hs'
  simp only [Takes, List.append_assoc, List.cons_append, List.nil_append] at hgroup ⊢
  rw [signedTerm, hterm, hgroup]

end Group

/-- A signed term is taken, but if it is a sum, operands that come behind it are taken with it. -/
private theorem Form.SignedTerm.run {t y : Text} (h : SignedTerm Takes t y) :
    signedTerm.run (t ++ y) = (star addends).run y ∨ signedTerm.run (t ++ y) = some y := by
  cases h with
  | plain h => exact .inl h.run_signedTerm
  | group hs hb ht hb' => exact .inr (takes_signedTerm_of_group hb ht hb' hs)

theorem Form.SignedTerm.takes {t y : Text} (h : SignedTerm Takes t y) (hy : Still isOperator y) :
    signedTerm.Takes t y := by
  rcases h.run with h | h
  · rw [Takes, h, run_addends_of_still hy]
  · exact h

/-- Where an operand is taken, a signed term goes on behind it. -/
private theorem run_signedTerm_of_operand {x r : Text} (h : operand.run x = some r) :
    signedTerm.run x = (star addends).run r := by
  obtain ⟨t, rfl, ht⟩ := exists_takes h
  obtain ⟨hs, ha⟩ := opens_takes.operand ht
  rw [List.append_assoc]
  exact run_signedTerm (hs.mono (by decide)) ha

/-! ### Chains -/

/-- The further terms of a chain. -/
def links : Peg := .after operator signedTerm

/-- The rounds of a chain are all taken, be it that the chain takes them from the first on or that the sum at its end
takes some of them before. -/
private theorem run_rounds {v y : Text} (h : Rounds (After isOperator (SignedTerm Takes)) y v)
    (hy : Still isOperator y) :
    (star links).run (v ++ y) = some y ∧
      ∃ m, (star addends).run (v ++ y) = some m ∧ (star links).run m = some y := by
  induction h with
  | nil =>
    have hstop : (star links).run y = some y := run_star_of_none (run_after_of_leads run_operator hy)
    exact ⟨hstop, y, run_addends_of_still hy, hstop⟩
  | @cons u w _ hu _ ih =>
    obtain ⟨ihlinks, m, hm, hlinks⟩ := ih
    obtain @⟨b, b', t, _, c, hb, hc, hb', ht⟩ := hu
    have hlead : leads isWhiteSpace (t ++ (w ++ y)) = false := ((ht.begins opens_takes).append _).leads_blank
    have hround : ∀ a, (Peg.after operator a).run (b ++ c :: (b' ++ t) ++ w ++ y) = a.run (t ++ (w ++ y)) := by
      intro a
      rw [List.append_assoc, List.append_assoc, List.cons_append, List.append_assoc]
      exact run_after_cons run_operator hb hc (isWhiteSpace_of_isOperator hc) hb' hlead
    -- the term of this round, and with it what its own sum takes
    have hterm : ∃ m', signedTerm.run (t ++ (w ++ y)) = some m' ∧ (star links).run m' = some y := by
      rcases ht.run with h | h
      · exact ⟨m, h.trans hm, hlinks⟩
      · exact ⟨w ++ y, h, ihlinks⟩
    obtain ⟨m', hm', hlinks'⟩ := hterm
    have hfirst : (star links).run (b ++ c :: (b' ++ t) ++ w ++ y) = some y := by
      rw [run_star_of_some (a := links) ((hround signedTerm).trans hm'), hlinks']
    refine ⟨hfirst, ?_⟩
    cases hop : operand.run (t ++ (w ++ y)) with
    | none => exact ⟨_, run_star_of_none ((hround operand).trans hop), hfirst⟩
    | some r =>
      refine ⟨m', ?_, hlinks'⟩
      rw [run_star_of_some (a := addends) ((hround operand).trans hop), ← run_signedTerm_of_operand hop, hm']

theorem run_chain (x : Text) : chain.run x = (signedTerm.run x).bind (star links).run := run_seq ..

theorem takes_chain {t y : Text} (h : Series isOperator (SignedTerm Takes) t y) (hy : Still isOperator y) :
    chain.Takes t y := by
  obtain ⟨hu, hv⟩ := h
  obtain ⟨hlinks, m, hm, hlinks'⟩ := run_rounds hv hy
  rw [Takes, run_chain, List.append_assoc]
  rcases hu.run with h | h
  · rw [h, hm]
    exact hlinks'
  · rw [h]
    exact hlinks

/-! ### Ternaries and expressions -/

theorem takes_ternary {t y : Text} (h : Ternary Takes t y) (hy : Still isOperator y) : ternary.Takes t y := by
  obtain @⟨u, v, w, _, hu, hv, hw⟩ := h
  obtain @⟨b, b', v, _, c, hb, hc, hb', hv⟩ := hv
  obtain @⟨d, d', w, _, c', hd, hc', hd', hw⟩ := hw
  obtain rfl := beq_iff_eq.1 hc
  obtain rfl := beq_iff_eq.1 hc'
  have hfirst := hu.takes (by rw [List.append_assoc]; exact still_of_cons hb rfl rfl _)
  have hsecond := hv.takes (by rw [List.append_assoc]; exact still_of_cons hd rfl rfl _)
  have hthird := hw.takes hy
  unfold Takes at hfirst hsecond hthird
  have hbv := ((hv.begins opens_takes).append (d ++ ':' :: (d' ++ w) ++ y)).leads_blank
  have hbw := ((hw.begins opens_takes).append y).leads_blank
  show (Peg.seq signedTerm (.seq blanks (.seq (.lit ['?']) (.seq blanks (.seq signedTerm
    (.seq blanks (.seq (.lit [':']) (.seq blanks signedTerm)))))))).run _ = _
  rw [List.append_assoc, List.append_assoc, run_seq, hfirst, Option.bind_some, run_blanks_seq, List.append_assoc,
    List.cons_append, behindBlanks_cons hb rfl, run_paren, run_blanks_seq, List.append_assoc, behindBlanks_append hb',
    behindBlanks_of_leads hbv, run_seq, hsecond, Option.bind_some, run_blanks_seq, List.append_assoc,
    List.cons_append, behindBlanks_cons hd rfl, run_paren, run_blanks_seq, List.append_assoc, behindBlanks_append hd',
    behindBlanks_of_leads hbw, hthird]

/-- A chain is no ternary, as behind its first term there comes an operator or what ends the chain. -/
private theorem run_ternary_of_chain {x y : Text} (h : chain.run x = some y) (hy : Still (· == '?') y) :
    ternary.run x = none := by
  rw [run_chain, Option.bind_eq_some_iff] at h
  obtain ⟨m, hm, hlinks⟩ := h
  have hstill : Still (· == '?') m := by
    by_cases hop : leads isOperator (behindBlanks m) = true
    · unfold Still
      cases hs : behindBlanks m with
      | nil => rfl
      | cons c s =>
        rw [hs, leads_cons] at hop
        rw [leads_cons, beq_eq_false_iff_ne]
        rintro rfl
        exact absurd hop (by decide)
    · have hnone : links.run m = none := run_after_of_leads run_operator (by simpa using hop)
      rw [run_star_of_none hnone, Option.some.injEq] at hlinks
      rwa [hlinks]
  show (Peg.seq signedTerm (.seq blanks (.seq (.lit ['?']) _))).run _ = _
  rw [run_seq, hm, Option.bind_some, run_blanks_seq, run_seq, run_lit_singleton]
  unfold Still at hstill
  cases hs : behindBlanks m with
  | nil => rfl
  | cons c s =>
    rw [hs, leads_cons] at hstill
    simp [Peg.run, hstill]

/-- A ternary begins with a chain. -/
private theorem run_ternary_of_run_chain {x : Text} (h : chain.run x = none) : ternary.run x = none := by
  cases hs : signedTerm.run x with
  | none =>
    show (Peg.seq signedTerm _).run _ = _
    rw [run_seq, hs]
    rfl
  | some m =>
    obtain ⟨r, hr⟩ := run_star_isSome links m
    rw [run_chain, hs, Option.bind_some, hr] at h
    cases h

/-- What neither goes on an expression nor, as a ternary, is told from one. -/
def goesOn (c : Char) : Bool := isOperator c || c == '?'

private theorem Still.of_goesOn {p : Char → Bool} {y : Text} (h : Still goesOn y)
    (hp : ∀ c, p c = true → goesOn c = true) : Still p y :=
  leads_eq_false_of_imp h hp

theorem takes_expression {o : Order} {t y : Text} (h : Expression Takes o t y) (hy : Still goesOn y) :
    (expression o).Takes t y := by
  have hop : Still isOperator y := hy.of_goesOn fun c hc => by simp [goesOn, hc]
  have hmark : Still (· == '?') y := hy.of_goesOn fun c hc => by simp [goesOn, hc]
  cases h with
  | chain h =>
    have hchain : chain.run (t ++ y) = some y := takes_chain h hop
    cases o with
    | ternaryFirst =>
      rw [Takes, expression, run_alt, run_ternary_of_chain hchain hmark]
      exact hchain
    | chainFirst =>
      rw [Takes, expression, run_alt, hchain]
      rfl
  | ternary h =>
    have hternary : ternary.run (t ++ y) = some y := takes_ternary h hop
    rw [Takes, expression, run_alt, hternary]
    rfl

/-- Where chains are tried first, each expression that is taken is a chain. -/
theorem Form.Expression.of_takes {o : Order} {t y : Text} (h : (expression o).Takes t y) : Expression Takes o t y := by
  cases o with
  | ternaryFirst =>
    rcases opens_takes.alt h with h | h
    · exact .ternary (opens_takes.ternary h)
    · exact .chain (opens_takes.chain h)
  | chainFirst =>
    cases hchain : Grammar.chain.run (t ++ y) with
    | none =>
      rw [Takes, expression, run_alt, hchain, run_ternary_of_run_chain hchain] at h
      cases h
    | some r =>
      rw [Takes, expression, run_alt, hchain] at h
      exact .chain (opens_takes.chain (hchain.trans h))

/-! ### Calls -/

private theorem isWhiteSpace_comma {c : Char} (h : (c == ',') = true) : isWhiteSpace c = false := by
  obtain rfl := beq_iff_eq.1 h
  rfl

theorem Form.Expression.begins {o : Order} {t y : Text} (h : Expression Takes o t y) : Begins t := by
  cases h with
  | chain h =>
    obtain ⟨hu, -⟩ := h
    exact (hu.begins opens_takes).append _
  | ternary h =>
    obtain ⟨hu, -, -⟩ := h
    exact (hu.begins opens_takes).append _

theorem takes_arguments {o : Order} {t y : Text} (h : Series (· == ',') (Expression Takes o) t y)
    (hy : Still goesOn y) (hcomma : Still (· == ',') y) : (arguments o).Takes t y := by
  obtain @⟨u, v, _, hu, hv⟩ := h
  have hstill : ∀ {w}, Rounds (After (· == ',') (Expression Takes o)) y w → Still goesOn (w ++ y) := by
    intro w hw
    cases hw with
    | nil => exact hy
    | cons _ hu _ =>
      rw [List.append_assoc]
      obtain ⟨c, s, hc, hs⟩ := hu.behindBlanks_append (fun _ => isWhiteSpace_comma) (_ ++ y)
      obtain rfl := beq_iff_eq.1 hc
      rw [Still, hs]
      rfl
  have hrounds : Rounds (Peg.after (.lit [',']) (expression o)).Takes y v := by
    refine hv.imp fun u w hw hu => ?_
    obtain @⟨b, b', t, _, c, hb, hc, hb', ht⟩ := hu
    have hlead : leads isWhiteSpace (t ++ (w ++ y)) = false := (ht.begins.append _).leads_blank
    rw [Takes, List.append_assoc, List.cons_append, List.append_assoc,
      run_after_cons (run_lit_singleton ',') hb hc (isWhiteSpace_comma hc) hb' hlead]
    exact takes_expression ht (hstill hw)
  have hfirst : (expression o).run (u ++ (v ++ y)) = some (v ++ y) := takes_expression hu (hstill hv)
  show (Peg.seq (expression o) (.star (Peg.after (.lit [',']) (expression o)))).run _ = _
  rw [List.append_assoc, run_seq, hfirst, Option.bind_some, hrounds.run_star,
    run_star_of_none (run_after_of_leads (run_lit_singleton ',') hcomma)]

private theorem run_arguments_of_paren (o : Order) (y : Text) : (arguments o).run (')' :: y) = none := by
  cases h : (arguments o).run (')' :: y) with
  | none => rfl
  | some r =>
    obtain ⟨t, ht, htakes⟩ := exists_takes h
    obtain ⟨hu, -⟩ := opens_takes.arguments Expression.of_takes htakes
    have hbegins : Begins (')' :: y) := by
      rw [ht]
      exact (hu.begins.append _).append r
    rcases hbegins with h | ⟨d, s, h, -⟩ <;> cases h

theorem Form.Call.takes {o : Order} {t y : Text} (h : Call Takes o t y) : (functionCall o).Takes t y := by
  obtain @⟨n, b, w, _, hn, hb, hw⟩ := h
  have hname : qualifiedName.run (n ++ (b ++ '(' :: (w ++ y))) = some (b ++ '(' :: (w ++ y)) := hn
  show (Peg.seq qualifiedName (.seq blanks (.seq (.lit ['(']) (.seq blanks (.seq (.opt (arguments o))
    (.seq blanks (.lit [')']))))))).run _ = _
  rw [List.append_assoc, List.append_assoc, List.cons_append, run_seq, hname, Option.bind_some, run_blanks_seq,
    behindBlanks_cons hb rfl, run_paren, run_blanks_seq]
  cases hw with
  | empty hb =>
    rw [List.append_assoc, List.singleton_append, behindBlanks_cons hb rfl, run_seq, run_opt,
      run_arguments_of_paren, Option.bind_some, Option.getD_none, run_blanks_seq, behindBlanks_of_leads rfl,
      run_lit_singleton]
    rfl
  | @arguments c g c' _ hc hg hc' =>
    have hargs : (Grammar.arguments o).run (g ++ (c' ++ ')' :: y)) = some (c' ++ ')' :: y) :=
      takes_arguments hg (still_of_cons hc' rfl rfl _) (still_of_cons hc' rfl rfl _)
    have hlead : leads isWhiteSpace (g ++ (c' ++ ')' :: y)) = false := by
      obtain ⟨hu, -⟩ := hg
      exact ((hu.begins.append _).append _).leads_blank
    rw [List.append_assoc, List.append_assoc, List.append_assoc, List.singleton_append, behindBlanks_append hc,
      behindBlanks_of_leads hlead, run_seq, run_opt, hargs, Option.bind_some, Option.getD_some, run_blanks_seq,
      behindBlanks_cons hc' rfl, run_lit_singleton]
    rfl

/-- The form of a call says exactly what is taken. -/
theorem takes_call_iff {o : Order} {t y : Text} : (functionCall o).Takes t y ↔ Call Takes o t y :=
  ⟨opens_takes.call Expression.of_takes, Call.takes⟩

end CallHoist.Grammar
