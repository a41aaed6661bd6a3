import CallHoist.Proofs.Grammar.Atom

/-!
# The form of expressions and calls

The form of a text of each rule above the atoms, given a judgement on names and on atoms in front of what follows them.
Each judgement that opens up along the expressions has the form (`Peg.Opens.call` and the lemmas before it), be it that
a run takes the text or that the text is derived.

A form is carried from one judgement to another, and from what follows the text to something else, by its names and
atoms alone (`Call.carry`): inside a call each of them is followed by a text that seals it.
-/

namespace CallHoist.Grammar

open Text Peg

/-! ### Forms -/

/-- At most so many signs, each with the blanks behind it. -/
inductive Signs : Nat → Text → Prop where
  | nil {n : Nat} : Signs n []
  | cons {n : Nat} {c : Char} {b s : Text} : isSign c = true → b.all isWhiteSpace = true → Signs n s →
      Signs (n + 1) (c :: (b ++ s))

namespace Form

/-- An atom behind at most `n` signs. -/
inductive Operand (J : Peg → Text → Text → Prop) (n : Nat) : Text → Text → Prop where
  | mk {s a z : Text} : Signs n s → J atom a z → Operand J n (s ++ a) z

/-- Operands with operators between them. The first has at most `n` signs, each of the others at most one. -/
inductive Plain (J : Peg → Text → Text → Prop) (n : Nat) : Text → Text → Prop where
  | mk {u v z : Text} : Operand J n u (v ++ z) → Rounds (After isOperator (Operand J 1)) z v → Plain J n (u ++ v) z

inductive SignedTerm (J : Peg → Text → Text → Prop) : Text → Text → Prop where
  | plain {t z : Text} : Plain J 3 t z → SignedTerm J t z
  | group {s b t b' z : Text} : Signs 2 s → b.all isWhiteSpace = true → Plain J 2 t (b' ++ ')' :: z) →
      b'.all isWhiteSpace = true → SignedTerm J (s ++ '(' :: (b ++ (t ++ (b' ++ [')'])))) z

/-- Parts with separators between them. -/
inductive Series (p : Char → Bool) (Q : Text → Text → Prop) : Text → Text → Prop where
  | mk {u v z : Text} : Q u (v ++ z) → Rounds (After p Q) z v → Series p Q (u ++ v) z

inductive Ternary (J : Peg → Text → Text → Prop) : Text → Text → Prop where
  | mk {u v w z : Text} : SignedTerm J u (v ++ (w ++ z)) → After (· == '?') (SignedTerm J) v (w ++ z) →
      After (· == ':') (SignedTerm J) w z → Ternary J (u ++ (v ++ w)) z

/-- An expression is a chain or, where ternaries are tried first, a ternary. -/
inductive Expression (J : Peg → Text → Text → Prop) : Order → Text → Text → Prop where
  | chain {o : Order} {t z : Text} : Series isOperator (SignedTerm J) t z → Expression J o t z
  | ternary {t z : Text} : Ternary J t z → Expression J .ternaryFirst t z

/-- What stands behind the opening parenthesis of a call. -/
inductive Inside (J : Peg → Text → Text → Prop) (o : Order) : Text → Text → Prop where
  | empty {b z : Text} : b.all isWhiteSpace = true → Inside J o (b ++ [')']) z
  | arguments {b t b' z : Text} : b.all isWhiteSpace = true → Series (· == ',') (Expression J o) t (b' ++ ')' :: z) →
      b'.all isWhiteSpace = true → Inside J o (b ++ (t ++ (b' ++ [')']))) z

inductive Call (J : Peg → Text → Text → Prop) (o : Order) : Text → Text → Prop where
  | mk {n b w z : Text} : J qualifiedName n (b ++ '(' :: (w ++ z)) → b.all isWhiteSpace = true → Inside J o w z →
      Call J o (n ++ (b ++ '(' :: w)) z

end Form

open Form

theorem Signs.mono {m n : Nat} {s : Text} (h : Signs m s) (hmn : m ≤ n) : Signs n s := by
  induction h generalizing n with
  | nil => exact .nil
  | cons hc hb _ ih =>
    obtain ⟨k, rfl⟩ : ∃ k, n = k + 1 := ⟨n - 1, by omega⟩
    exact .cons hc hb (ih (by omega))

theorem Signs.append {m n : Nat} {s s' : Text} (h : Signs m s) (h' : Signs n s') : Signs (n + m) (s ++ s') := by
  induction h with
  | nil => exact h'.mono (Nat.le_add_right ..)
  | cons hc hb _ ih =>
    rw [List.cons_append, List.append_assoc]
    exact .cons hc hb ih

/-! ### Opening up -/

section Opening

variable {J : Peg → Text → Text → Prop} (hJ : Opens J) {t z : Text}
include hJ

theorem Peg.Opens.signed {a : Peg} (h : J (signed a) t z) : ∃ s u, t = s ++ u ∧ Signs 1 s ∧ J a u z := by
  obtain ⟨s, u, rfl, hs, hu⟩ := hJ.seq h
  refine ⟨s, u, rfl, ?_, hu⟩
  rcases hJ.opt hs with rfl | hs
  · exact .nil
  · obtain ⟨c, b, rfl, hc, hb⟩ := hJ.seq hs
    obtain ⟨d, hd, rfl⟩ := hJ.one hc
    simpa using Signs.cons hd (hJ.blanks hb) (.nil (n := 0))

theorem Peg.Opens.operand (h : J operand t z) : Operand J 1 t z := by
  obtain ⟨s, a, rfl, hs, ha⟩ := hJ.signed h
  exact .mk hs ha

theorem Peg.Opens.sExpression (h : J sExpression t z) : Plain J 2 t z := by
  obtain ⟨s, t, rfl, hs, h⟩ := hJ.signed h
  obtain ⟨u, v, rfl, hu, hv⟩ := hJ.seq h
  have hrounds : Rounds (J (Peg.after operator Grammar.operand)) z v := hJ.rounds hv
  obtain ⟨hs', ha⟩ := hJ.operand hu
  rw [← List.append_assoc, ← List.append_assoc]
  refine .mk (.mk (hs.append hs') ha) (hrounds.imp fun _ _ _ h => ?_)
  exact (hJ.after hJ.one h).imp fun _ => hJ.operand

theorem Peg.Opens.pExpression (h : J pExpression t z) :
    ∃ s b u b', t = s ++ '(' :: (b ++ (u ++ (b' ++ [')']))) ∧ Signs 1 s ∧ b.all isWhiteSpace = true ∧
      Plain J 2 u (b' ++ ')' :: z) ∧ b'.all isWhiteSpace = true := by
  obtain ⟨s, t, rfl, hs, h⟩ := hJ.signed h
  obtain ⟨c, t, rfl, hc, h⟩ := hJ.seq h
  obtain ⟨b, t, rfl, hb, h⟩ := hJ.seq h
  obtain ⟨u, t, rfl, hu, h⟩ := hJ.seq h
  obtain ⟨b', c', rfl, hb', hc'⟩ := hJ.seq h
  obtain rfl := hJ.lit hc
  obtain rfl := hJ.lit hc'
  rw [List.append_assoc] at hu
  exact ⟨s, b, u, b', rfl, hs, hJ.blanks hb, hJ.sExpression hu, hJ.blanks hb'⟩

theorem Peg.Opens.signedTerm (h : J signedTerm t z) : SignedTerm J t z := by
  obtain ⟨s, t, rfl, hs, h⟩ := hJ.signed h
  rcases hJ.alt h with h | h
  · obtain ⟨⟨hs', ha⟩, hv⟩ := hJ.sExpression h
    rw [List.append_assoc, ← List.append_assoc, ← List.append_assoc]
    exact .plain (.mk (.mk (hs.append hs') ha) hv)
  · obtain ⟨s', b, u, b', rfl, hs', hb, hu, hb'⟩ := hJ.pExpression h
    rw [← List.append_assoc]
    exact .group (hs.append hs') hb hu hb'

theorem Peg.Opens.series {a sep : Peg} {p : Char → Bool} {Q : Text → Text → Prop}
    (hsep : ∀ {t y}, J sep t y → ∃ c, p c = true ∧ t = [c]) (ha : ∀ {t y}, J a t y → Q t y)
    (h : J (.seq a (.star (Peg.after sep a))) t z) : Series p Q t z := by
  obtain ⟨u, v, rfl, hu, hv⟩ := hJ.seq h
  exact .mk (ha hu) ((hJ.rounds hv).imp fun _ _ _ h => (hJ.after hsep h).imp fun _ => ha)

theorem Peg.Opens.chain (h : J chain t z) : Series isOperator (SignedTerm J) t z :=
  hJ.series hJ.one hJ.signedTerm h

theorem Peg.Opens.ternary (h : J ternary t z) : Ternary J t z := by
  obtain ⟨u, t, rfl, hu, h⟩ := hJ.seq h
  obtain ⟨b, t, rfl, hb, h⟩ := hJ.seq h
  obtain ⟨c, t, rfl, hc, h⟩ := hJ.seq h
  obtain ⟨b', t, rfl, hb', h⟩ := hJ.seq h
  obtain ⟨v, t, rfl, hv, h⟩ := hJ.seq h
  obtain ⟨d, t, rfl, hd, h⟩ := hJ.seq h
  obtain ⟨c', t, rfl, hc', h⟩ := hJ.seq h
  obtain ⟨d', w, rfl, hd', hw⟩ := hJ.seq h
  obtain rfl := hJ.lit hc
  obtain rfl := hJ.lit hc'
  have hmiddle : After (· == '?') (SignedTerm J) (b ++ '?' :: (b' ++ v)) (d ++ ':' :: (d' ++ w) ++ z) :=
    .mk (hJ.blanks hb) rfl (hJ.blanks hb') (hJ.signedTerm hv)
  have hlast : After (· == ':') (SignedTerm J) (d ++ ':' :: (d' ++ w)) z :=
    .mk (hJ.blanks hd) rfl (hJ.blanks hd') (hJ.signedTerm hw)
  have hfirst : SignedTerm J u (b ++ '?' :: (b' ++ v) ++ (d ++ ':' :: (d' ++ w) ++ z)) := by
    simpa using hJ.signedTerm hu
  simpa using Ternary.mk hfirst hmiddle hlast

theorem Peg.Opens.arguments {o : Order} (ho : ∀ {t y}, J (expression o) t y → Expression J o t y)
    (h : J (arguments o) t z) : Series (· == ',') (Expression J o) t z :=
  hJ.series hJ.lit_singleton ho h

theorem Peg.Opens.call {o : Order} (ho : ∀ {t y}, J (expression o) t y → Expression J o t y)
    (h : J (functionCall o) t z) : Call J o t z := by
  obtain ⟨n, t, rfl, hn, h⟩ := hJ.seq h
  obtain ⟨b, t, rfl, hb, h⟩ := hJ.seq h
  obtain ⟨c, t, rfl, hc, h⟩ := hJ.seq h
  obtain ⟨b', t, rfl, hb', h⟩ := hJ.seq h
  obtain ⟨g, t, rfl, hg, h⟩ := hJ.seq h
  obtain ⟨d, c', rfl, hd, hc'⟩ := hJ.seq h
  obtain rfl := hJ.lit hc
  obtain rfl := hJ.lit hc'
  have hinside : Inside J o (b' ++ (g ++ (d ++ [')']))) z := by
    rcases hJ.opt hg with rfl | hg
    · rw [List.nil_append, ← List.append_assoc]
      exact .empty (by rw [List.all_append, hJ.blanks hb', hJ.blanks hd]; rfl)
    · exact .arguments (hJ.blanks hb') (hJ.arguments ho (by simpa using hg)) (hJ.blanks hd)
  exact .mk (by simpa using hn) (hJ.blanks hb) hinside

end Opening

/-! ### First characters -/

/-- The beginnings of a signed term: two colons count only with something else than a third behind them. -/
def Begins (t : Text) : Prop :=
  leads (fun c => isWordChar c || isSign c || c == '(' || c == '"') t = true ∨ ∃ d s, t = ':' :: ':' :: d :: s ∧ d ≠ ':'

theorem Begins.append {t : Text} (h : Begins t) (y : Text) : Begins (t ++ y) := by
  rcases h with h | ⟨d, s, rfl, hd⟩
  · cases t with
    | nil => cases h
    | cons c t => exact .inl h
  · exact .inr ⟨d, s ++ y, rfl, hd⟩

theorem Begins.leads_eq_false {t : Text} (h : Begins t) {p : Char → Bool}
    (hp : ∀ c, (isWordChar c || isSign c || c == '(' || c == '"') = true → p c = false) (hcol : p ':' = false) :
    leads p t = false := by
  rcases h with h | ⟨d, s, rfl, hd⟩
  · cases t with
    | nil => rfl
    | cons c t => exact hp c h
  · exact hcol

theorem Begins.leads_blank {t : Text} (h : Begins t) : leads isWhiteSpace t = false := by
  refine h.leads_eq_false (fun c hc => ?_) rfl
  rw [Bool.eq_false_iff]
  intro hb
  have hw := isWordChar_of_isWhiteSpace hb
  simp only [hw, Bool.false_or, isSign, Bool.or_eq_true, beq_iff_eq] at hc
  rcases hc with ((rfl | rfl) | rfl) | rfl <;> revert hb <;> decide

/-- Behind a colon, a text that begins so settles whether the colon belongs to a scope operator. -/
theorem Begins.settles {t : Text} (h : Begins t) {b : Text} (hb : b.all isWhiteSpace = true) : Settles (b ++ t) := by
  cases b with
  | cons c b =>
    refine ⟨List.cons_ne_nil c _, .inl ?_⟩
    rw [List.all_cons, Bool.and_eq_true] at hb
    rw [List.cons_append, leads_cons, beq_eq_false_iff_ne]
    rintro rfl
    exact absurd hb.1 (by decide)
  | nil =>
    rcases h with h | ⟨d, s, rfl, hd⟩
    · cases t with
      | nil => cases h
      | cons c t =>
        refine ⟨List.cons_ne_nil c t, .inl ?_⟩
        rw [leads_cons] at h
        rw [List.nil_append, leads_cons, beq_eq_false_iff_ne]
        rintro rfl
        exact absurd h (by decide)
    · exact ⟨List.cons_ne_nil _ _, .inr ⟨d, s, rfl, hd⟩⟩

private theorem IsWord.begins {w : Text} (h : IsWord w) (x : Text) : Begins (w ++ x) := by
  obtain ⟨hne, hall⟩ := h
  refine .inl ?_
  rw [Text.leads_append hne]
  exact leads_of_all hne (List.all_eq_true.2 fun c hc => by rw [List.all_eq_true.1 hall c hc]; rfl)

private theorem IsScope.begins {u : Text} (h : IsScope u) (x : Text) : Begins (u ++ x) := by
  obtain @⟨o, w, b, b', ho, hw, -, -⟩ := h
  rcases ho with rfl | ⟨c, hc, rfl⟩
  · rw [List.nil_append, List.append_assoc]
    exact hw.begins _
  · refine .inr ?_
    cases hcw : c ++ w with
    | nil => exact absurd (List.append_eq_nil_iff.1 hcw).2 hw.1
    | cons d s =>
      refine ⟨d, s ++ (b ++ ':' :: ':' :: b') ++ x, ?_, ?_⟩
      · simp only [List.cons_append, List.append_assoc]
        rw [← List.append_assoc c w, hcw]
        rfl
      · rintro rfl
        have hmem : ':' ∈ c ++ w := by simp [hcw]
        rcases List.mem_append.1 hmem with h | h
        · exact not_mem_of_all hc (by decide) h
        · exact not_mem_of_all hw.2 (by decide) h

section Opening

variable {J : Peg → Text → Text → Prop} (hJ : Opens J) {t z : Text}
include hJ

theorem Peg.Opens.begins_name (h : J qualifiedName t z) : Begins t := by
  obtain ⟨ts, ti, td, rfl, -, -, hs, hi, -⟩ := hJ.name h
  cases hs with
  | nil => exact hi.1.begins _
  | cons _ hu _ =>
    rw [List.append_assoc]
    exact hu.begins _

theorem Peg.Opens.begins_atom (h : J atom t z) : Begins t := by
  rcases hJ.alt h with h | h
  · exact hJ.begins_name h
  · rcases hJ.alt h with h | h
    · obtain ⟨-⟩ := hJ.isString h
      exact .inl rfl
    · obtain ⟨hc, -, -, -, -⟩ := hJ.isNumber h
      exact .inl (by rw [leads_cons, isWordChar_of_isDigit hc]; rfl)

theorem Form.Plain.begins {n : Nat} (h : Plain J n t z) : Begins t := by
  obtain ⟨⟨hs, ha⟩, -⟩ := h
  cases hs with
  | nil => exact (hJ.begins_atom ha).append _
  | cons hc _ _ => exact .inl (by simp [hc])

theorem Form.SignedTerm.begins (h : SignedTerm J t z) : Begins t := by
  cases h with
  | plain h => exact h.begins hJ
  | group hs _ _ _ =>
    cases hs with
    | nil => exact .inl rfl
    | cons hc _ _ => exact .inl (by simp [hc])

end Opening

/-! ### Carrying over -/

/-- Where the text behind an atom ends it, the atom is carried from one judgement in front of `y` to another in front
of `y'`. -/
def Carries (J K : Peg → Text → Text → Prop) (y y' : Text) : Prop :=
  ∀ a v, Ends v → J atom a (v ++ y) → K atom a (v ++ y')

section Carrying

variable {J K : Peg → Text → Text → Prop} {z z' : Text}

/-- In front of a text that seals, only atoms that are sealed have to be carried. -/
private theorem carries_of_seals {s : Text} (hs : Seals s)
    (h : ∀ a v, Seals v → J atom a (v ++ z) → K atom a (v ++ z')) : Carries J K (s ++ z) (s ++ z') := by
  intro a v hv ha
  rw [← List.append_assoc] at ha ⊢
  refine h a (v ++ s) ?_ ha
  rcases hv with rfl | hv
  · exact hs
  · exact hv.append s

theorem Carries.seal {s : Text} (hs : Seals s) (h : Carries J K z z') : Carries J K (s ++ z) (s ++ z') :=
  carries_of_seals hs fun a v hv => h a v (.inr hv)

/-- Rounds behind separators are carried if each part of them is. -/
private theorem carry_rounds {p : Char → Bool} {Q Q' : Text → Text → Prop} {t : Text}
    (hp : ∀ c, p c = true → isBreak c = true ∧ c ≠ ':') (hQ : ∀ u v, Ends v → Q u (v ++ z) → Q' u (v ++ z'))
    (h : Rounds (After p Q) z t) : Rounds (After p Q') z' t ∧ Ends t := by
  induction h with
  | nil => exact ⟨.nil, .inl rfl⟩
  | @cons u v hu hq _ ih =>
    obtain ⟨hrounds, hends⟩ := ih
    obtain ⟨hb, hc, hb', hw⟩ := hq
    refine ⟨.cons hu (.mk hb hc hb' (hQ _ v hends hw)) hrounds, .inr ?_⟩
    rw [List.append_assoc]
    exact .mk hb (hp _ hc).1 (fun h => absurd h (hp _ hc).2)

private theorem isBreak_of_isOperator (c : Char) (h : isOperator c = true) : isBreak c = true ∧ c ≠ ':' :=
  ⟨(isOperator_cases h).1, (isOperator_cases h).2.1⟩

theorem Form.Plain.carry {n : Nat} {t : Text} (hJK : Carries J K z z') (h : Plain J n t z) : Plain K n t z' := by
  obtain ⟨hu, hv⟩ := h
  have hoperand : ∀ {m : Nat} u v, Ends v → Operand J m u (v ++ z) → Operand K m u (v ++ z') := by
    intro m u v hv hu
    obtain ⟨hs, ha⟩ := hu
    exact .mk hs (hJK _ v hv ha)
  obtain ⟨hrounds, hends⟩ := carry_rounds isBreak_of_isOperator hoperand hv
  exact .mk (hoperand _ _ hends hu) hrounds

theorem Form.SignedTerm.carry {t : Text} (hJK : Carries J K z z') (h : SignedTerm J t z) : SignedTerm K t z' := by
  cases h with
  | plain h => exact .plain (h.carry hJK)
  | @group s b t b' _ hs hb ht hb' =>
    have hseal : Seals (b' ++ [')']) := .mk hb' rfl (fun h => absurd h (by decide))
    have hin := hJK.seal hseal
    rw [List.append_assoc, List.append_assoc] at hin
    exact .group hs hb (ht.carry hin) hb'

theorem Form.Series.carry {p : Char → Bool} {Q Q' : Text → Text → Prop} {t : Text}
    (hp : ∀ c, p c = true → isBreak c = true ∧ c ≠ ':') (hQ : ∀ u v, Ends v → Q u (v ++ z) → Q' u (v ++ z'))
    (h : Series p Q t z) : Series p Q' t z' := by
  obtain ⟨hu, hv⟩ := h
  obtain ⟨hrounds, hends⟩ := carry_rounds hp hQ hv
  exact .mk (hQ _ _ hends hu) hrounds

/-- What is carried in front of a text is carried in front of what can stand before that text. -/
private theorem Carries.ends {v : Text} (h : Carries J K z z') (hv : Ends v) : Carries J K (v ++ z) (v ++ z') := by
  rcases hv with rfl | hv
  · exact h
  · exact h.seal hv

theorem Form.chain_carry {t : Text} (hJK : Carries J K z z') (h : Series isOperator (SignedTerm J) t z) :
    Series isOperator (SignedTerm K) t z' :=
  h.carry isBreak_of_isOperator fun _ _ hv => SignedTerm.carry (hJK.ends hv)

theorem Form.Ternary.carry {t : Text} (hJ : Opens J) (hJK : Carries J K z z') (h : Ternary J t z) :
    Ternary K t z' := by
  obtain @⟨u, v, w, _, hu, hv, hw⟩ := h
  have hsealw : Seals w := by
    obtain ⟨hb, hc, hb', ht⟩ := hw
    obtain rfl := beq_iff_eq.1 hc
    exact .mk hb rfl fun _ => (ht.begins hJ).settles hb'
  have hsealv : Seals v := by
    obtain ⟨hb, hc, -, -⟩ := hv
    obtain rfl := beq_iff_eq.1 hc
    exact .mk hb rfl fun h => absurd h (by decide)
  have hin := hJK.seal hsealw
  exact .mk (hu.carry (hin.seal hsealv)) (hv.imp fun _ => SignedTerm.carry hin) (hw.imp fun _ => SignedTerm.carry hJK)

theorem Form.Expression.carry {o : Order} {t : Text} (hJ : Opens J) (hJK : Carries J K z z') (h : Expression J o t z) :
    Expression K o t z' := by
  cases h with
  | chain h => exact .chain (chain_carry hJK h)
  | ternary h => exact .ternary (h.carry hJ hJK)

theorem Form.arguments_carry {o : Order} {t : Text} (hJ : Opens J) (hJK : Carries J K z z')
    (h : Series (· == ',') (Expression J o) t z) : Series (· == ',') (Expression K o) t z' := by
  refine h.carry (fun c hc => ?_) fun _ _ hv => Expression.carry hJ (hJK.ends hv)
  obtain rfl := beq_iff_eq.1 hc
  exact ⟨rfl, by decide⟩

/-- A call is carried over if its sealed names and atoms are. -/
theorem Form.Call.carry {o : Order} {t : Text} (hJ : Opens J)
    (hname : ∀ a v, Seals v → J qualifiedName a (v ++ z) → K qualifiedName a (v ++ z'))
    (hatom : ∀ a v, Seals v → J atom a (v ++ z) → K atom a (v ++ z')) (h : Call J o t z) : Call K o t z' := by
  obtain @⟨n, b, w, _, hn, hb, hw⟩ := h
  have hseal : Seals (b ++ '(' :: w) := .mk hb rfl fun h => absurd h (by decide)
  have hn' := hname n (b ++ '(' :: w) hseal (by simpa using hn)
  refine .mk (by simpa using hn') hb ?_
  cases hw with
  | empty hb => exact .empty hb
  | @arguments c t c' _ hc ht hc' =>
    -- each name and atom inside has at least the closing parenthesis behind it
    have hin := carries_of_seals (s := c' ++ [')']) (.mk hc' rfl fun h => absurd h (by decide)) hatom
    rw [List.append_assoc, List.append_assoc] at hin
    exact .arguments hc (arguments_carry hJ hin ht) hc'

end Carrying

end CallHoist.Grammar
