import CallHoist.Proofs.Grammar.Stop
import CallHoist.Proofs.Grammar.Whole
import CallHoist.Proofs.Text.Occurrence

/-!
# Calls inside and around a call

* An identifier in front of a call makes a longer call (`takes_call_append`), so a call that is found by going through
  a text is not cut out of a longer word.
* In a call without quotes, a call that begins behind its first character begins in the name of the callee and is the
  rest of the call (`takes_call_within`). For the arguments of a call hold no parenthesis behind a word, blanks apart,
  and a call does.
-/

namespace CallHoist.Grammar

open Text Peg Form

/-! ### The two ends of a call -/

private theorem not_mem_of_mentions {p : Peg} {t : Text} {c : Char} (h : Derives p t) (hc : p.mentions c = false) :
    c ∉ t := by
  intro hmem
  rw [mentions_of_mem h hmem] at hc
  cases hc

theorem Form.Inside.exists_close {J : Peg → Text → Text → Prop} {o : Order} {w z : Text} (h : Inside J o w z) :
    ∃ u, w = u ++ [')'] := by
  cases h with
  | empty => exact ⟨_, rfl⟩
  | @arguments b t b' => exact ⟨b ++ (t ++ b'), by simp⟩

/-- A call is a callee, a parenthesis and what follows up to a closing one. -/
theorem exists_callee {o : Order} {t y : Text} (h : (functionCall o).Takes t y) :
    ∃ n b w, t = (n ++ b) ++ '(' :: w ∧ qualifiedName.Takes n (b ++ '(' :: (w ++ y)) ∧ b.all isWhiteSpace = true ∧
      Inside Takes o w y ∧ '(' ∉ n ++ b ∧ ')' ∉ n ++ b := by
  obtain @⟨n, b, w, _, hn, hb, hw⟩ := takes_call_iff.1 h
  refine ⟨n, b, w, by simp, hn, hb, hw, ?_, ?_⟩
  · rw [List.mem_append]
    exact not_or.2 ⟨not_mem_of_mentions hn.derives (by decide), not_mem_of_all hb (by decide)⟩
  · rw [List.mem_append]
    exact not_or.2 ⟨not_mem_of_mentions hn.derives (by decide), not_mem_of_all hb (by decide)⟩

theorem mem_paren_of_call {o : Order} {t y : Text} (h : (functionCall o).Takes t y) : '(' ∈ t := by
  obtain ⟨n, b, w, rfl, -⟩ := exists_callee h
  simp

theorem exists_close_of_call {o : Order} {t y : Text} (h : (functionCall o).Takes t y) : ∃ u, t = u ++ [')'] := by
  obtain ⟨n, b, w, rfl, -, -, hw, -⟩ := exists_callee h
  obtain ⟨u, rfl⟩ := hw.exists_close
  exact ⟨(n ++ b) ++ '(' :: u, by simp⟩

/-- A call with an identifier put in front of it is a call. -/
theorem takes_call_append {o : Order} {w t y : Text} (hw : IsIdentifier w) (h : (functionCall o).Takes t y) :
    (functionCall o).Takes (w ++ t) y := by
  obtain @⟨n, b, t, _, hn, hb, hin⟩ := takes_call_iff.1 h
  have hends : Ends (b ++ '(' :: (t ++ y)) := .inr (.mk hb rfl fun h => absurd h (by decide))
  rw [← List.append_assoc]
  exact takes_call_iff.2 (.mk (takes_name_append hw hn hends) hb hin)

/-! ### Arguments hold no callee -/

/-- A parenthesis behind a word, of which the last character is left, and blanks. -/
inductive IsCallee : Text → Prop where
  | mk {c : Char} {b : Text} : isWordChar c = true → b.all isWhiteSpace = true → IsCallee (c :: (b ++ ['(']))

section Callee

variable {n : Text} (hn : IsCallee n)
include hn

private theorem IsCallee.not_mem {d : Char} (hd : isBreak d = true) (hne : d ≠ '(') : d ∉ n := by
  obtain @⟨c, b, hc, hb⟩ := hn
  obtain ⟨hblank, hword, -⟩ := isBreak_cases hd
  rintro (_ | ⟨_, hmem⟩)
  · rw [hc] at hword
    cases hword
  · rcases List.mem_append.1 hmem with hmem | hmem
    · exact not_mem_of_all hb hblank hmem
    · exact hne (List.mem_singleton.1 hmem)

private theorem IsCallee.infix_of_blanks_append {b x : Text} (hb : b.all isWhiteSpace = true) (h : n <:+: b ++ x) :
    n <:+: x := by
  obtain @⟨c, _, hc, _⟩ := hn
  refine infix_of_append_left h (not_mem_of_all hb ?_)
  rw [Bool.eq_false_iff]
  intro hblank
  rw [isWordChar_of_isWhiteSpace hblank] at hc
  cases hc

private theorem IsCallee.infix_of_append {x y : Text} (hy : '(' ∉ y) (h : n <:+: x ++ y) : n <:+: x := by
  obtain ⟨-, -⟩ := hn
  exact infix_of_append_right (n := _ :: _) h hy

private theorem IsCallee.not_infix_of_not_mem {x : Text} (hx : '(' ∉ x) : ¬ n <:+: x := by
  obtain ⟨-, -⟩ := hn
  exact fun h => hx (h.subset (by simp))

/-- What stands behind a separator has the callee, or what stands before it. -/
private theorem After.infix_cases {p : Char → Bool} {Q : Text → Text → Prop} {x v y z : Text}
    (hp : ∀ c, p c = true → isBreak c = true ∧ c ≠ '(') (hv : After p Q v z) (h : n <:+: x ++ (v ++ y)) :
    n <:+: x ∨ ∃ u, Q u z ∧ u <:+: v ∧ n <:+: u ++ y := by
  obtain @⟨b, b', u, _, c, hb, hc, hb', hu⟩ := hv
  obtain ⟨hbreak, hne⟩ := hp c hc
  have hcut : x ++ ((b ++ c :: (b' ++ u)) ++ y) = (x ++ b) ++ c :: (b' ++ (u ++ y)) := by simp
  rw [hcut] at h
  rcases infix_append_cons h (hn.not_mem hbreak hne) with h | h
  · exact .inl (hn.infix_of_append (not_mem_of_all hb (by decide)) h)
  · exact .inr ⟨u, hu, ⟨b ++ c :: b', [], by simp⟩, hn.infix_of_blanks_append hb' h⟩

private theorem not_infix_rounds {p : Char → Bool} {Q : Text → Text → Prop} {v z : Text}
    (hp : ∀ c, p c = true → isBreak c = true ∧ c ≠ '(') (hQ : ∀ u z, '"' ∉ u → Q u z → ¬ n <:+: u)
    (h : Rounds (After p Q) z v) (hq : '"' ∉ v) {x : Text} (hx : ¬ n <:+: x) : ¬ n <:+: x ++ v := by
  induction h generalizing x with
  | nil => simpa using hx
  | cons _ hu _ ih =>
    rw [List.mem_append, not_or] at hq
    intro h
    rcases hu.infix_cases hn hp h with h | ⟨u, hu, hsub, h⟩
    · exact hx h
    · exact ih hq.2 (hQ _ _ (fun h => hq.1 (hsub.subset h)) hu) h

private theorem not_infix_series {p : Char → Bool} {Q : Text → Text → Prop} {t z : Text}
    (hp : ∀ c, p c = true → isBreak c = true ∧ c ≠ '(') (hQ : ∀ u z, '"' ∉ u → Q u z → ¬ n <:+: u)
    (h : Series p Q t z) (hq : '"' ∉ t) : ¬ n <:+: t := by
  obtain ⟨hu, hv⟩ := h
  rw [List.mem_append, not_or] at hq
  exact not_infix_rounds hn hp hQ hv hq.2 (hQ _ _ hq.1 hu)

end Callee

private theorem Signs.cases_of_mem {m : Nat} {s : Text} {c : Char} (h : Signs m s) (hc : c ∈ s) :
    isSign c = true ∨ isWhiteSpace c = true := by
  induction h with
  | nil => cases hc
  | cons hd hb _ ih =>
    rcases List.mem_cons.1 hc with rfl | hc
    · exact .inl hd
    · exact (List.mem_append.1 hc).elim (fun h => .inr (List.all_eq_true.1 hb c h)) ih

private theorem not_mem_of_signs {m : Nat} {s : Text} {c : Char} (h : Signs m s) (hsign : isSign c = false)
    (hblank : isWhiteSpace c = false) : c ∉ s := by
  intro hc
  rcases h.cases_of_mem hc with h | h
  · rw [h] at hsign
    cases hsign
  · rw [h] at hblank
    cases hblank

/-- What a sum is made of, strings apart. -/
def lexeme : Peg := .alt qualifiedName (.alt number (.alt operator blanks))

/-- A character that a sum has in its strings only. -/
def Foreign (c : Char) : Prop := lexeme.mentions c = false

instance (c : Char) : Decidable (Foreign c) := inferInstanceAs (Decidable (lexeme.mentions c = false))

section Foreign

variable {c : Char} (hc : Foreign c)
include hc

private theorem Foreign.lexemes : qualifiedName.mentions c = false ∧ number.mentions c = false := by
  have h : lexeme.mentions c = false := hc
  simp only [lexeme, mentions, Bool.or_eq_false_iff] at h
  exact ⟨h.1, h.2.1⟩

theorem Foreign.not_operator : isOperator c = false := by
  have h : lexeme.mentions c = false := hc
  simp only [lexeme, mentions, operator, Bool.or_eq_false_iff] at h
  exact h.2.2.1

theorem Foreign.not_blank : isWhiteSpace c = false := by
  have h : lexeme.mentions c = false := hc
  simp only [lexeme, mentions, blanks, Bool.or_eq_false_iff] at h
  exact h.2.2.2

theorem Foreign.not_mem_name {a : Text} (h : Derives qualifiedName a) : c ∉ a :=
  not_mem_of_mentions h hc.lexemes.1

theorem Foreign.not_mem_signs {m : Nat} {s : Text} (h : Signs m s) : c ∉ s := by
  refine not_mem_of_signs h ?_ hc.not_blank
  have hop := hc.not_operator
  simp only [isOperator, isSign, Bool.or_eq_false_iff] at hop ⊢
  exact ⟨hop.1.1.2, hop.2⟩

private theorem Foreign.not_mem_atom {a : Text} (h : Derives atom a) (hq : '"' ∉ a) : c ∉ a := by
  rcases opens_derives.alt (y := []) h with h | h
  · exact hc.not_mem_name h
  · rcases opens_derives.alt (y := []) h with h | h
    · obtain ⟨-⟩ := opens_derives.isString (y := []) h
      simp at hq
    · exact not_mem_of_mentions h hc.lexemes.2

private theorem Form.Operand.not_mem {m : Nat} {t z : Text} (h : Operand Takes m t z) (hq : '"' ∉ t) : c ∉ t := by
  obtain ⟨hs, ha⟩ := h
  rw [List.mem_append, not_or] at hq ⊢
  exact ⟨hc.not_mem_signs hs, hc.not_mem_atom ha.derives hq.2⟩

/-- A foreign character that is no separator is in none of the parts. -/
theorem Foreign.not_mem_rounds {p : Char → Bool} (hp : p c = false) {Q : Text → Text → Prop}
    (hQ : ∀ u z, '"' ∉ u → Q u z → c ∉ u) {v z : Text} (h : Rounds (After p Q) z v) (hq : '"' ∉ v) : c ∉ v := by
  induction h with
  | nil => simp
  | cons _ hw _ ih =>
    rw [List.mem_append, not_or] at hq ⊢
    refine ⟨?_, ih hq.2⟩
    replace hq := hq.1
    obtain ⟨hb, hsep, hb', hw⟩ := hw
    simp only [List.mem_append, List.mem_cons, not_or] at hq ⊢
    refine ⟨not_mem_of_all hb hc.not_blank, ?_, not_mem_of_all hb' hc.not_blank, hQ _ _ hq.2.2.2 hw⟩
    rintro rfl
    rw [hp] at hsep
    cases hsep

theorem Form.Plain.not_mem {m : Nat} {t z : Text} (h : Plain Takes m t z) (hq : '"' ∉ t) : c ∉ t := by
  obtain ⟨hu, hv⟩ := h
  rw [List.mem_append, not_or] at hq ⊢
  exact ⟨hu.not_mem hc hq.1, hc.not_mem_rounds hc.not_operator (fun _ _ hq hw => hw.not_mem hc hq) hv hq.2⟩

end Foreign

private theorem foreign_paren : Foreign '(' := by decide

section Callee

variable {n : Text} (hn : IsCallee n)
include hn

/-- The parenthesis of a group stands behind signs, and that is all there is before it. -/
private theorem Form.SignedTerm.not_infix {t z : Text} (hq : '"' ∉ t) (h : SignedTerm Takes t z) : ¬ n <:+: t := by
  cases h with
  | plain h => exact hn.not_infix_of_not_mem (h.not_mem foreign_paren hq)
  | @group s b t b' _ hs hb ht hb' =>
    intro hin
    have hbehind : '(' ∉ b ++ (t ++ (b' ++ [')'])) := by
      have hqt : '"' ∉ t := fun h => hq (by simp [h])
      have hparen : isWhiteSpace '(' = false := by decide
      simp [not_mem_of_all hb, not_mem_of_all hb', ht.not_mem foreign_paren hqt, hparen]
    -- only the parenthesis of the group can end it, so the word in front would be among the signs
    rw [List.append_cons] at hin
    replace hin := hn.infix_of_append hbehind hin
    obtain @⟨c, b, hc, hb⟩ := hn
    have hcs : c ∉ s := by
      intro hmem
      rcases hs.cases_of_mem hmem with h | h
      · simp only [isSign, Bool.or_eq_true, beq_iff_eq] at h
        rcases h with rfl | rfl <;> cases hc
      · rw [isWordChar_of_isWhiteSpace h] at hc
        cases hc
    have hlen := (infix_of_append_left hin hcs).length_le
    simp at hlen

private theorem Form.Expression.not_infix {o : Order} {t z : Text} (hq : '"' ∉ t) (h : Expression Takes o t z) :
    ¬ n <:+: t := by
  cases h with
  | chain h =>
    exact not_infix_series hn (fun c hc => ⟨(isOperator_cases hc).1, (isOperator_cases hc).2.2⟩)
      (fun _ _ => SignedTerm.not_infix hn) h hq
  | ternary h =>
    obtain ⟨hu, hv, hw⟩ := h
    simp only [List.mem_append, not_or] at hq
    intro hin
    have hsep : ∀ d c, (c == d) = true → isBreak d = true ∧ d ≠ '(' → isBreak c = true ∧ c ≠ '(' := by
      intro d c hc hd
      obtain rfl := beq_iff_eq.1 hc
      exact hd
    rcases hv.infix_cases hn (fun c hc => hsep _ c hc (by decide)) hin with hin | ⟨s, hs, hsub, hin⟩
    · exact hu.not_infix hn hq.1 hin
    · rw [← List.append_nil (s ++ _), List.append_assoc] at hin
      rcases hw.infix_cases hn (fun c hc => hsep _ c hc (by decide)) hin with hin | ⟨s', hs', hsub', hin⟩
      · exact hs.not_infix hn (fun h => hq.2.1 (hsub.subset h)) hin
      · rw [List.append_nil] at hin
        exact hs'.not_infix hn (fun h => hq.2.2 (hsub'.subset h)) hin

theorem Form.Inside.not_infix {o : Order} {w z : Text} (hq : '"' ∉ w) (h : Inside Takes o w z) :
    ¬ n <:+: w := by
  cases h with
  | @empty b _ hb =>
    refine hn.not_infix_of_not_mem ?_
    rw [List.mem_append, not_or]
    exact ⟨not_mem_of_all hb (by decide), by decide⟩
  | @arguments b t b' _ hb ht hb' =>
    intro hin
    have hclose : '(' ∉ b' ++ [')'] := by
      rw [List.mem_append, not_or]
      exact ⟨not_mem_of_all hb' (by decide), by decide⟩
    replace hin := hn.infix_of_append hclose (hn.infix_of_blanks_append hb hin)
    refine not_infix_series hn (fun c hc => ?_) (fun _ _ => Expression.not_infix hn) ht (fun h => hq (by simp [h])) hin
    obtain rfl := beq_iff_eq.1 hc
    decide

end Callee

/-! ### Calls within a call -/

/-- The callee of a call in front of a closing parenthesis is in what stands before that, if the call begins there. -/
private theorem exists_infix_of_call {o : Order} {t' r' v r : Text} (h : (functionCall o).Takes t' r')
    (he : t' ++ r' = v ++ ')' :: r) : ∃ n, IsCallee n ∧ n <:+: v := by
  obtain ⟨n, b, w, rfl, hn, hb, -, -, hclose⟩ := exists_callee h
  obtain ⟨m, c, rfl, hc⟩ := exists_of_trails (endsIn_qualifiedName n hn.derives)
  refine ⟨c :: (b ++ ['(']), .mk hc hb, ?_⟩
  rw [List.append_assoc, List.cons_append] at he
  rcases List.append_eq_append_iff.1 he with ⟨a, rfl, ha⟩ | ⟨a, ha, hr⟩
  · cases a with
    | nil => simp at ha
    | cons d a =>
      obtain ⟨rfl, -⟩ := List.cons.inj ha
      exact ⟨m, a, by simp⟩
  · cases a with
    | nil => simp at hr
    | cons d a =>
      obtain ⟨rfl, -⟩ := List.cons.inj hr
      rw [ha] at hclose
      simp at hclose

/-- A call that begins in the callee of another ends where that ends: what follows the parenthesis is read alike. -/
private theorem takes_call_of_callee {o : Order} {n b a w r t' r' : Text}
    (hn : qualifiedName.Takes n (b ++ '(' :: (w ++ r))) (hb : b.all isWhiteSpace = true) (hw : Inside Takes o w r)
    (ha : '(' ∉ a) (h' : (functionCall o).Takes t' r') (he : t' ++ r' = a ++ '(' :: (w ++ r)) :
    t' = a ++ '(' :: w := by
  obtain ⟨n', b', w', rfl, -, -, hw', hopen, -⟩ := exists_callee h'
  rw [List.append_assoc, List.cons_append] at he
  obtain ⟨hcallee, hrest⟩ := append_cons_inj he hopen ha
  have hcall : (functionCall o).Takes (n ++ (b ++ '(' :: w)) r := takes_call_iff.2 (.mk hn hb hw)
  have hcall' : (functionCall o).Takes (n ++ (b ++ '(' :: w')) r' :=
    takes_call_iff.2 (.mk (by rwa [hrest]) hb hw')
  obtain rfl : r = r' := hcall.rest_unique hcall' (by simp [hrest])
  rw [hcallee, List.append_cancel_right hrest]

/-- In a call without quotes, a call that begins behind its first character begins in the name of the callee and ends
where it ends. -/
theorem takes_call_within {o : Order} {u v r t' r' : Text} (h : (functionCall o).Takes (u ++ v) r)
    (hq : '"' ∉ u ++ v) (hv : v ≠ []) (h' : (functionCall o).Takes t' r') (he : t' ++ r' = v ++ r) :
    t' = v ∧ '(' ∉ u := by
  obtain ⟨n, b, w, ht, hn, hb, hw, hopen, -⟩ := exists_callee h
  have hcut : (∃ a, n ++ b = u ++ a ∧ v = a ++ '(' :: w) ∨ ∃ s, w = s ++ v := by
    rcases append_eq_append_cases ht with h | ⟨a, hne, -, ha⟩
    · exact .inl h
    · cases a with
      | nil => exact absurd rfl hne
      | cons d a => exact .inr ⟨a, (List.cons.inj ha).2⟩
  rcases hcut with ⟨a, ha, rfl⟩ | ⟨s, rfl⟩
  · rw [ha, List.mem_append, not_or] at hopen
    rw [List.append_assoc, List.cons_append] at he
    exact ⟨takes_call_of_callee hn hb hw hopen.2 h' he, hopen.1⟩
  · -- the call would begin among the arguments
    obtain ⟨x, hx⟩ := hw.exists_close
    obtain ⟨v', rfl⟩ := exists_concat_of_append_eq hx hv
    rw [List.append_assoc, List.singleton_append] at he
    obtain ⟨m, hm, hsub⟩ := exists_infix_of_call h' he
    have hqw : '"' ∉ s ++ (v' ++ [')']) := fun hmem => hq (by rw [ht]; simp [hmem])
    exact absurd (hsub.trans ⟨s, [')'], by simp⟩) (hw.not_infix hm hqw)

end CallHoist.Grammar
