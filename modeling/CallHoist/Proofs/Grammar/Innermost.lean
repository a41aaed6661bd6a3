import CallHoist.Proofs.Grammar.Nesting

/-!
# Innermost calls

In a text without quotes, two calls that match at different places are apart or stop together, and of two that stop
together the later one starts in the name of the callee (`matches_apart_or_stop_together`). So a call that matches is an
innermost one: no call starts behind the parenthesis in front of its arguments.

What the texts of two such calls have in common is known (`takes_call_within`). Here it is told by the offsets at which
they start and stop, and by that of the first parenthesis (`FirstOpen`), which the two calls share.
-/

namespace CallHoist.Grammar

open Text Peg

/-! ### The first parenthesis -/

/-- The first opening parenthesis at or behind offset `i` is at offset `k`. -/
def FirstOpen (s : Text) (i k : Nat) : Prop := i ≤ k ∧ s[k]? = some '(' ∧ ∀ j, i ≤ j → j < k → s[j]? ≠ some '('

theorem FirstOpen.unique {s : Text} {i k k' : Nat} (h : FirstOpen s i k) (h' : FirstOpen s i k') : k = k' := by
  obtain ⟨hle, hopen, hbefore⟩ := h
  obtain ⟨hle', hopen', hbefore'⟩ := h'
  rcases Nat.lt_trichotomy k k' with hlt | heq | hlt
  · exact absurd hopen (hbefore' k hle hlt)
  · exact heq
  · exact absurd hopen' (hbefore k' hle' hlt)

theorem FirstOpen.of_le {s : Text} {i j k : Nat} (h : FirstOpen s j k) (hij : i ≤ j)
    (hbetween : ∀ l, i ≤ l → l < j → s[l]? ≠ some '(') : FirstOpen s i k := by
  obtain ⟨hle, hopen, hbefore⟩ := h
  refine ⟨Nat.le_trans hij hle, hopen, fun l hil hlk => ?_⟩
  by_cases hlj : l < j
  · exact hbetween l hil hlj
  · exact hbefore l (by omega) hlk

/-- A character that a part in the middle of a text does not have is at none of its places. -/
private theorem getElem?_ne_of_not_mem {a x y : Text} {c : Char} (hx : c ∉ x) {j : Nat} (hj : a.length ≤ j)
    (hjx : j < a.length + x.length) : (a ++ (x ++ y))[j]? ≠ some c := by
  rw [List.getElem?_append_right hj, List.getElem?_append_left (by omega)]
  exact fun h => hx (List.mem_of_getElem? h)

private theorem firstOpen_append {a x y : Text} (hx : '(' ∉ x) :
    FirstOpen (a ++ (x ++ '(' :: y)) a.length (a.length + x.length) := by
  refine ⟨Nat.le_add_right .., ?_, fun j hj hjx => getElem?_ne_of_not_mem hx hj hjx⟩
  rw [← List.append_assoc, ← List.length_append, List.getElem?_append_right (Nat.le_refl _), Nat.sub_self]
  rfl

/-! ### Calls at two places -/

section Places

variable {o : Order} {s : Text} {p e q e' : Nat}

private theorem exists_cut_of_call (h : (functionCall o).MatchesAt s p e) (he : e ≤ s.length) :
    ∃ a t b, s = a ++ (t ++ b) ∧ p = a.length ∧ e = a.length + t.length ∧ (functionCall o).Takes t b := by
  have hpe : p ≤ e := by
    obtain ⟨t, ht, htake⟩ := exists_takes h
    have hlen := congrArg List.length ht
    have hpos := List.length_pos_iff.2 (functionCall_ne_nil htake)
    simp only [List.length_append, List.length_drop] at hlen
    omega
  obtain ⟨a, t, b, rfl, rfl, rfl⟩ := exists_cut hpe he
  exact ⟨a, t, b, rfl, rfl, rfl, matchesAt_iff_takes.1 h⟩

/-- The name of the callee stands in front of the first parenthesis of a call. -/
private theorem exists_firstOpen_of_call (h : (functionCall o).MatchesAt s p e) (he : e ≤ s.length) :
    ∃ k, FirstOpen s p k ∧ p < k := by
  obtain ⟨a, t, b, rfl, rfl, -, htake⟩ := exists_cut_of_call h he
  obtain ⟨n, c, w, rfl, hn, -, -, hopen, -⟩ := exists_callee htake
  have hfirst : FirstOpen (a ++ ((n ++ c) ++ '(' :: (w ++ b))) a.length (a.length + (n ++ c).length) :=
    firstOpen_append hopen
  refine ⟨_, by simpa using hfirst, ?_⟩
  obtain ⟨m, d, rfl, -⟩ := exists_of_trails (endsIn_qualifiedName n hn.derives)
  simp only [List.length_append, List.length_singleton]
  omega

/-- A match that starts within another stops where it stops, and no parenthesis stands between the two starts. -/
private theorem stop_eq_of_within (hs : '"' ∉ s) (he : e ≤ s.length) (he' : e' ≤ s.length)
    (h : (functionCall o).MatchesAt s p e) (h' : (functionCall o).MatchesAt s q e') (hpq : p < q) (hqe : q < e) :
    e' = e ∧ ∀ j, p ≤ j → j < q → s[j]? ≠ some '(' := by
  obtain ⟨a, t, b, rfl, rfl, rfl, htake⟩ := exists_cut_of_call h he
  obtain ⟨a', t', b', hcut, rfl, rfl, htake'⟩ := exists_cut_of_call h' he'
  rcases append_eq_append_cases hcut with ⟨u, rfl, hu⟩ | ⟨u, -, rfl, -⟩
  · rcases append_eq_append_cases hu.symm with ⟨v, rfl, hv⟩ | ⟨v, -, rfl, -⟩
    · have hne : v ≠ [] := by
        rintro rfl
        simp at hqe
      have hquote : '"' ∉ u ++ v := fun hmem => hs (List.mem_append_right a (List.mem_append_left b hmem))
      obtain ⟨rfl, hopen⟩ := takes_call_within htake hquote hne htake' hv
      refine ⟨by simp [Nat.add_assoc], fun j hj hjq => ?_⟩
      rw [List.length_append] at hjq
      rw [List.append_assoc]
      exact getElem?_ne_of_not_mem hopen hj hjq
    · simp only [List.length_append] at hqe
      omega
  · rw [List.length_append] at hpq
    omega

end Places

/-- In a text without quotes, a call that starts within another starts in front of the parenthesis of its arguments and
stops where it stops. So no call starts among the arguments of another, and two calls are apart or stop together. -/
theorem matches_apart_or_stop_together (o : Order) {s : Text} (hs : '"' ∉ s) {p e q e' : Nat} (he : e ≤ s.length)
    (he' : e' ≤ s.length) (h : (functionCall o).MatchesAt s p e) (h' : (functionCall o).MatchesAt s q e') :
    (p < q → q < e → e' = e ∧ ∃ k, FirstOpen s p k ∧ q < k) ∧
      (∀ k, FirstOpen s p k → ¬ (k ≤ q ∧ q < e)) ∧
      (e ≤ q ∨ e' ≤ p ∨ e' = e) := by
  have hwithin := stop_eq_of_within hs he he' h h'
  obtain ⟨k, hk, hpk⟩ := exists_firstOpen_of_call h he
  have hbefore : p < q → q < e → q < k := by
    intro hpq hqe
    obtain ⟨k', hk', hqk'⟩ := exists_firstOpen_of_call h' he'
    obtain rfl := hk.unique (hk'.of_le (Nat.le_of_lt hpq) (hwithin hpq hqe).2)
    exact hqk'
  refine ⟨fun hpq hqe => ⟨(hwithin hpq hqe).1, k, hk, hbefore hpq hqe⟩, ?_, ?_⟩
  · rintro k' hk' ⟨hkq, hqe⟩
    obtain rfl := hk.unique hk'
    have hlt := hbefore (by omega) hqe
    omega
  · rcases Nat.lt_trichotomy p q with hpq | rfl | hqp
    · by_cases hqe : q < e
      · exact .inr (.inr (hwithin hpq hqe).1)
      · exact .inl (by omega)
    · unfold MatchesAt at h h'
      rw [h, Option.some.injEq] at h'
      have hlen := congrArg List.length h'
      rw [List.length_drop, List.length_drop] at hlen
      exact .inr (.inr (by omega))
    · by_cases hpe : p < e'
      · exact .inr (.inr (stop_eq_of_within hs he' he h' h hqp hpe).1.symm)
      · exact .inr (.inl (by omega))

/-- A call behind the first scope of its name. -/
theorem matches_apart_or_stop_together_scope :
    let s : Text := "r = ab::cd(-(x), y);".toList
    '"' ∉ s ∧ (functionCall .ternaryFirst).MatchesAt s 4 19 ∧ (functionCall .ternaryFirst).MatchesAt s 8 19 ∧
      (∃ k, FirstOpen s 4 k ∧ 8 < k) ∧ ∀ k, FirstOpen s 4 k → ¬ (k ≤ 8 ∧ 8 < 19) := by
  intro s
  have hs : '"' ∉ s := by decide
  have h : (functionCall .ternaryFirst).MatchesAt s 4 19 := by decide +kernel
  have h' : (functionCall .ternaryFirst).MatchesAt s 8 19 := by decide +kernel
  have happly := matches_apart_or_stop_together .ternaryFirst hs (by decide) (by decide) h h'
  exact ⟨hs, h, h', (happly.1 (by decide) (by decide)).2, happly.2.1⟩

end CallHoist.Grammar
