import CallHoist.Grammar.Scan
import CallHoist.Proofs.Grammar.Reading

/-!
# Whole texts of a rule

* Whether a call is taken depends on its own text alone (`functionCall_local`): not on what stands before it or behind
  it. So no call is the front of another.
* Where no three colons stand in a row, a run takes just the texts of the grammar, for calls and for ternaries
  (`extent_eq_whole_iff_derives`): no greedy step and no order of choices costs a text that can be derived.
-/

namespace CallHoist.Grammar

open Text Peg Form

theorem extent_eq_whole_iff {p : Peg} {s : Text} : extent p s = .whole s.length ↔ p.run s = some [] := by
  unfold extent
  cases p.run s with
  | none => simp
  | some r => cases r <;> simp

/-! ### Calls -/

/-- Whether a call is taken does not depend on what follows it. -/
theorem takes_call_congr {o : Order} {t y : Text} (h : (functionCall o).Takes t y) (y' : Text) :
    (functionCall o).Takes t y' :=
  ((takes_call_iff.1 h).carry opens_takes (fun _ _ hv h => takes_name_congr h hv y')
    fun _ _ hv h => takes_atom_congr h hv y').takes

theorem functionCall_ne_nil {o : Order} {t y : Text} (h : (functionCall o).Takes t y) : t ≠ [] := by
  obtain ⟨-, -, -⟩ := takes_call_iff.1 h
  simp

/-- The expression matches a text at offset `i`, and the match ends at offset `j`. -/
def Peg.MatchesAt (p : Peg) (s : Text) (i j : Nat) : Prop := p.run (s.drop i) = some (s.drop j)

instance (p : Peg) (s : Text) (i j : Nat) : Decidable (p.MatchesAt s i j) := inferInstanceAs (Decidable (_ = _))

theorem matchesAt_iff_takes {p : Peg} {a t b : Text} :
    p.MatchesAt (a ++ (t ++ b)) a.length (a.length + t.length) ↔ p.Takes t b := by
  unfold MatchesAt Takes
  rw [List.drop_left, ← List.append_assoc, ← List.length_append, List.drop_left]

theorem exists_cut {s : Text} {i j : Nat} (hij : i ≤ j) (hj : j ≤ s.length) :
    ∃ a t b, s = a ++ (t ++ b) ∧ i = a.length ∧ j = a.length + t.length := by
  refine ⟨s.take i, (s.drop i).take (j - i), s.drop j, ?_, ?_, ?_⟩
  · have hdrop : s.drop j = (s.drop i).drop (j - i) := by rw [List.drop_drop, Nat.add_sub_cancel' hij]
    rw [hdrop, List.take_append_drop, List.take_append_drop]
  · rw [List.length_take]
    omega
  · rw [List.length_take, List.length_take, List.length_drop]
    omega

/-- Whether a call matches at a place is a matter of its text alone, so a match depends on nothing before it or behind
it, and no whole call is a proper front of another. -/
theorem functionCall_local (o : Order) :
    (∀ (s : Text) (i j : Nat), i < j → j ≤ s.length →
      ((functionCall o).MatchesAt s i j ↔ extent (functionCall o) (s.slice i j) = .whole (j - i))) ∧
    (∀ a t b a' b' : Text, (functionCall o).MatchesAt (a ++ (t ++ b)) a.length (a.length + t.length) ↔
      (functionCall o).MatchesAt (a' ++ (t ++ b')) a'.length (a'.length + t.length)) ∧
    (∀ t u : Text, extent (functionCall o) t = .whole t.length → extent (functionCall o) u = .whole u.length →
      t <+: u → t = u) := by
  have hcongr : ∀ t b b' : Text, (functionCall o).Takes t b ↔ (functionCall o).Takes t b' := fun t b b' =>
    ⟨fun h => takes_call_congr h b', fun h => takes_call_congr h b⟩
  refine ⟨fun s i j hij hj => ?_, fun a t b a' b' => ?_, fun t u ht hu htu => ?_⟩
  · obtain ⟨a, t, b, rfl, rfl, rfl⟩ := exists_cut (Nat.le_of_lt hij) hj
    have hslice : slice (a ++ (t ++ b)) a.length ((a.length + t.length : Nat) : Int) = t := by
      rw [slice_natCast _ _ _ hj]
      simp
    rw [hslice, matchesAt_iff_takes, Nat.add_sub_cancel_left, extent_eq_whole_iff, hcongr t b []]
    unfold Takes
    rw [List.append_nil]
  · rw [matchesAt_iff_takes, matchesAt_iff_takes]
    exact hcongr t b b'
  · -- a whole call is taken in front of any text, so both are what is taken of the longer one
    obtain ⟨v, rfl⟩ := htu
    rw [extent_eq_whole_iff] at ht hu
    have ht' : (functionCall o).Takes t v := takes_call_congr (y := []) (by rwa [Takes, List.append_nil]) v
    have hv : some v = some [] := ht'.symm.trans hu
    rw [Option.some.inj hv, List.append_nil]

/-- The inner of two calls, found in the text around it and by itself. -/
theorem functionCall_local_nested :
    let s : Text := "a = f(g(x), \"".toList
    let t : Text := "g(x)".toList
    ((functionCall .ternaryFirst).MatchesAt s 6 10 ↔
        extent (functionCall .ternaryFirst) (s.slice 6 10) = .whole (10 - 6)) ∧
      (extent (functionCall .ternaryFirst) t = .whole t.length ∧ t <+: s.slice 6 10 ∧ t = s.slice 6 10) := by
  have hlocal := functionCall_local .ternaryFirst
  refine ⟨hlocal.1 _ 6 10 (by decide) (by decide), by decide, by decide, ?_⟩
  exact hlocal.2.2 _ _ (by decide) (by decide) (by decide)

/-! ### Derivations -/

/-- Derivations in a text without three colons in a row. -/
private def DerivesClear (p : Peg) (t y : Text) : Prop := Derives p t ∧ ¬ [':', ':', ':'] <:+: t ++ y

private theorem opens_derivesClear : Opens DerivesClear :=
  opens_derives.and (Q := fun t => ¬ [':', ':', ':'] <:+: t) fun _ _ h hv => h (List.infix_append_of_infix_right hv)

private theorem Form.Expression.of_derivesClear {t y : Text} (h : DerivesClear (expression .ternaryFirst) t y) :
    Expression DerivesClear .ternaryFirst t y := by
  rcases opens_derivesClear.alt h with h | h
  · exact .ternary (opens_derivesClear.ternary h)
  · exact .chain (opens_derivesClear.chain h)

private theorem takes_atom_of_derivesClear {a v : Text} (hv : Ends v) (h : DerivesClear atom a (v ++ [])) :
    atom.Takes a (v ++ []) := by
  obtain ⟨hd, hcol⟩ := h
  rw [List.append_nil] at hcol ⊢
  exact takes_atom_of_derives hd hv hcol

private theorem takes_name_of_derivesClear {a v : Text} (hv : Seals v) (h : DerivesClear qualifiedName a (v ++ [])) :
    qualifiedName.Takes a (v ++ []) := by
  obtain ⟨hd, hcol⟩ := h
  rw [List.append_nil] at hcol ⊢
  have hends : Ends v := .inr hv
  exact takes_name_of_derives hd hends (hends.behindColons?_eq_none fun h =>
    hcol (List.infix_append_of_infix_right h))

private theorem takes_call_of_derives {w : Text} (h : DerivesClear (functionCall .ternaryFirst) w []) :
    (functionCall .ternaryFirst).Takes w [] := by
  have hform := opens_derivesClear.call Expression.of_derivesClear h
  exact (hform.carry opens_derivesClear (fun _ _ => takes_name_of_derivesClear)
    fun _ _ hv => takes_atom_of_derivesClear (.inr hv)).takes

private theorem takes_ternary_of_derives {w : Text} (h : DerivesClear ternary w []) : ternary.Takes w [] :=
  takes_ternary ((opens_derivesClear.ternary h).carry opens_derivesClear fun _ _ => takes_atom_of_derivesClear) rfl

/-- A text without three colons in a row is taken as a whole by the rule of calls, and by that of conditional
expressions, just if it can be derived from the rule. -/
theorem extent_eq_whole_iff_derives (w : Text) (hw : ¬ [':', ':', ':'] <:+: w) (r : Rule)
    (hr : r ∈ [Rule.functionCall, Rule.condExpression]) :
    extent (r.peg .ternaryFirst) w = .whole w.length ↔ Derives (r.peg .ternaryFirst) w := by
  have hclear : ¬ [':', ':', ':'] <:+: w ++ [] := by rwa [List.append_nil]
  rw [extent_eq_whole_iff]
  constructor
  · intro h
    obtain ⟨t, ht, hd⟩ := derives_of_run h
    rwa [ht, List.append_nil]
  · intro h
    rw [← List.append_nil w]
    simp only [List.mem_cons, List.not_mem_nil, or_false] at hr
    rcases hr with rfl | rfl
    · exact takes_call_of_derives ⟨h, hclear⟩
    · exact takes_ternary_of_derives ⟨h, hclear⟩

/-- A call with signs, a group, a scope and a ternary can be derived; a ternary without its last term cannot. -/
theorem extent_eq_whole_iff_derives_signs :
    Derives (Rule.peg .ternaryFirst .functionCall) "f(a + - -(b), -x::y ? 1. : \"s\")".toList ∧
      ¬ Derives (Rule.peg .ternaryFirst .condExpression) "a ? b :".toList := by
  constructor
  · exact (extent_eq_whole_iff_derives _ (by decide +kernel) .functionCall (by decide)).1 (by decide +kernel)
  · intro h
    have hwhole := (extent_eq_whole_iff_derives _ (by decide +kernel) .condExpression (by decide)).2 h
    exact absurd hwhole (by decide +kernel)

end CallHoist.Grammar
