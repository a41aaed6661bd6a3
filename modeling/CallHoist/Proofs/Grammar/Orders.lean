import CallHoist.Proofs.Grammar.Found

/-!
# Chains first or ternaries first

In a text without quotes, a scan that tries chains first finds those of the calls that a scan with ternaries first finds
that have no question mark (`scan_chainFirst`).

At one place the two orders differ only on calls with a ternary among the arguments, and those are the calls with a
question mark (`takes_chainFirst_iff`). Where the first scan has such a call, the second goes on inside it. It finds
nothing there: a call that begins in another is the rest of it, from a place in the callee on, and so it has the
question mark too.
-/

namespace CallHoist.Grammar

open Text Peg Form

/-! ### Calls without a question mark -/

private theorem foreign_mark : Foreign '?' := by decide

private theorem Form.SignedTerm.not_mem_mark {t z : Text} (h : SignedTerm Takes t z) (hq : '"' ∉ t) : '?' ∉ t := by
  cases h with
  | plain h => exact h.not_mem foreign_mark hq
  | @group s b t b' _ hs hb ht hb' =>
    have hqt : '"' ∉ t := fun h => hq (by simp [h])
    have hs' := foreign_mark.not_mem_signs hs
    have ht' := ht.not_mem foreign_mark hqt
    have hblank := foreign_mark.not_blank
    simp [hs', ht', not_mem_of_all hb hblank, not_mem_of_all hb' hblank]

private theorem Form.Series.not_mem_mark {p : Char → Bool} (hp : p '?' = false) {Q : Text → Text → Prop}
    (hQ : ∀ u z, '"' ∉ u → Q u z → '?' ∉ u) {t z : Text} (h : Series p Q t z) (hq : '"' ∉ t) : '?' ∉ t := by
  obtain ⟨hu, hv⟩ := h
  rw [List.mem_append, not_or] at hq ⊢
  exact ⟨hQ _ _ hq.1 hu, foreign_mark.not_mem_rounds hp hQ hv hq.2⟩

private theorem Form.Ternary.mem_mark {J : Peg → Text → Text → Prop} {t z : Text} (h : Ternary J t z) : '?' ∈ t := by
  obtain ⟨-, hv, -⟩ := h
  obtain ⟨-, hc, -, -⟩ := hv
  obtain rfl := beq_iff_eq.1 hc
  simp

private theorem Form.Expression.not_mem_mark {t z : Text} (hq : '"' ∉ t) (h : Expression Takes .chainFirst t z) :
    '?' ∉ t := by
  cases h with
  | chain h => exact h.not_mem_mark (by decide) (fun _ _ hq hu => hu.not_mem_mark hq) hq

/-- Parts with separators between them are judged otherwise if each part is, as it stands in the text. -/
private theorem Form.Series.imp {p : Char → Bool} {Q Q' : Text → Text → Prop} {t z : Text} (h : Series p Q t z)
    (hQ : ∀ u z, u <:+: t → Q u z → Q' u z) : Series p Q' t z := by
  obtain @⟨u, v, _, hu, hv⟩ := h
  refine .mk (hQ _ _ (List.prefix_append u v).isInfix hu) ?_
  replace hQ : ∀ x z, x <:+: v → Q x z → Q' x z := fun x z hx => hQ x z (hx.trans (List.suffix_append u v).isInfix)
  clear hu
  induction hv with
  | nil => exact .nil
  | @cons w v hne hw _ ih =>
    refine .cons hne ?_ (ih fun x z hx => hQ x z (hx.trans (List.suffix_append w v).isInfix))
    obtain @⟨b, b', x, _, c, hb, hc, hb', hx⟩ := hw
    exact .mk hb hc hb' (hQ _ _ ⟨b ++ c :: b', v, by simp⟩ hx)

private theorem Form.Inside.chainFirst {w z : Text} (h : Inside Takes .ternaryFirst w z) (hw : '?' ∉ w) :
    Inside Takes .chainFirst w z := by
  cases h with
  | empty hb => exact .empty hb
  | @arguments b t b' _ hb ht hb' =>
    refine .arguments hb (ht.imp fun u z hu hexp => ?_) hb'
    cases hexp with
    | chain h => exact .chain h
    | ternary h =>
      have hin : '?' ∈ t := hu.subset h.mem_mark
      exact absurd (by simp [hin]) hw

private theorem Form.Inside.ternaryFirst {w z : Text} (h : Inside Takes .chainFirst w z) (hq : '"' ∉ w) :
    Inside Takes .ternaryFirst w z ∧ '?' ∉ w := by
  cases h with
  | empty hb => exact ⟨.empty hb, by simp [not_mem_of_all hb foreign_mark.not_blank]⟩
  | @arguments b t b' _ hb ht hb' =>
    constructor
    · refine .arguments hb (ht.imp fun u z _ hexp => ?_) hb'
      cases hexp with
      | chain h => exact .chain h
    · have hqt : '"' ∉ t := fun h => hq (by simp [h])
      have ht' := ht.not_mem_mark (by decide) (fun _ _ hq hu => hu.not_mem_mark hq) hqt
      have hblank := foreign_mark.not_blank
      simp [ht', not_mem_of_all hb hblank, not_mem_of_all hb' hblank]

/-- Without quotes, the calls that are taken where chains are tried first are the others without a question mark. -/
theorem takes_chainFirst_iff {t y : Text} (hq : '"' ∉ t) :
    (functionCall .chainFirst).Takes t y ↔ (functionCall .ternaryFirst).Takes t y ∧ '?' ∉ t := by
  simp only [takes_call_iff]
  constructor
  · intro h
    obtain @⟨n, b, w, _, hn, hb, hw⟩ := h
    have hqw : '"' ∉ w := fun h => hq (by simp [h])
    obtain ⟨hw', hmark⟩ := hw.ternaryFirst hqw
    have hn' := foreign_mark.not_mem_name hn.derives
    have hb' := not_mem_of_all hb foreign_mark.not_blank
    exact ⟨.mk hn hb hw', by simp [hn', hb', hmark]⟩
  · rintro ⟨h, hmark⟩
    obtain @⟨n, b, w, _, hn, hb, hw⟩ := h
    have hmarkw : '?' ∉ w := fun h => hmark (by simp [h])
    exact .mk hn hb (hw.chainFirst hmarkw)

/-! ### Gaps -/

/-- What stands before the parenthesis of a call has no question mark. -/
private theorem not_mem_mark_of_call {o : Order} {u v y : Text} (h : (functionCall o).Takes (u ++ v) y)
    (hu : '(' ∉ u) : '?' ∉ u := by
  obtain ⟨n, b, w, ht, hn, hb, -, -, -⟩ := exists_callee h
  have hfront : u <+: n ++ b := by
    rcases append_eq_append_cases ht with ⟨a, ha, -⟩ | ⟨a, hne, rfl, ha⟩
    · exact ⟨a, ha.symm⟩
    · cases a with
      | nil => exact absurd rfl hne
      | cons d a =>
        obtain ⟨rfl, -⟩ := List.cons.inj ha
        simp at hu
  intro hmark
  rcases List.mem_append.1 (hfront.subset hmark) with hmem | hmem
  · exact foreign_mark.not_mem_name hn.derives hmem
  · exact not_mem_of_all hb foreign_mark.not_blank hmem

private theorem gap_chainFirst {g r : Text} (hg : (functionCall .ternaryFirst).Gap g r) (hq : '"' ∉ g ++ r) :
    (functionCall .chainFirst).Gap g r := by
  apply gap_of_not_takes
  rintro u v t s rfl hv ht he
  have hqt : '"' ∉ t := by
    intro hmem
    have hvr : '"' ∈ v ++ r := he ▸ List.mem_append_left s hmem
    exact hq (by rw [List.append_assoc]; exact List.mem_append_right u hvr)
  exact not_takes_of_gap hg hv ((takes_chainFirst_iff hqt).1 ht).1 he

/-- In a call with a question mark there is no call where chains are tried first. -/
private theorem gap_chainFirst_of_mark {t r : Text} (ht : (functionCall .ternaryFirst).Takes t r) (hq : '"' ∉ t ++ r)
    (hmark : '?' ∈ t) : (functionCall .chainFirst).Gap t r := by
  apply gap_of_not_takes
  rintro u v t' s rfl hv ht' he
  rw [List.append_assoc, List.mem_append, not_or] at hq
  have hqt : '"' ∉ t' := fun hmem => hq.2 (he ▸ List.mem_append_left s hmem)
  obtain ⟨htern, hmark'⟩ := (takes_chainFirst_iff hqt).1 ht'
  have hqv : '"' ∉ u ++ v := by
    rw [List.mem_append, not_or]
    exact ⟨hq.1, fun hmem => hq.2 (List.mem_append_left r hmem)⟩
  obtain ⟨rfl, hparen⟩ := takes_call_within ht hqv hv htern he.symm
  rcases List.mem_append.1 hmark with hmem | hmem
  · exact not_mem_mark_of_call ht hparen hmem
  · exact hmark' hmem

/-! ### Scans -/

namespace Cutting

/-- The cutting with a text put in front of its first gap. -/
private def behind (g : Text) : Cutting → Cutting
  | rest g' => rest (g ++ g')
  | part g' t k => part (g ++ g') t k

/-- The cutting without the matches that fail a test: they become part of the gaps. -/
private def keep (test : Text → Bool) : Cutting → Cutting
  | rest g => rest g
  | part g t k => if test t then part g t (k.keep test) else (k.keep test).behind (g ++ t)

private theorem text_behind (g : Text) (k : Cutting) : (k.behind g).text = g ++ k.text := by
  cases k <;> simp [behind, text]

private theorem matchesFrom_behind (g : Text) (k : Cutting) (pos : Nat) :
    (k.behind g).matchesFrom pos = k.matchesFrom (pos + g.length) := by
  cases k with
  | rest g' => rfl
  | part g' t k => simp only [behind, matchesFrom, List.length_append, Nat.add_assoc]

private theorem gap_append {p : Peg} {g g' r : Text} (h : p.Gap g (g' ++ r)) (h' : p.Gap g' r) : p.Gap (g ++ g') r := by
  intro u v huv hv
  -- the place is in the second text, or it is in the first and all of the second stands behind
  rcases append_eq_append_cases huv with ⟨a, -, rfl⟩ | ⟨a, hne, rfl, rfl⟩
  · exact h' a v rfl hv
  · rw [List.append_assoc]
    exact h u a rfl hne

private theorem Fits.behind {p : Peg} {g : Text} {k : Cutting} (hk : k.Fits p) (hg : p.Gap g k.text) :
    (k.behind g).Fits p := by
  cases k with
  | rest g' => exact gap_append (by rwa [List.append_nil]) hk
  | part g' t k =>
    obtain ⟨hg', hrest⟩ := hk
    exact ⟨gap_append hg hg', hrest⟩

private theorem text_keep (test : Text → Bool) (k : Cutting) : (k.keep test).text = k.text := by
  induction k with
  | rest g => rfl
  | part g t k ih =>
    rw [keep]
    split
    · rw [text, text, ih]
    · rw [text_behind, text, ih, List.append_assoc]

private theorem matchesFrom_keep (test : Text → Bool) (k : Cutting) (pos : Nat) :
    (k.keep test).matchesFrom pos = (k.matchesFrom pos).filter (test ·.text) := by
  induction k generalizing pos with
  | rest g => rfl
  | part g t k ih =>
    rw [keep, matchesFrom, List.filter_cons]
    by_cases ht : test t = true
    · simp only [ht, ↓reduceIte, matchesFrom, ih]
    · simp only [ht, Bool.false_eq_true, ↓reduceIte]
      rw [matchesFrom_behind, ih, List.length_append, Nat.add_assoc]

private theorem Fits.chainFirst {k : Cutting} (hk : k.Fits (functionCall .ternaryFirst)) (hq : '"' ∉ k.text) :
    (k.keep fun t => '?' ∉ t).Fits (functionCall .chainFirst) := by
  induction k with
  | rest g => exact gap_chainFirst hk (by rwa [List.append_nil])
  | part g t k ih =>
    obtain ⟨hg, ht, hne, hlead, hk⟩ := hk
    have hqt : '"' ∉ t ++ k.text := fun hmem => hq (List.mem_append_right g hmem)
    have hqk : '"' ∉ k.text := fun hmem => hqt (List.mem_append_right t hmem)
    have hg' := gap_chainFirst hg hq
    rw [keep]
    by_cases hmark : '?' ∈ t
    · simp only [hmark, not_true_eq_false, decide_false, Bool.false_eq_true, ↓reduceIte]
      refine (ih hk hqk).behind ?_
      rw [text_keep]
      exact gap_append hg' (gap_chainFirst_of_mark ht hqt hmark)
    · simp only [hmark, not_false_eq_true, decide_true, ↓reduceIte]
      have ht' := (takes_chainFirst_iff fun hmem => hqt (List.mem_append_left _ hmem)).2 ⟨ht, hmark⟩
      exact ⟨by rwa [text_keep], by rwa [text_keep], hne, hlead, ih hk hqk⟩

end Cutting

/-- In a text without quotes, the calls that are found where chains are tried first are those that are found where
ternaries are, less those with a question mark. -/
theorem scan_chainFirst (s : Text) (hq : '"' ∉ s) :
    scan (functionCall .chainFirst) s = (scan (functionCall .ternaryFirst) s).filter fun m => '?' ∉ m.text := by
  obtain ⟨k, rfl, hk, hscan⟩ := exists_cutting (functionCall .ternaryFirst) s
  have hkeep := (hk.chainFirst hq).scan_eq
  rw [Cutting.text_keep, Cutting.matchesFrom_keep] at hkeep
  rw [hscan, hkeep]

/-- A call of a ternary between two without. The name of its callee ends in that of another. -/
theorem scan_chainFirst_mixed :
    '"' ∉ "f(a) + of(a ? b : c) + f(x)".toList ∧
      scan (functionCall .chainFirst) "f(a) + of(a ? b : c) + f(x)".toList =
        [⟨0, 4, "f(a)".toList⟩, ⟨23, 27, "f(x)".toList⟩] := by
  have hq : '"' ∉ "f(a) + of(a ? b : c) + f(x)".toList := by decide
  refine ⟨hq, ?_⟩
  rw [scan_chainFirst _ hq]
  decide +kernel

end CallHoist.Grammar
