import CallHoist.Proofs.Grammar.Nesting
import CallHoist.Proofs.Grammar.Start

/-!
# Calls that a scan finds

A scan for calls finds no call at any place of a gap, white space or not (`not_takes_of_gap`), as no call begins with
spacing. So no call is found behind the beginning of a word (`not_identifier_before_of_mem_scan`): the word would belong
to the gap and make a longer call. And in a text without quotes no call that begins before a found one goes on past its
beginning (`comesFirst_of_mem`).
-/

namespace CallHoist.Grammar

open Text Peg

theorem leads_spacing_of_call {o : Order} {t y : Text} (h : (functionCall o).Takes t y) :
    leads isSpacing t = false :=
  (Rule.startsIn o (r := .functionCall) (by decide)).leads_spacing h

/-- No call is at any place of a gap. -/
theorem not_takes_of_gap {o : Order} {u v r t s : Text} (hg : (functionCall o).Gap (u ++ v) r) (hv : v ≠ [])
    (ht : (functionCall o).Takes t s) : v ++ r ≠ t ++ s := by
  intro he
  have hnone : (functionCall o).run (v ++ r) = none :=
    Gap.run_eq_none (Rule.startsIn o (r := .functionCall) (by decide)) hg hv
  rw [he, ht] at hnone
  cases hnone

/-- Where nothing is taken at any place, there is a gap. -/
theorem gap_of_not_takes {p : Peg} {g r : Text}
    (h : ∀ u v t s, g = u ++ v → v ≠ [] → p.Takes t s → v ++ r ≠ t ++ s) : p.Gap g r := by
  intro u v hg hv
  cases hrun : p.run (v ++ r) with
  | none => exact .inr (.inl hrun)
  | some s =>
    obtain ⟨t, ht, htake⟩ := exists_takes hrun
    exact absurd ht (h u v t s hg hv htake)

/-- A call behind a gap is not cut out of a longer word. -/
theorem not_isIdentifier_of_gap {o : Order} {u v t s : Text} (hg : (functionCall o).Gap (u ++ v) (t ++ s))
    (ht : (functionCall o).Takes t s) : ¬ IsIdentifier v := by
  intro hv
  exact not_takes_of_gap hg hv.1.1 (takes_call_append hv ht) (by simp)

/-- No call that begins in `l` goes on past the end of `l`, if `z` stands behind. -/
def ComesFirst (o : Order) (l z : Text) : Prop :=
  ∀ x y t r, l = x ++ y → y ≠ [] → (functionCall o).Takes t r → t ++ r = y ++ z → t <+: y

theorem ComesFirst.of_suffix {o : Order} {l l' z : Text} (h : ComesFirst o l z) (hl : l' <:+ l) :
    ComesFirst o l' z := by
  obtain ⟨p, rfl⟩ := hl
  rintro x y t r rfl hy ht he
  exact h (p ++ x) y t r (List.append_assoc ..).symm hy ht he

private theorem comesFirst_of_gap {o : Order} {g z : Text} (hg : (functionCall o).Gap g z) : ComesFirst o g z := by
  rintro x y t r rfl hy ht he
  exact absurd he.symm (not_takes_of_gap hg hy ht)

private theorem comesFirst_append {o : Order} {g t l z : Text} (hg : (functionCall o).Gap g (t ++ (l ++ z)))
    (ht : (functionCall o).Takes t (l ++ z)) (hq : '"' ∉ t) (hl : ComesFirst o l z) :
    ComesFirst o (g ++ (t ++ l)) z := by
  intro x y t' r' hxy hy ht' he
  -- the call begins behind the match, in it, or in the gap
  rw [← List.append_assoc] at hxy
  rcases append_eq_append_cases hxy with ⟨a, -, rfl⟩ | ⟨a, hne, ha, rfl⟩
  · exact hl a y t' r' rfl hy ht' he
  · rw [List.append_assoc] at he
    rcases append_eq_append_cases ha with ⟨b, -, rfl⟩ | ⟨b, hb, rfl, rfl⟩
    · obtain ⟨rfl, -⟩ := takes_call_within ht hq hne ht' he
      exact List.prefix_append t' l
    · rw [List.append_assoc] at he
      exact absurd he.symm (not_takes_of_gap hg hb ht')

/-- In a text without quotes, no call that begins before a found one goes on past its beginning. -/
theorem comesFirst_of_mem {o : Order} {k : Cutting} (hk : k.Fits (functionCall o)) (hq : '"' ∉ k.text) {pos : Nat}
    {m : Match} (hm : m ∈ k.matchesFrom pos) :
    ∃ l z, k.text = l ++ (m.text ++ z) ∧ (functionCall o).Takes m.text z ∧ ComesFirst o l (m.text ++ z) := by
  induction k generalizing pos with
  | rest g => cases hm
  | part g t k ih =>
    obtain ⟨hg, ht, -, -, hk⟩ := hk
    rw [Cutting.text, List.mem_append, List.mem_append, not_or, not_or] at hq
    rcases List.mem_cons.1 hm with rfl | hm
    · exact ⟨g, k.text, rfl, ht, comesFirst_of_gap hg⟩
    · obtain ⟨l, z, htext, htake, hfirst⟩ := ih hk hq.2.2 hm
      refine ⟨g ++ (t ++ l), z, by simp [Cutting.text, htext], htake, ?_⟩
      rw [htext] at hg ht
      exact comesFirst_append hg ht hq.2.1 hfirst

/-! ### Words in front of a found call -/

/-- What stands in front of a found call without a closing parenthesis in it belongs to the gap: the call that is found
before ends in one. -/
theorem exists_front_of_mem_scan {o : Order} {s : Text} {m : Match} (hm : m ∈ scan (functionCall o) s) :
    ∃ x z, s = x ++ (m.text ++ z) ∧ m.start = (x.length : Nat) ∧ (functionCall o).Takes m.text z ∧
      ∀ a v, x = a ++ v → ')' ∉ v → ∃ u, (functionCall o).Gap (u ++ v) (m.text ++ z) := by
  obtain ⟨k, rfl, hk, hscan⟩ := exists_cutting (functionCall o) s
  rw [hscan] at hm
  obtain ⟨l, g, z, htext, hstart, hgap, htake, hl⟩ := hk.exists_gap_of_mem hm
  refine ⟨l ++ g, z, by simp [htext], by simp [hstart], htake, fun a v hav hv => ?_⟩
  rcases append_eq_append_cases hav with ⟨u, -, rfl⟩ | ⟨u, hne, rfl, rfl⟩
  · exact ⟨u, hgap⟩
  · -- a part that goes on before the gap has the last character of the call before
    exfalso
    rcases hl with hl | ⟨l', t, r, hl, ht⟩
    · exact hne (List.append_eq_nil_iff.1 hl).2
    · obtain ⟨t', rfl⟩ := exists_close_of_call ht
      rw [← List.append_assoc] at hl
      obtain ⟨u', rfl⟩ := exists_concat_of_append_eq hl hne
      simp at hv

/-- A found call is not cut out of a longer identifier: from no letter and no underscore before it do characters of a
word go on up to it. -/
theorem not_identifier_before_of_mem_scan {o : Order} {s : Text} {m : Match} (hm : m ∈ scan (functionCall o) s) :
    ¬ ∃ q : Nat, (q : Int) < m.start ∧ (∃ c, s[q]? = some c ∧ isNameStart c = true) ∧
      ∀ c ∈ s.slice q m.start, isWordChar c = true := by
  rintro ⟨q, hq, ⟨c, hc, hletter⟩, hword⟩
  obtain ⟨x, z, rfl, hx, htake, hfront⟩ := exists_front_of_mem_scan hm
  rw [hx] at hq hword
  have hlt : q < x.length := by omega
  rw [slice_append (Nat.le_of_lt hlt)] at hword
  have hidentifier : IsIdentifier (x.drop q) := by
    refine ⟨⟨?_, List.all_eq_true.2 hword⟩, ?_⟩
    · rw [Ne, List.drop_eq_nil_iff]
      omega
    · rw [List.getElem?_append_left hlt, List.getElem?_eq_getElem hlt, Option.some.injEq] at hc
      rw [List.drop_eq_getElem_cons hlt, leads_cons, hc]
      exact hletter
  have hclose : ')' ∉ x.drop q := fun h => absurd (hword _ h) (by decide)
  obtain ⟨u, hgap⟩ := hfront (x.take q) (x.drop q) (List.take_append_drop q x).symm hclose
  exact not_isIdentifier_of_gap hgap htake hidentifier

/-- A digit begins no identifier, so behind it a call is found in the middle of a word. -/
theorem not_identifier_before_of_mem_scan_digit :
    let s : Text := "ab(x); 1cd(x)".toList
    let m : Match := ⟨8, 13, "cd(x)".toList⟩
    m ∈ scan (functionCall .chainFirst) s ∧
      ¬ ∃ q : Nat, (q : Int) < m.start ∧ (∃ c, s[q]? = some c ∧ isNameStart c = true) ∧
        ∀ c ∈ s.slice q m.start, isWordChar c = true := by
  intro s m
  have hm : m ∈ scan (functionCall .chainFirst) s := by decide +kernel
  exact ⟨hm, not_identifier_before_of_mem_scan hm⟩

end CallHoist.Grammar
