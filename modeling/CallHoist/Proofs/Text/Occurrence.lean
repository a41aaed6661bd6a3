import CallHoist.Text.Basic

/-!
# Occurrences of a text in another

A text occurs in another if it is an infix of it. Where a text is put together from parts, an occurrence is within one
part or goes across a seam; characters that the occurrence cannot have at the seam rule out the latter.
-/

namespace CallHoist.Text

variable {n x y : Text}

/-! ### Seams -/

theorem infix_append_cons {c : Char} (h : n <:+: x ++ c :: y) (hc : c ∉ n) : n <:+: x ∨ n <:+: y := by
  rcases List.infix_append_iff_ne_nil.1 h with h | h | ⟨u, v, -, hv, rfl, -, hvy⟩
  · exact .inl h
  · rcases List.infix_cons_iff.1 h with h | h
    · cases n with
      | nil => exact .inl (List.nil_infix)
      | cons d n =>
        obtain rfl := (List.cons_prefix_cons.1 h).1
        exact absurd (List.mem_cons_self ..) hc
    · exact .inr h
  · cases v with
    | nil => exact absurd rfl hv
    | cons d v =>
      obtain rfl := (List.cons_prefix_cons.1 hvy).1
      exact absurd (List.mem_append_right _ (List.mem_cons_self ..)) hc

/-- What starts with a character that a part does not have occurs behind the part. -/
theorem infix_of_append_left {c : Char} (h : c :: n <:+: x ++ y) (hc : c ∉ x) : c :: n <:+: y := by
  rcases List.infix_append_iff_ne_nil.1 h with h | h | ⟨u, v, hu, -, huv, hux, -⟩
  · exact absurd (h.subset (List.mem_cons_self ..)) hc
  · exact h
  · cases u with
    | nil => exact absurd rfl hu
    | cons d u =>
      obtain rfl := (List.cons.inj huv).1
      exact absurd (hux.subset (List.mem_cons_self ..)) hc

/-- What ends with a character that a part does not have occurs before the part. -/
theorem infix_of_append_right {c : Char} (h : n ++ [c] <:+: x ++ y) (hc : c ∉ y) : n ++ [c] <:+: x := by
  rw [← List.reverse_infix, List.reverse_concat] at h ⊢
  rw [List.reverse_append] at h
  exact infix_of_append_left h (by rwa [List.mem_reverse])

/-- What cannot go across a seam occurs on one side of it. -/
theorem infix_append_of_seam (h : n <:+: x ++ y)
    (hseam : ∀ u v, u ≠ [] → v ≠ [] → n = u ++ v → u <:+ x → ¬ v <+: y) : n <:+: x ∨ n <:+: y := by
  rcases List.infix_append_iff_ne_nil.1 h with h | h | ⟨u, v, hu, hv, huv, hux, hvy⟩
  · exact .inl h
  · exact .inr h
  · exact absurd hvy (hseam u v hu hv huv hux)

/-- Of two cuts of a text in two, the second is at or behind the first, or it is before it. -/
theorem append_eq_append_cases {u v : Text} (h : u ++ v = x ++ y) :
    (∃ a, x = u ++ a ∧ v = a ++ y) ∨ ∃ a, a ≠ [] ∧ u = x ++ a ∧ y = a ++ v := by
  rcases List.append_eq_append_iff.1 h with h | ⟨a, hu, hy⟩
  · exact .inl h
  · by_cases ha : a = []
    · subst ha
      exact .inl ⟨[], by simpa using hu.symm, hy.symm⟩
    · exact .inr ⟨a, ha, hu, hy⟩

/-- The cuts of one text in two at a character that the first parts do not have are the same. -/
theorem append_cons_inj {c : Char} {x' y' : Text} (h : x ++ c :: y = x' ++ c :: y') (hx : c ∉ x) (hx' : c ∉ x') :
    x = x' ∧ y = y' := by
  rcases List.append_eq_append_iff.1 h with ⟨a, rfl, ha⟩ | ⟨a, rfl, ha⟩
  all_goals
    cases a with
    | nil => simp_all
    | cons d a =>
      obtain rfl := (List.cons.inj ha).1
      simp at hx hx'

/-- The last part of a text, if it is not empty, ends as the text does. -/
theorem exists_concat_of_append_eq {c : Char} {u v : Text} (h : u ++ v = x ++ [c]) (hv : v ≠ []) :
    ∃ v', v = v' ++ [c] := by
  obtain ⟨v', d, rfl⟩ := (List.eq_nil_or_concat v).resolve_left hv
  rw [List.concat_eq_append, ← List.append_assoc] at h
  obtain ⟨-, hd⟩ := List.append_inj' h rfl
  exact ⟨v', by rw [List.concat_eq_append, hd]⟩

/-! ### The last occurrence -/

theorem lastIndexOf?_eq_none_iff {s : Text} : lastIndexOf? n s = none ↔ ¬ n <:+: s := by
  induction s with
  | nil => cases n <;> simp [lastIndexOf?]
  | cons c s ih =>
    rw [lastIndexOf?, List.infix_cons_iff]
    cases hs : lastIndexOf? n s with
    | some i =>
      rw [hs] at ih
      simpa using fun _ => by simpa using ih
    | none =>
      have hn : ¬ n <:+: s := ih.1 hs
      by_cases hp : n <+: c :: s
      · simp [hp]
      · simp [hp, hn]

private theorem lastIndexOf?_append {s : Text} {i : Nat} (h : lastIndexOf? n s = some i) (u : Text) :
    lastIndexOf? n (u ++ s) = some (u.length + i) := by
  induction u with
  | nil => simpa using h
  | cons c u ih =>
    rw [List.cons_append, lastIndexOf?, ih, List.length_cons]
    simp only [Option.some.injEq]
    omega

/-- Behind the last occurrence there is no further one. -/
theorem exists_of_lastIndexOf? {s : Text} {i : Nat} (h : lastIndexOf? n s = some i) :
    ∃ u v, s = u ++ (n ++ v) ∧ i = u.length ∧ (n ≠ [] → ¬ n <:+: v) := by
  induction s generalizing i with
  | nil =>
    cases n with
    | nil => exact ⟨[], [], rfl, by simpa [lastIndexOf?] using h.symm, fun h => absurd rfl h⟩
    | cons c n => simp [lastIndexOf?] at h
  | cons c s ih =>
    rw [lastIndexOf?] at h
    cases hs : lastIndexOf? n s with
    | some j =>
      rw [hs] at h
      obtain ⟨u, v, rfl, rfl, hv⟩ := ih hs
      exact ⟨c :: u, v, rfl, (Option.some.inj h).symm, hv⟩
    | none =>
      simp only [hs, Option.ite_none_right_eq_some, Option.some.injEq, List.isPrefixOf_iff_prefix] at h
      obtain ⟨⟨v, hv⟩, rfl⟩ := h
      refine ⟨[], v, hv.symm, rfl, fun hn hnv => lastIndexOf?_eq_none_iff.1 hs ?_⟩
      cases n with
      | nil => exact absurd rfl hn
      | cons d n =>
        obtain rfl := (List.cons.inj hv).2
        exact List.infix_append_of_infix_right hnv

/-- An occurrence is the last one if a character stands behind it that it does not have, and no occurrence behind
that. -/
theorem lastIndexOf?_of_last {c : Char} {v : Text} (hn : n ≠ []) (hc : c ∉ n) (hv : ¬ n <:+: v) (u : Text) :
    lastIndexOf? n (u ++ (n ++ c :: v)) = some u.length := by
  suffices h : lastIndexOf? n (n ++ c :: v) = some 0 by simpa using lastIndexOf?_append h u
  cases n with
  | nil => exact absurd rfl hn
  | cons d n =>
    -- behind its first character the occurrence is too short to have another
    have hbehind : lastIndexOf? (d :: n) (n ++ c :: v) = none := by
      rw [lastIndexOf?_eq_none_iff]
      intro h
      rcases infix_append_cons h hc with h | h
      · have hlen := h.length_le
        rw [List.length_cons] at hlen
        omega
      · exact hv h
    rw [List.cons_append, lastIndexOf?, hbehind]
    simp

end CallHoist.Text
