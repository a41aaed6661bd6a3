import CallHoist.Grammar.Peg

/-!
# Derivations

The texts of a parsing expression when it is read as a grammar: choice has no order, an option may be left out wherever
it stands, and a repetition may end after any number of rounds. What a run takes is such a text (`derives_of_run`), but
not each text of the grammar is taken by a run, as a run gives nothing back.
-/

namespace CallHoist.Grammar

inductive Derives : Peg → Text → Prop where
  | one {p : Char → Bool} {c : Char} : p c = true → Derives (.one p) [c]
  | lit (s : Text) : Derives (.lit s) s
  | seq {a b : Peg} {s t : Text} : Derives a s → Derives b t → Derives (.seq a b) (s ++ t)
  | altLeft {a b : Peg} {s : Text} : Derives a s → Derives (.alt a b) s
  | altRight {a b : Peg} {s : Text} : Derives b s → Derives (.alt a b) s
  | optNone {a : Peg} : Derives (.opt a) []
  | optSome {a : Peg} {s : Text} : Derives a s → Derives (.opt a) s
  | starNil {a : Peg} : Derives (.star a) []
  | starCons {a : Peg} {s t : Text} : Derives a s → Derives (.star a) t → Derives (.star a) (s ++ t)

private theorem derives_of_iterate {a : Peg}
    (ih : ∀ {s r : Text}, a.run s = some r → ∃ t, s = t ++ r ∧ Derives a t) (n : Nat) (s : Text) :
    ∃ t, s = t ++ iterate a.run n s ∧ Derives (.star a) t := by
  induction n generalizing s with
  | zero => exact ⟨[], rfl, .starNil⟩
  | succ n ihn =>
    cases h : a.run s with
    | none => exact ⟨[], by simp [iterate, h], .starNil⟩
    | some r =>
      obtain ⟨t, rfl, ht⟩ := ih h
      obtain ⟨u, hu, hd⟩ := ihn r
      refine ⟨t ++ u, ?_, .starCons ht hd⟩
      simp only [iterate, h, List.append_assoc]
      rw [← hu]

/-- What a run takes from the front of a text is derivable. -/
theorem derives_of_run {p : Peg} {s r : Text} (h : p.run s = some r) : ∃ t, s = t ++ r ∧ Derives p t := by
  induction p generalizing s r with
  | one p =>
    cases s with
    | nil => simp [Peg.run] at h
    | cons c s =>
      simp only [Peg.run] at h
      split at h
      · rename_i hc
        cases h
        exact ⟨[c], rfl, .one hc⟩
      · simp at h
  | lit l => exact ⟨l, Text.dropFront?_eq_some_iff.1 h, .lit l⟩
  | seq a b iha ihb =>
    rw [Peg.run_seq, Option.bind_eq_some_iff] at h
    obtain ⟨m, ha, hb⟩ := h
    obtain ⟨t, rfl, ht⟩ := iha ha
    obtain ⟨u, rfl, hu⟩ := ihb hb
    exact ⟨t ++ u, by simp, .seq ht hu⟩
  | alt a b iha ihb =>
    rw [Peg.run_alt, Option.or_eq_some_iff] at h
    rcases h with ha | ⟨-, hb⟩
    · obtain ⟨t, rfl, ht⟩ := iha ha
      exact ⟨t, rfl, .altLeft ht⟩
    · obtain ⟨t, rfl, ht⟩ := ihb hb
      exact ⟨t, rfl, .altRight ht⟩
  | opt a ih =>
    rw [Peg.run_opt] at h
    cases ha : a.run s with
    | none =>
      rw [ha] at h
      cases h
      exact ⟨[], rfl, .optNone⟩
    | some m =>
      rw [ha] at h
      cases h
      obtain ⟨t, hs, ht⟩ := ih ha
      exact ⟨t, hs, .optSome ht⟩
  | star a ih =>
    rw [Peg.run_star] at h
    cases h
    exact derives_of_iterate ih _ s

end CallHoist.Grammar
