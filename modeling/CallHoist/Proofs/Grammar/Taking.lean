import CallHoist.Grammar.Derivation

/-!
# What a run takes

`p.Takes t r` says that `p`, tried at the front of `t ++ r`, takes `t` and leaves `r`. Taking opens up along the
constructors of an expression, and so does being derived; `Opens` collects what the two have in common, so that a fact
about the form of a text is proved once for both.

A repetition has no fuel to care about: where its body fails it ends (`run_star_of_none`), and where its body takes
something it goes on behind it (`run_star_of_some`).
-/

namespace CallHoist.Grammar

namespace Peg

/-- Tried at the front of `t ++ r`, the expression takes `t` and leaves `r`. -/
def Takes (p : Peg) (t r : Text) : Prop := p.run (t ++ r) = some r

theorem exists_takes {p : Peg} {s r : Text} (h : p.run s = some r) : ∃ t, s = t ++ r ∧ p.Takes t r := by
  obtain ⟨t, rfl, -⟩ := derives_of_run h
  exact ⟨t, rfl, h⟩

theorem Takes.derives {p : Peg} {t r : Text} (h : p.Takes t r) : Derives p t := by
  obtain ⟨t', ht, hd⟩ := derives_of_run h
  rwa [List.append_cancel_right ht]

theorem Takes.rest_unique {p : Peg} {t r t' r' : Text} (h : p.Takes t r) (h' : p.Takes t' r')
    (he : t ++ r = t' ++ r') : r = r' := by
  unfold Takes at h h'
  rw [he, h'] at h
  exact (Option.some.inj h).symm

/-! ### Repetition -/

private theorem rest_cases {p : Peg} {s r : Text} (h : p.run s = some r) : r = s ∨ r.length < s.length := by
  obtain ⟨t, rfl, -⟩ := derives_of_run h
  cases t with
  | nil => exact .inl rfl
  | cons c t => exact .inr (by rw [List.length_append, List.length_cons]; omega)

private theorem iterate_of_fixed {step : Text → Option Text} {s : Text} (h : step s = some s) (n : Nat) :
    iterate step n s = s := by
  induction n with
  | zero => rfl
  | succ n ih => simp only [iterate, h, ih]

private theorem iterate_congr (a : Peg) {m n : Nat} {s : Text} (hm : s.length ≤ m) (hn : s.length ≤ n) :
    iterate a.run m s = iterate a.run n s := by
  induction m generalizing n s with
  | zero =>
    obtain rfl : s = [] := List.eq_nil_of_length_eq_zero (by omega)
    cases ha : a.run [] with
    | none => cases n <;> simp [iterate, ha]
    | some r =>
      have hr := rest_cases ha
      obtain rfl : r = [] := hr.elim id (fun h => absurd h (by simp))
      rw [iterate_of_fixed ha, iterate_of_fixed ha]
  | succ m ih =>
    cases ha : a.run s with
    | none => cases n <;> simp [iterate, ha]
    | some r =>
      -- a round that takes nothing is the last with any fuel; one that takes something leaves less text than fuel
      rcases rest_cases ha with rfl | hr
      · rw [iterate_of_fixed ha, iterate_of_fixed ha]
      · obtain ⟨k, rfl⟩ : ∃ k, n = k + 1 := ⟨n - 1, by omega⟩
        simp only [iterate, ha]
        exact ih (by omega) (by omega)

theorem run_star_of_none {a : Peg} {s : Text} (h : a.run s = none) : (star a).run s = some s := by
  rw [run_star]
  cases s <;> simp [iterate, h]

theorem run_star_of_some {a : Peg} {s r : Text} (h : a.run s = some r) : (star a).run s = (star a).run r := by
  rw [run_star, run_star]
  rcases rest_cases h with rfl | hr
  · rfl
  · obtain ⟨n, hn⟩ : ∃ n, s.length = n + 1 := ⟨s.length - 1, by omega⟩
    rw [hn]
    simp only [iterate, h]
    rw [iterate_congr a (m := n) (n := r.length) (by omega) (by omega)]

private theorem iterate_stop {a : Peg} {n : Nat} {s : Text} (h : s.length ≤ n) :
    a.run (iterate a.run n s) = none ∨ a.run (iterate a.run n s) = some (iterate a.run n s) := by
  induction n generalizing s with
  | zero =>
    obtain rfl : s = [] := List.eq_nil_of_length_eq_zero (by omega)
    cases ha : a.run [] with
    | none => exact .inl ha
    | some r =>
      obtain rfl : r = [] := (rest_cases ha).elim id (fun h => absurd h (by simp))
      exact .inr ha
  | succ n ih =>
    cases ha : a.run s with
    | none =>
      simp only [iterate, ha]
      exact .inl trivial
    | some r =>
      rcases rest_cases ha with rfl | hr
      · rw [iterate_of_fixed ha]
        exact .inr ha
      · simp only [iterate, ha]
        exact ih (by omega)

/-- A repetition ends where its body fails or takes nothing. -/
theorem Takes.star_stop {a : Peg} {t r : Text} (h : (star a).Takes t r) : a.run r = none ∨ a.run r = some r := by
  rw [Takes, run_star, Option.some.injEq] at h
  rw [← h]
  exact iterate_stop (Nat.le_refl _)

/-! ### Opening up -/

/-- The judgement `J p t y` on a text `t` in front of `y` opens up along the constructors of `p`. -/
structure Opens (J : Peg → Text → Text → Prop) : Prop where
  one {p : Char → Bool} {t y : Text} : J (.one p) t y → ∃ c, p c = true ∧ t = [c]
  lit {l t y : Text} : J (.lit l) t y → t = l
  seq {a b : Peg} {t y : Text} : J (.seq a b) t y → ∃ u v, t = u ++ v ∧ J a u (v ++ y) ∧ J b v y
  alt {a b : Peg} {t y : Text} : J (.alt a b) t y → J a t y ∨ J b t y
  opt {a : Peg} {t y : Text} : J (.opt a) t y → t = [] ∨ J a t y
  star {a : Peg} {t y : Text} : J (.star a) t y →
    t = [] ∨ ∃ u v, u ≠ [] ∧ t = u ++ v ∧ J a u (v ++ y) ∧ J (.star a) v y

theorem opens_takes : Opens Takes where
  one {p t y} h := by
    obtain ⟨c, hc⟩ : ∃ c, t ++ y = c :: y ∧ p c = true := by
      unfold Takes at h
      cases hs : t ++ y with
      | nil => simp [hs, run] at h
      | cons c s =>
        rw [hs, run] at h
        split at h
        · rename_i hc
          cases h
          exact ⟨c, rfl, hc⟩
        · cases h
    exact ⟨c, hc.2, List.append_cancel_right (by simpa using hc.1)⟩
  lit {l t y} h := by
    unfold Takes at h
    rw [run, Text.dropFront?_eq_some_iff] at h
    exact List.append_cancel_right h
  seq {a b t y} h := by
    rw [Takes, run_seq, Option.bind_eq_some_iff] at h
    obtain ⟨m, ha, hb⟩ := h
    obtain ⟨u, hu, hua⟩ := exists_takes ha
    obtain ⟨v, rfl, hvb⟩ := exists_takes hb
    rw [← List.append_assoc] at hu
    exact ⟨u, v, List.append_cancel_right hu, hua, hvb⟩
  alt {a b t y} h := by
    rw [Takes, run_alt, Option.or_eq_some_iff] at h
    exact h.imp id And.right
  opt {a t y} h := by
    rw [Takes, run_opt] at h
    cases ha : a.run (t ++ y) with
    | none =>
      rw [ha] at h
      exact .inl (by simpa using h)
    | some m =>
      rw [ha, Option.getD_some] at h
      exact .inr (ha.trans h)
  star {a t y} h := by
    unfold Takes at h
    cases ha : a.run (t ++ y) with
    | none =>
      rw [run_star_of_none ha] at h
      exact .inl (by simpa using h)
    | some m =>
      obtain ⟨u, hu, hua⟩ := exists_takes ha
      rw [run_star_of_some ha] at h
      obtain ⟨v, rfl, hv⟩ := exists_takes h
      rw [← List.append_assoc] at hu
      obtain rfl := List.append_cancel_right hu
      by_cases hnil : u = []
      · subst hnil
        rw [List.nil_append] at ha
        rw [run_star, iterate_of_fixed ha] at h
        exact .inl (by simpa using h)
      · exact .inr ⟨u, v, hnil, rfl, hua, hv⟩

private theorem star_cases {p a : Peg} {t : Text} (h : Derives p t) (hp : p = .star a) :
    t = [] ∨ ∃ u v, u ≠ [] ∧ t = u ++ v ∧ Derives a u ∧ Derives (.star a) v := by
  induction h with
  | starNil => exact .inl rfl
  | @starCons _ u v hu hv _ ih =>
    cases hp
    by_cases hnil : u = []
    · subst hnil
      exact ih rfl
    · exact .inr ⟨u, v, hnil, rfl, hu, hv⟩
  | _ => cases hp

theorem opens_derives : Opens fun p t _ => Derives p t where
  one h := by cases h with | one hc => exact ⟨_, hc, rfl⟩
  lit h := by cases h; rfl
  seq h := by cases h with | seq ha hb => exact ⟨_, _, rfl, ha, hb⟩
  alt h := by
    cases h with
    | altLeft h => exact .inl h
    | altRight h => exact .inr h
  opt h := by
    cases h with
    | optNone => exact .inl rfl
    | optSome h => exact .inr h
  star h := star_cases h rfl

/-- A judgement still opens up together with what holds of each end of a text that it holds of. -/
theorem Opens.and {J : Peg → Text → Text → Prop} (hJ : Opens J) {Q : Text → Prop}
    (hQ : ∀ u v, Q (u ++ v) → Q v) : Opens fun p t y => J p t y ∧ Q (t ++ y) where
  one h := hJ.one h.1
  lit h := hJ.lit h.1
  seq h := by
    obtain ⟨u, v, rfl, ha, hb⟩ := hJ.seq h.1
    have hq := h.2
    rw [List.append_assoc] at hq
    exact ⟨u, v, rfl, ⟨ha, hq⟩, hb, hQ u _ hq⟩
  alt h := (hJ.alt h.1).imp (⟨·, h.2⟩) (⟨·, h.2⟩)
  opt h := (hJ.opt h.1).imp id (⟨·, h.2⟩)
  star h := by
    rcases hJ.star h.1 with rfl | ⟨u, v, hu, rfl, ha, hb⟩
    · exact .inl rfl
    · have hq := h.2
      rw [List.append_assoc] at hq
      exact .inr ⟨u, v, hu, rfl, ⟨ha, hq⟩, hb, hQ u _ hq⟩

/-! ### Rounds -/

/-- A text in front of `y` that is cut into pieces, none of them empty, for each of which `Q` holds in front of what
follows it. -/
inductive Rounds (Q : Text → Text → Prop) (y : Text) : Text → Prop where
  | nil : Rounds Q y []
  | cons {u v : Text} : u ≠ [] → Q u (v ++ y) → Rounds Q y v → Rounds Q y (u ++ v)

theorem Opens.rounds {J : Peg → Text → Text → Prop} (hJ : Opens J) {a : Peg} {t y : Text} (h : J (.star a) t y) :
    Rounds (J a) y t := by
  rcases hJ.star h with rfl | ⟨u, v, hu, rfl, ha, hv⟩
  · exact .nil
  · exact .cons hu ha (hJ.rounds hv)
termination_by t.length
decreasing_by
  subst_vars
  have := List.length_pos_iff.2 hu
  rw [List.length_append]
  omega

theorem Rounds.imp {Q Q' : Text → Text → Prop} {y y' t : Text} (h : Rounds Q y t)
    (hQ : ∀ u v, Rounds Q y v → Q u (v ++ y) → Q' u (v ++ y')) : Rounds Q' y' t := by
  induction h with
  | nil => exact .nil
  | cons hu hq hv ih => exact .cons hu (hQ _ _ hv hq) ih

/-- A repetition passes over the rounds that its body takes. -/
theorem Rounds.run_star {a : Peg} {y t : Text} (h : Rounds a.Takes y t) :
    (star a).run (t ++ y) = (star a).run y := by
  induction h with
  | nil => rfl
  | cons _ hq _ ih => rw [List.append_assoc, run_star_of_some hq, ih]

/-! ### Characters of a derived text -/

/-- Whether a character can occur in a text of an expression. -/
def mentions (c : Char) : Peg → Bool
  | one p => p c
  | lit l => l.contains c
  | seq a b => a.mentions c || b.mentions c
  | alt a b => a.mentions c || b.mentions c
  | opt a => a.mentions c
  | star a => a.mentions c

theorem mentions_of_mem {p : Peg} {t : Text} {c : Char} (h : Derives p t) (hc : c ∈ t) : p.mentions c = true := by
  induction h with
  | one hp =>
    obtain rfl := List.mem_singleton.1 hc
    exact hp
  | lit s => exact List.contains_iff_mem.2 hc
  | seq _ _ iha ihb =>
    rw [mentions, Bool.or_eq_true]
    exact (List.mem_append.1 hc).imp iha ihb
  | altLeft _ ih => simp [mentions, ih hc]
  | altRight _ ih => simp [mentions, ih hc]
  | optNone => cases hc
  | optSome _ ih => exact ih hc
  | starNil => cases hc
  | starCons _ _ iha ihb => exact (List.mem_append.1 hc).elim iha ihb

end Peg

end CallHoist.Grammar
