import CallHoist.Proofs.Grammar.Name

/-!
# Literals and atoms in front of what follows

A literal is taken in front of each text that seals it, and in front of the end (`takes_atom_of_constant`). So an atom
is too, unless it is a name that a scope operator goes on (`takes_atom_of_derives`).
-/

namespace CallHoist.Grammar

open Text

/-! ### Literals -/

inductive IsNumber : Text → Prop where
  | mk {c : Char} {u p v f : Text} : isDigit c = true → u.all isDigit = true → (p = [] ∨ p = ['.']) →
      v.all isDigit = true → (f = [] ∨ f = ['f']) → IsNumber (c :: (u ++ (p ++ (v ++ f))))

theorem Peg.Opens.isNumber {J : Peg → Text → Text → Prop} (hJ : Peg.Opens J) {t y : Text} (h : J number t y) :
    IsNumber t := by
  obtain ⟨d, t, rfl, hd, h⟩ := hJ.seq h
  obtain ⟨u, t, rfl, hu, h⟩ := hJ.seq h
  obtain ⟨p, t, rfl, hp, h⟩ := hJ.seq h
  obtain ⟨v, f, rfl, hv, hf⟩ := hJ.seq h
  obtain ⟨c, hc, rfl⟩ := hJ.one hd
  show IsNumber (c :: (u ++ (p ++ (v ++ f))))
  exact .mk hc (hJ.all_of_star_one hu) ((hJ.opt hp).imp id hJ.lit) (hJ.all_of_star_one hv) ((hJ.opt hf).imp id hJ.lit)

private theorem run_opt_char {c : Char} {o x : Text} (ho : o = [] ∨ o = [c]) (hx : leads (· == c) x = false) :
    (Peg.opt (.lit [c])).run (o ++ x) = some x := by
  rw [Peg.run_opt, run_lit_singleton]
  rcases ho with rfl | rfl
  · cases x with
    | nil => rfl
    | cons d x =>
      rw [leads_cons] at hx
      simp [Peg.run, hx]
  · simp [Peg.run]

private theorem leads_opt_char {p : Char → Bool} {c : Char} {o x : Text} (ho : o = [] ∨ o = [c]) (hc : p c = false)
    (hx : leads p x = false) : leads p (o ++ x) = false := by
  rcases ho with rfl | rfl
  · exact hx
  · exact hc

theorem takes_number {t z : Text} (h : IsNumber t) (hd : leads isDigit z = false) (hdot : leads (· == '.') z = false)
    (hf : leads (· == 'f') z = false) : number.Takes t z := by
  obtain @⟨c, u, p, v, f, hc, hu, hp, hv, hsuf⟩ := h
  have hfz : leads isDigit (f ++ z) = false := leads_opt_char hsuf rfl hd
  show (Peg.seq (.one isDigit) (.seq (.star (.one isDigit)) (.seq (.opt (.lit ['.']))
    (.seq (.star (.one isDigit)) (.opt (.lit ['f'])))))).run _ = _
  rw [List.cons_append, Peg.run_seq, Peg.run, if_pos hc, Option.bind_some, run_star_one_seq, List.append_assoc,
    dropWhile_append hu, List.append_assoc, List.append_assoc]
  rcases hp with rfl | rfl
  · -- without a point the first run of digits takes the second too
    have hpoint := run_opt_char (c := '.') (.inl rfl) (leads_opt_char (p := (· == '.')) hsuf rfl hdot)
    rw [List.nil_append] at hpoint ⊢
    rw [dropWhile_append hv, dropWhile_of_leads hfz, Peg.run_seq, hpoint, Option.bind_some, run_star_one_seq,
      dropWhile_of_leads hfz]
    exact run_opt_char hsuf hf
  · have hpoint : (Peg.opt (.lit ['.'])).run ('.' :: (v ++ (f ++ z))) = some (v ++ (f ++ z)) := by
      rw [Peg.run_opt, run_lit_singleton]
      rfl
    rw [List.singleton_append, dropWhile_of_leads rfl, Peg.run_seq, hpoint, Option.bind_some, run_star_one_seq,
      dropWhile_append hv, dropWhile_of_leads hfz]
    exact run_opt_char hsuf hf

private theorem isNameStart_of_isDigit {c : Char} (h : isDigit c = true) : isNameStart c = false := by
  rw [Bool.eq_false_iff]
  intro hn
  simp only [isNameStart, isLetter, isDigit, Char.le_def, UInt32.le_iff_toNat_le, Bool.or_eq_true, Bool.and_eq_true,
    decide_eq_true_eq, beq_iff_eq] at h hn
  rcases hn with (hn | hn) | rfl
  · simp at h hn; omega
  · simp at h hn; omega
  · simp at h

/-- The word at the front of a number, in front of the end of the number or of its point. -/
private theorem IsNumber.word {t : Text} (h : IsNumber t) :
    ∃ w v, t = w ++ v ∧ IsWord w ∧ leads isNameStart w = false ∧ (v = [] ∨ leads (· == '.') v = true) := by
  obtain @⟨c, u, p, v, f, hc, hu, hp, hv, hf⟩ := h
  have hword : ∀ x : Text, x.all isDigit = true → x.all isWordChar = true := fun x hx =>
    List.all_eq_true.2 fun d hd => isWordChar_of_isDigit (List.all_eq_true.1 hx d hd)
  have hfw : f.all isWordChar = true := by rcases hf with rfl | rfl <;> rfl
  rcases hp with rfl | rfl
  · refine ⟨c :: (u ++ (v ++ f)), [], by simp, ⟨List.cons_ne_nil c _, ?_⟩, isNameStart_of_isDigit hc, .inl rfl⟩
    rw [List.all_cons, List.all_append, List.all_append, isWordChar_of_isDigit hc, hword u hu, hword v hv, hfw]
    rfl
  · refine ⟨c :: u, '.' :: (v ++ f), by simp, ⟨List.cons_ne_nil c _, ?_⟩, isNameStart_of_isDigit hc, .inr rfl⟩
    rw [List.all_cons, isWordChar_of_isDigit hc, hword u hu]
    rfl

/-- No name begins with a number in front of a text that ends it: behind a scope operator it would need a further word,
but what is there begins with a colon. -/
private theorem run_name_of_number {t z : Text} (h : IsNumber t) (hz : Ends z) : qualifiedName.run (t ++ z) = none := by
  obtain ⟨w, v, rfl, hw, hstart, hv⟩ := h.word
  have hvz : leads isWordChar (v ++ z) = false ∧
      ∀ r, behindColons? (v ++ z) = some r → ∃ d s, r = ':' :: d :: s ∧ d ≠ ':' := by
    rcases hv with rfl | hv
    · refine ⟨hz.leads_word, fun r hr => ?_⟩
      obtain ⟨-, d, s, -, hr, hd⟩ := hz.behindColons?_eq_some hr
      exact ⟨d, s, hr, hd⟩
    · cases v with
      | nil => cases hv
      | cons c v =>
        obtain rfl := beq_iff_eq.1 hv
        exact ⟨rfl, fun r hr => by cases hr⟩
  have hrun := run_scope (.inl rfl) hw hvz.1
  rw [List.nil_append] at hrun
  rw [List.append_assoc]
  -- the digits may be a scope; what is left begins no identifier either way
  cases hcol : behindColons? (v ++ z) with
  | none =>
    refine run_name_of_scopes (Peg.run_star_of_none (hrun.trans hcol)) ?_
    rwa [Text.leads_append hw.1]
  | some r =>
    obtain ⟨d, s, rfl, hd⟩ := hvz.2 r hcol
    refine run_name_of_scopes ((Peg.run_star_of_some (hrun.trans hcol)).trans (Peg.run_star_of_none ?_)) rfl
    exact run_scope_of_leads rfl (by simp [dropFront?, Ne.symm hd])

inductive IsString : Text → Prop where
  | mk {u : Text} : u.all (· != '"') = true → IsString ('"' :: (u ++ ['"']))

theorem Peg.Opens.isString {J : Peg → Text → Text → Prop} (hJ : Peg.Opens J) {t y : Text} (h : J string t y) :
    IsString t := by
  obtain ⟨o, t, rfl, ho, h⟩ := hJ.seq h
  obtain ⟨u, c, rfl, hu, hc⟩ := hJ.seq h
  obtain rfl := hJ.lit ho
  obtain rfl := hJ.lit hc
  show IsString ('"' :: (u ++ ['"']))
  exact .mk (hJ.all_of_star_one hu)

/-- A string ends at the first quote behind its first, whatever follows. -/
theorem takes_string {t : Text} (h : IsString t) (z : Text) : string.Takes t z := by
  obtain @⟨u, hu⟩ := h
  show (Peg.seq (.lit ['"']) (.seq (.star (.one (· != '"'))) (.lit ['"']))).run _ = _
  rw [List.cons_append, Peg.run_seq, run_lit_singleton, Peg.run, if_pos (beq_self_eq_true _), Option.bind_some,
    run_star_one_seq, List.append_assoc, dropWhile_append hu, List.singleton_append, dropWhile_of_leads rfl,
    run_lit_singleton]
  rfl

/-! ### Atoms -/

/-- An operand without its sign. -/
def atom : Peg := .alt qualifiedName constant

private theorem takes_atom_of_literal {t z : Text} (hname : qualifiedName.run (t ++ z) = none)
    (h : constant.Takes t z) : atom.Takes t z := by
  rw [Peg.Takes, atom, Peg.run_alt, hname]
  exact h

private theorem Ends.leads_number {z : Text} (h : Ends z) :
    leads isDigit z = false ∧ leads (· == '.') z = false ∧ leads (· == 'f') z = false := by
  refine ⟨leads_eq_false_of_imp h.leads_word fun _ => isWordChar_of_isDigit, h.leads_eq_false ?_ ?_,
    leads_eq_false_of_imp h.leads_word ?_⟩
  · intro c hc
    rw [beq_eq_false_iff_ne]
    rintro rfl
    cases hc
  · exact fun c hc => beq_eq_false_iff_ne.2 (isBreak_cases hc).2.2
  · intro c hc
    obtain rfl := beq_iff_eq.1 hc
    rfl

private theorem run_string_of_digit {c : Char} (hc : isDigit c = true) (s : Text) : string.run (c :: s) = none := by
  have hq : (c == '"') = false := by
    rw [beq_eq_false_iff_ne]
    rintro rfl
    cases hc
  show (Peg.seq (.lit ['"']) _).run _ = _
  rw [Peg.run_seq, run_lit_singleton, Peg.run, hq]
  rfl

theorem takes_constant_of_derives {t z : Text} (h : Derives constant t) (hz : Ends z) : constant.Takes t z := by
  rcases Peg.opens_derives.alt (y := z) h with h | h
  · have ht : string.run (t ++ z) = some z := takes_string (Peg.opens_derives.isString (y := z) h) z
    rw [Peg.Takes, constant, Peg.run_alt, ht]
    rfl
  · have hn := Peg.opens_derives.isNumber (y := z) h
    obtain ⟨hd, hdot, hf⟩ := hz.leads_number
    have ht : number.run (t ++ z) = some z := takes_number hn hd hdot hf
    obtain ⟨hc, -, -, -, -⟩ := hn
    rw [Peg.Takes, constant, Peg.run_alt, ht, List.cons_append, run_string_of_digit hc]
    rfl

private theorem run_name_of_constant {t z : Text} (h : Derives constant t) (hz : Ends z) :
    qualifiedName.run (t ++ z) = none := by
  rcases Peg.opens_derives.alt (y := z) h with h | h
  · obtain ⟨hu⟩ := Peg.opens_derives.isString (y := z) h
    exact run_name_of_leads rfl rfl
  · exact run_name_of_number (Peg.opens_derives.isNumber (y := z) h) hz

theorem takes_atom_of_constant {t z : Text} (h : Derives constant t) (hz : Ends z) : atom.Takes t z :=
  takes_atom_of_literal (run_name_of_constant h hz) (takes_constant_of_derives h hz)

/-- An atom is taken in front of a text that seals it whatever comes behind that text. -/
theorem takes_atom_congr {a u y : Text} (h : atom.Takes a (u ++ y)) (hu : Seals u) (y' : Text) :
    atom.Takes a (u ++ y') := by
  rcases Peg.opens_takes.alt h with h | h
  · have hname : qualifiedName.run (a ++ (u ++ y')) = some (u ++ y') := takes_name_congr h hu y'
    rw [Peg.Takes, atom, Peg.run_alt, hname]
    rfl
  · exact takes_atom_of_constant h.derives (.inr (hu.append y'))

/-- Where no three colons stand in a row, an atom is taken in front of each text that ends it. -/
theorem takes_atom_of_derives {a z : Text} (h : Derives atom a) (hz : Ends z) (hcol : ¬ [':', ':', ':'] <:+: a ++ z) :
    atom.Takes a z := by
  rcases Peg.opens_derives.alt (y := z) h with h | h
  · have hname : qualifiedName.run (a ++ z) = some z :=
      takes_name_of_derives h hz (hz.behindColons?_eq_none fun h => hcol (List.infix_append_of_infix_right h))
    rw [Peg.Takes, atom, Peg.run_alt, hname]
    rfl
  · exact takes_atom_of_constant h hz

end CallHoist.Grammar
