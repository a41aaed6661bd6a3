import CallHoist.Proofs.Grammar.Lexeme

/-!
# Names in front of what follows

Whether a run takes a name depends on what follows. A text `Seals` what stands in front of it if, behind blanks, it
begins with a character that no name and no literal goes on with; a colon counts only where the text goes on far enough
to tell whether it belongs to a scope operator.

A name is taken in front of each text that seals it, and in front of the end, unless a scope operator follows that would
make a scope of its last word (`takes_name_of_derives`). Whether one does is settled by the text that seals the name
(`takes_name_congr`).
-/

namespace CallHoist.Grammar

open Text

/-! ### Seals -/

/-- The characters that come behind a name or a literal, blanks apart. -/
def isBreak (c : Char) : Bool := ['(', ')', ',', '?', ':', '*', '+', '/', '-'].contains c

/-- The text behind a colon tells whether a scope operator begins with that colon. -/
def Settles (v : Text) : Prop :=
  v ≠ [] ∧ (leads (· == ':') v = false ∨ ∃ d s, v = ':' :: ':' :: d :: s ∧ d ≠ ':')

inductive Seals : Text → Prop where
  | mk {b v : Text} {c : Char} : b.all isWhiteSpace = true → isBreak c = true → (c = ':' → Settles v) →
      Seals (b ++ c :: v)

/-- A text that is empty or seals what stands in front of it. -/
def Ends (z : Text) : Prop := z = [] ∨ Seals z

theorem isBreak_cases {c : Char} (h : isBreak c = true) :
    isWhiteSpace c = false ∧ isWordChar c = false ∧ c ≠ '.' := by
  simp only [isBreak, List.contains_cons, List.contains_nil, Bool.or_eq_true, beq_iff_eq] at h
  rcases h with rfl | rfl | rfl | rfl | rfl | rfl | rfl | rfl | rfl | h
  all_goals first | decide | cases h

theorem isOperator_cases {c : Char} (h : isOperator c = true) : isBreak c = true ∧ c ≠ ':' ∧ c ≠ '(' := by
  simp only [isOperator, Bool.or_eq_true, beq_iff_eq] at h
  rcases h with ((rfl | rfl) | rfl) | rfl <;> decide

theorem Settles.append {v : Text} (h : Settles v) (y : Text) : Settles (v ++ y) := by
  obtain ⟨hne, h⟩ := h
  refine ⟨by simp [hne], ?_⟩
  rcases h with h | ⟨d, s, rfl, hd⟩
  · exact .inl (by rwa [leads_append hne])
  · exact .inr ⟨d, s ++ y, rfl, hd⟩

theorem Seals.append {u : Text} (h : Seals u) (y : Text) : Seals (u ++ y) := by
  obtain ⟨hb, hc, hv⟩ := h
  rw [List.append_assoc, List.cons_append]
  exact .mk hb hc (fun h => (hv h).append y)

/-- No character of a class that holds no blank and no break leads a text that ends what stands in front of it. -/
theorem Ends.leads_eq_false {z : Text} (h : Ends z) {p : Char → Bool} (hb : ∀ c, isWhiteSpace c = true → p c = false)
    (hc : ∀ c, isBreak c = true → p c = false) : leads p z = false := by
  rcases h with rfl | ⟨hbl, hbr, -⟩
  · rfl
  · exact leads_eq_false_of_all hbl hb (hc _ hbr)

theorem Ends.leads_behindBlanks_eq_false {z : Text} (h : Ends z) {p : Char → Bool}
    (hc : ∀ c, isBreak c = true → p c = false) : leads p (behindBlanks z) = false := by
  rcases h with rfl | ⟨hbl, hbr, -⟩
  · rfl
  · rw [behindBlanks_cons hbl (isBreak_cases hbr).1]
    exact hc _ hbr

theorem Ends.leads_word {z : Text} (h : Ends z) : leads isWordChar z = false :=
  h.leads_eq_false (fun _ => isWordChar_of_isWhiteSpace) (fun _ hc => (isBreak_cases hc).2.1)

/-! ### Scopes -/

/-- What is left behind blanks and a scope operator, if those come next. -/
def behindColons? (x : Text) : Option Text := (dropFront? [':', ':'] (behindBlanks x)).map behindBlanks

/-- The scope operator that can stand in front of a name. -/
def IsRoot (o : Text) : Prop := o = [] ∨ ∃ b, b.all isWhiteSpace = true ∧ o = ':' :: ':' :: b

/-- A word with a scope operator behind it, and perhaps one in front. -/
inductive IsScope : Text → Prop where
  | mk {o w b b' : Text} : IsRoot o → IsWord w → b.all isWhiteSpace = true → b'.all isWhiteSpace = true →
      IsScope (o ++ (w ++ (b ++ ':' :: ':' :: b')))

theorem IsWord.leads_append {w : Text} (hw : IsWord w) {p : Char → Bool} (hp : ∀ c, isWordChar c = true → p c = false)
    (x : Text) : Text.leads p (w ++ x) = false := by
  obtain ⟨hne, hall⟩ := hw
  rw [Text.leads_append hne]
  simpa using leads_eq_false_of_all hall hp (leads_nil p)

theorem isWhiteSpace_of_isWordChar (c : Char) (h : isWordChar c = true) : isWhiteSpace c = false := by
  rw [Bool.eq_false_iff]
  intro hc
  rw [isWordChar_of_isWhiteSpace hc] at h
  cases h

theorem ne_colon_of_isWordChar (c : Char) (h : isWordChar c = true) : (c == ':') = false := by
  rw [beq_eq_false_iff_ne]
  rintro rfl
  revert h
  decide

private theorem dropFront?_colons {x : Text} (h : leads (· == ':') x = false) : dropFront? [':', ':'] x = none := by
  cases x with
  | nil => rfl
  | cons c x =>
    rw [leads_cons, beq_eq_false_iff_ne] at h
    simp [dropFront?, Ne.symm h]

theorem run_scope {o w x : Text} (ho : IsRoot o) (hw : IsWord w) (hx : leads isWordChar x = false) :
    scope.run (o ++ (w ++ x)) = behindColons? x := by
  have hroot : (Peg.opt (.seq (.lit [':', ':']) blanks)).run (o ++ (w ++ x)) = some (w ++ x) := by
    rw [Peg.run_opt, Peg.run_seq]
    simp only [Peg.run]
    rcases ho with rfl | ⟨b, hb, rfl⟩
    · rw [List.nil_append, dropFront?_colons (hw.leads_append ne_colon_of_isWordChar x)]
      rfl
    · simp only [List.cons_append, dropFront?, ↓reduceIte, Option.bind_some, run_blanks, Option.getD_some]
      rw [behindBlanks_append hb, behindBlanks_of_leads (hw.leads_append isWhiteSpace_of_isWordChar x)]
  have hword : word.run (w ++ x) = some x := takes_word hw hx
  show (Peg.seq _ (.seq word (.seq blanks (.seq (.lit [':', ':']) blanks)))).run _ = _
  rw [Peg.run_seq, hroot, Option.bind_some, Peg.run_seq, hword, Option.bind_some, Peg.run_seq, run_blanks,
    Option.bind_some, Peg.run_seq, behindColons?, Peg.run]
  cases dropFront? [':', ':'] (behindBlanks x) with
  | none => rfl
  | some r => exact run_blanks r

theorem run_scope_of_leads {x : Text} (hw : leads isWordChar x = false) (hx : dropFront? [':', ':'] x = none) :
    scope.run x = none := by
  have hroot : (Peg.opt (.seq (.lit [':', ':']) blanks)).run x = some x := by
    rw [Peg.run_opt, Peg.run_seq, Peg.run, hx]
    rfl
  show (Peg.seq _ (.seq word _)).run _ = _
  rw [Peg.run_seq, hroot, Option.bind_some, Peg.run_seq, word, run_lexeme_of_leads hw]
  rfl

theorem Peg.Opens.isScope {J : Peg → Text → Text → Prop} (hJ : Peg.Opens J) {u y : Text} (h : J scope u y) :
    IsScope u := by
  obtain ⟨o, t, rfl, ho, h⟩ := hJ.seq h
  obtain ⟨w, t, rfl, hw, h⟩ := hJ.seq h
  obtain ⟨b, t, rfl, hb, h⟩ := hJ.seq h
  obtain ⟨c, b', rfl, hc, hb'⟩ := hJ.seq h
  obtain rfl := hJ.lit hc
  refine .mk ?_ (hJ.isWord hw) (hJ.blanks hb) (hJ.blanks hb')
  rcases hJ.opt ho with rfl | ho
  · exact .inl rfl
  · obtain ⟨c, b, rfl, hc, hb⟩ := hJ.seq ho
    obtain rfl := hJ.lit hc
    exact .inr ⟨b, hJ.blanks hb, rfl⟩

theorem IsScope.leads_append {u : Text} (h : IsScope u) {p : Char → Bool}
    (hw : ∀ c, isWordChar c = true → p c = false) (hc : p ':' = false) (x : Text) : leads p (u ++ x) = false := by
  obtain ⟨ho, hword, -, -⟩ := h
  rcases ho with rfl | ⟨b, -, rfl⟩
  · rw [List.nil_append, List.append_assoc]
    exact hword.leads_append hw _
  · exact hc

theorem IsScope.ne_nil {u : Text} (h : IsScope u) : u ≠ [] := by
  obtain ⟨-, hw, -, -⟩ := h
  simp

/-- Scopes one after another. -/
abbrev Scopes (t : Text) : Prop := Peg.Rounds (fun u _ => IsScope u) [] t

theorem Scopes.leads_append {t x : Text} (h : Scopes t) (hx : leads isWhiteSpace x = false) :
    leads isWhiteSpace (t ++ x) = false := by
  cases h with
  | nil => exact hx
  | cons _ hu _ =>
    rw [List.append_assoc]
    exact hu.leads_append isWhiteSpace_of_isWordChar (by decide) _

theorem Scopes.run_star {t x : Text} (h : Scopes t) (hx : leads isWhiteSpace x = false) :
    (Peg.star scope).run (t ++ x) = (Peg.star scope).run x := by
  induction h with
  | nil => rfl
  | @cons u v _ hu hv ih =>
    have hvx : leads isWhiteSpace (v ++ x) = false := Scopes.leads_append hv hx
    have htake : scope.run (u ++ (v ++ x)) = some (v ++ x) := by
      obtain ⟨ho, hw, hb, hb'⟩ := hu
      simp only [List.append_assoc, List.cons_append]
      rw [run_scope ho hw (leads_eq_false_of_all hb (fun _ => isWordChar_of_isWhiteSpace) rfl), behindColons?,
        behindBlanks_cons hb rfl]
      simp only [dropFront?, ↓reduceIte, Option.map_some]
      rw [behindBlanks_append hb', behindBlanks_of_leads hvx]
    rw [List.append_assoc, Peg.run_star_of_some htake, ih]

/-- A scope operator behind a text that ends what stands in front of it has a further colon behind it, and no more. -/
theorem Ends.behindColons?_eq_some {z r : Text} (h : Ends z) (hr : behindColons? z = some r) :
    ∃ b d s, z = b ++ ':' :: ':' :: ':' :: d :: s ∧ r = ':' :: d :: s ∧ d ≠ ':' := by
  rcases h with rfl | @⟨b, v, c, hb, hc, hv⟩
  · cases hr
  · rw [behindColons?, behindBlanks_cons hb (isBreak_cases hc).1] at hr
    by_cases hcol : c = ':'
    · subst hcol
      obtain ⟨hne, hv | ⟨d, s, rfl, hd⟩⟩ := hv rfl
      · cases v with
        | nil => exact absurd rfl hne
        | cons d v =>
          rw [leads_cons, beq_eq_false_iff_ne] at hv
          simp [dropFront?, Ne.symm hv] at hr
      · simp only [dropFront?, ↓reduceIte, Option.map_some, Option.some.injEq] at hr
        exact ⟨b, d, s, rfl, hr.symm, hd⟩
    · simp [dropFront?, Ne.symm hcol] at hr

theorem Ends.behindColons?_eq_none {z : Text} (h : Ends z) (hcol : ¬ [':', ':', ':'] <:+: z) :
    behindColons? z = none := by
  cases hr : behindColons? z with
  | none => rfl
  | some r =>
    obtain ⟨b, d, s, rfl, -, -⟩ := h.behindColons?_eq_some hr
    exact absurd ⟨b, d :: s, by simp⟩ hcol

/-! ### Names -/

/-- Identifiers, each behind a dot. -/
abbrev Fields (z t : Text) : Prop := Peg.Rounds (After (· == '.') fun u _ => IsIdentifier u) z t

theorem After.leads_append {p q : Char → Bool} {Q : Text → Text → Prop} {u z : Text} (h : After p Q u z)
    (hb : ∀ c, isWhiteSpace c = true → q c = false) (hc : ∀ c, p c = true → q c = false) (x : Text) :
    leads q (u ++ x) = false := by
  obtain ⟨hbl, hp, -, -⟩ := h
  rw [List.append_assoc]
  exact leads_eq_false_of_all hbl hb (hc _ hp)

theorem After.behindBlanks_append {p : Char → Bool} {Q : Text → Text → Prop} {u z : Text} (h : After p Q u z)
    (hp : ∀ c, p c = true → isWhiteSpace c = false) (x : Text) :
    ∃ c s, p c = true ∧ behindBlanks (u ++ x) = c :: s := by
  obtain ⟨hbl, hc, -, -⟩ := h
  rw [List.append_assoc]
  exact ⟨_, _, hc, behindBlanks_cons hbl (hp _ hc) _⟩

private theorem isWhiteSpace_dot (c : Char) (h : (c == '.') = true) : isWhiteSpace c = false := by
  obtain rfl := beq_iff_eq.1 h
  rfl

private theorem isWordChar_dot (c : Char) (h : (c == '.') = true) : isWordChar c = false := by
  obtain rfl := beq_iff_eq.1 h
  rfl

theorem Fields.leads_append {t z : Text} (h : Fields z t) (hz : leads isWordChar z = false) :
    leads isWordChar (t ++ z) = false := by
  cases h with
  | nil => exact hz
  | cons _ hu _ =>
    rw [List.append_assoc]
    exact hu.leads_append (fun _ => isWordChar_of_isWhiteSpace) isWordChar_dot _

/-- No scope operator follows a word that fields follow. -/
theorem Fields.behindColons? {t z : Text} (h : Fields z t) (ht : t ≠ []) (x : Text) :
    behindColons? (t ++ x) = none := by
  cases h with
  | nil => exact absurd rfl ht
  | cons _ hu _ =>
    rw [List.append_assoc]
    obtain ⟨c, s, hc, hs⟩ := hu.behindBlanks_append isWhiteSpace_dot (_ ++ x)
    obtain rfl := beq_iff_eq.1 hc
    rw [Grammar.behindColons?, hs]
    rfl

private theorem Fields.run_star {t z : Text} (h : Fields z t) (hz : leads isWordChar z = false) :
    (Peg.star (Peg.after (.lit ['.']) identifier)).run (t ++ z) =
      (Peg.star (Peg.after (.lit ['.']) identifier)).run z := by
  induction h with
  | nil => rfl
  | @cons u v _ hu hv ih =>
    obtain ⟨hb, hc, hb', hid⟩ := hu
    have hvz : leads isWordChar (v ++ z) = false := Fields.leads_append hv hz
    rw [List.append_assoc]
    refine (Peg.run_star_of_some ?_).trans ih
    rw [List.append_assoc, List.cons_append, List.append_assoc, run_after_cons (run_lit_singleton '.') hb hc
      (isWhiteSpace_dot _ hc) hb' (hid.1.leads_append isWhiteSpace_of_isWordChar _)]
    exact takes_identifier hid hvz

/-- A name in front of a text that it does not go on with, where no scope operator makes a scope of its last word. -/
theorem takes_name {ts ti td z : Text} (hs : Scopes ts) (hi : IsIdentifier ti) (hd : Fields z td)
    (hz : leads isWordChar z = false) (hdot : leads (· == '.') (behindBlanks z) = false)
    (hcol : behindColons? (td ++ z) = none) : qualifiedName.Takes (ts ++ (ti ++ td)) z := by
  have hrest : leads isWordChar (td ++ z) = false := hd.leads_append hz
  have hscope : scope.run (ti ++ (td ++ z)) = none := by
    rw [← hcol]
    exact run_scope (.inl rfl) hi.1 hrest
  have hscopes : (Peg.star scope).run (ts ++ (ti ++ (td ++ z))) = some (ti ++ (td ++ z)) := by
    rw [Scopes.run_star hs (hi.1.leads_append isWhiteSpace_of_isWordChar _), Peg.run_star_of_none hscope]
  have hfields := Fields.run_star hd hz
  rw [Peg.run_star_of_none (run_after_of_leads (run_lit_singleton '.') hdot)] at hfields
  show (Peg.seq (.star scope) (.seq identifier (.star (Peg.after (.lit ['.']) identifier)))).run _ = _
  rw [List.append_assoc, List.append_assoc, Peg.run_seq, hscopes, Option.bind_some, Peg.run_seq,
    takes_identifier hi hrest, Option.bind_some, hfields]

theorem Peg.Opens.name {J : Peg → Text → Text → Prop} (hJ : Peg.Opens J) {a z : Text} (h : J qualifiedName a z) :
    ∃ ts ti td, a = ts ++ (ti ++ td) ∧ J (.star scope) ts (ti ++ (td ++ z)) ∧ J identifier ti (td ++ z) ∧
      Scopes ts ∧ IsIdentifier ti ∧ Fields z td := by
  obtain ⟨ts, t, rfl, hs, h⟩ := hJ.seq h
  obtain ⟨ti, td, rfl, hi, hd⟩ := hJ.seq h
  rw [List.append_assoc] at hs
  have hdots : Peg.Rounds (J (Peg.after (.lit ['.']) identifier)) z td := hJ.rounds hd
  refine ⟨ts, ti, td, rfl, hs, hi, (hJ.rounds hs).imp fun _ _ _ => hJ.isScope, hJ.isIdentifier hi, hdots.imp ?_⟩
  intro u v _ hu
  exact (hJ.after hJ.lit_singleton hu).imp fun _ => hJ.isIdentifier

theorem Ends.leads_dot {z : Text} (h : Ends z) : leads (· == '.') (behindBlanks z) = false :=
  h.leads_behindBlanks_eq_false fun _ hc => beq_eq_false_iff_ne.2 (isBreak_cases hc).2.2

theorem takes_name_of_derives {a z : Text} (h : Derives qualifiedName a) (hz : Ends z) (hcol : behindColons? z = none) :
    qualifiedName.Takes a z := by
  obtain ⟨ts, ti, td, rfl, -, -, hs, hi, hd⟩ := Peg.opens_derives.name (z := z) h
  refine takes_name hs hi hd hz.leads_word hz.leads_dot ?_
  by_cases htd : td = []
  · rwa [htd, List.nil_append]
  · exact hd.behindColons? htd z

/-- No scope operator follows the last word of a name where that word has no fields. -/
theorem behindColons?_of_takes_name {ts ti td z : Text}
    (hs : (Peg.star scope).Takes ts (ti ++ (td ++ z))) (hi : identifier.Takes ti (td ++ z)) :
    behindColons? (td ++ z) = none := by
  have hword := (Peg.opens_takes.isIdentifier hi).1
  have hrun := run_scope (.inl rfl) hword (leads_of_takes_identifier hi)
  rw [List.nil_append] at hrun
  -- the repetition of scopes stops in front of the last word, so that word is no scope
  rcases hs.star_stop with h | h
  · rw [← hrun, h]
  · have hscope : scope.Takes [] (ti ++ (td ++ z)) := h
    exact absurd rfl (Peg.opens_takes.isScope hscope).ne_nil

/-- Behind a text that seals, whether a scope operator comes next does not change. -/
private theorem Seals.behindColons?_congr {u : Text} (h : Seals u) (y y' : Text) :
    behindColons? (u ++ y) = none ↔ behindColons? (u ++ y') = none := by
  obtain @⟨b, v, c, hb, hc, hv⟩ := h
  simp only [behindColons?, List.append_assoc, List.cons_append, behindBlanks_cons hb (isBreak_cases hc).1,
    Option.map_eq_none_iff]
  by_cases hcol : c = ':'
  · subst hcol
    obtain ⟨hne, -⟩ := hv rfl
    cases v with
    | nil => exact absurd rfl hne
    | cons d v => by_cases hd : d = ':' <;> simp [dropFront?, hd, Ne.symm]
  · simp [dropFront?, Ne.symm hcol]

/-- A name is taken in front of a text that seals it whatever comes behind that text. -/
theorem takes_name_congr {a u y : Text} (h : qualifiedName.Takes a (u ++ y)) (hu : Seals u) (y' : Text) :
    qualifiedName.Takes a (u ++ y') := by
  obtain ⟨ts, ti, td, rfl, hts, hti, hs, hi, hd⟩ := Peg.opens_takes.name h
  have hz : Ends (u ++ y') := .inr (hu.append y')
  have hcol := behindColons?_of_takes_name hts hti
  refine takes_name hs hi (hd.imp fun _ _ _ hu => hu.imp fun _ => id) hz.leads_word hz.leads_dot ?_
  by_cases htd : td = []
  · rw [htd, List.nil_append] at hcol ⊢
    exact (hu.behindColons?_congr y y').1 hcol
  · exact hd.behindColons? htd _

/-- A word in front of scopes gives scopes. -/
private theorem Scopes.word_append {w t : Text} (hw : IsWord w) (h : Scopes t) (ht : t ≠ []) : Scopes (w ++ t) := by
  cases h with
  | nil => exact absurd rfl ht
  | @cons u v _ hu hv =>
    obtain @⟨o, w', b, b', ho, hw', hb, hb'⟩ := hu
    rcases ho with rfl | ⟨c, hc, rfl⟩
    · have hword : IsWord (w ++ w') := ⟨by simp [hw.1], by rw [List.all_append, hw.2, hw'.2]; rfl⟩
      have hscope := IsScope.mk (.inl rfl) hword hb hb'
      simpa using Peg.Rounds.cons hscope.ne_nil hscope hv
    · have hroot := IsScope.mk (.inl rfl) hw (b := []) rfl hc
      have hscope := IsScope.mk (.inl rfl) hw' hb hb'
      simpa using Peg.Rounds.cons hroot.ne_nil hroot (.cons hscope.ne_nil hscope hv)

/-- A name with an identifier put in front of it is a name. -/
theorem takes_name_append {w a z : Text} (hw : IsIdentifier w) (h : qualifiedName.Takes a z) (hz : Ends z) :
    qualifiedName.Takes (w ++ a) z := by
  obtain ⟨ts, ti, td, rfl, hts, hti, hs, hi, hd⟩ := Peg.opens_takes.name h
  have hcol := behindColons?_of_takes_name hts hti
  by_cases hnil : ts = []
  · subst hnil
    simpa using takes_name .nil (hw.append hi.1.2) hd hz.leads_word hz.leads_dot hcol
  · rw [← List.append_assoc]
    exact takes_name (hs.word_append hw.1 hnil) hi hd hz.leads_word hz.leads_dot hcol

theorem run_name_of_scopes {x r : Text} (h : (Peg.star scope).run x = some r)
    (hr : leads isNameStart r = false) : qualifiedName.run x = none := by
  show (Peg.seq (.star scope) (.seq identifier _)).run _ = _
  rw [Peg.run_seq, h, Option.bind_some, Peg.run_seq, identifier, run_lexeme_of_leads hr]
  rfl

/-- A name starts with a character of a word or with a scope operator. -/
theorem run_name_of_leads {x : Text} (hw : leads isWordChar x = false) (hx : dropFront? [':', ':'] x = none) :
    qualifiedName.run x = none := by
  refine run_name_of_scopes (Peg.run_star_of_none (run_scope_of_leads hw hx)) ?_
  cases x with
  | nil => rfl
  | cons c x =>
    rw [leads_cons, Bool.eq_false_iff]
    intro hc
    rw [leads_cons, isWordChar_of_isNameStart hc] at hw
    cases hw

end CallHoist.Grammar
