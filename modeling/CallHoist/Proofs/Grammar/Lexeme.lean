import CallHoist.Grammar.Rule
import CallHoist.Proofs.Grammar.Taking

/-!
# Blanks, words and separated parts

What a run does at blanks, at a word and at a separator with blanks around it. A run takes all the characters of a class
that it can, so each of these is taken in front of a text that does not start with a further one.
-/

namespace CallHoist

namespace Text

/-- Whether a text starts with a character of a class. -/
def leads (p : Char → Bool) : Text → Bool
  | [] => false
  | c :: _ => p c

/-- Whether a text ends with a character of a class. -/
def trails (p : Char → Bool) (s : Text) : Bool := leads p s.reverse

/-- A text without the white space at its front. -/
def behindBlanks (s : Text) : Text := s.dropWhile isWhiteSpace

@[simp] theorem leads_nil (p : Char → Bool) : leads p [] = false := rfl

@[simp] theorem leads_cons (p : Char → Bool) (c : Char) (s : Text) : leads p (c :: s) = p c := rfl

theorem leads_append {p : Char → Bool} {u : Text} (hu : u ≠ []) (v : Text) : leads p (u ++ v) = leads p u := by
  cases u with
  | nil => exact absurd rfl hu
  | cons c u => rfl

theorem leads_eq_false_of_imp {p q : Char → Bool} {s : Text} (h : leads q s = false)
    (hpq : ∀ c, p c = true → q c = true) : leads p s = false := by
  cases s with
  | nil => rfl
  | cons c s =>
    rw [leads_cons] at h ⊢
    rw [Bool.eq_false_iff] at h ⊢
    exact fun hc => h (hpq c hc)

theorem exists_of_leads {p : Char → Bool} {s : Text} (h : leads p s = true) : ∃ c u, s = c :: u ∧ p c = true := by
  cases s with
  | nil => cases h
  | cons c u => exact ⟨c, u, rfl, h⟩

theorem not_mem_of_all {p : Char → Bool} {u : Text} {c : Char} (h : u.all p = true) (hc : p c = false) : c ∉ u := by
  intro hmem
  rw [List.all_eq_true.1 h c hmem] at hc
  cases hc

theorem leads_of_all {p : Char → Bool} {u : Text} (hu : u ≠ []) (h : u.all p = true) : leads p u = true := by
  cases u with
  | nil => exact absurd rfl hu
  | cons c u => exact (List.all_eq_true.1 h) c (List.mem_cons_self ..)

theorem leads_eq_false_of_all {p q : Char → Bool} {u v : Text} (h : u.all p = true)
    (hpq : ∀ c, p c = true → q c = false) (hv : leads q v = false) : leads q (u ++ v) = false := by
  cases u with
  | nil => exact hv
  | cons c u => exact hpq c ((List.all_eq_true.1 h) c (List.mem_cons_self ..))

@[simp] theorem trails_concat (p : Char → Bool) (s : Text) (c : Char) : trails p (s ++ [c]) = p c := by
  rw [trails, List.reverse_append, List.reverse_singleton, List.singleton_append, leads_cons]

theorem exists_of_trails {p : Char → Bool} {s : Text} (h : trails p s = true) : ∃ u c, s = u ++ [c] ∧ p c = true := by
  rcases List.eq_nil_or_concat s with rfl | ⟨u, c, rfl⟩
  · cases h
  · rw [List.concat_eq_append] at h ⊢
    rw [trails_concat] at h
    exact ⟨u, c, rfl, h⟩

theorem trails_append {p : Char → Bool} {v : Text} (h : trails p v = true) (u : Text) : trails p (u ++ v) = true := by
  obtain ⟨w, c, rfl, hc⟩ := exists_of_trails h
  rwa [← List.append_assoc, trails_concat]

theorem leads_dropWhile (p : Char → Bool) (s : Text) : leads p (s.dropWhile p) = false := by
  induction s with
  | nil => rfl
  | cons c s ih =>
    by_cases hc : p c = true
    · rwa [List.dropWhile_cons_of_pos hc]
    · rw [List.dropWhile_cons_of_neg hc]
      simpa using hc

theorem dropWhile_of_leads {p : Char → Bool} {s : Text} (h : leads p s = false) : s.dropWhile p = s := by
  cases s with
  | nil => rfl
  | cons c s => exact List.dropWhile_cons_of_neg (by simpa using h)

theorem dropWhile_append {p : Char → Bool} {b : Text} (hb : b.all p = true) (s : Text) :
    (b ++ s).dropWhile p = s.dropWhile p :=
  List.dropWhile_append_of_pos (List.all_eq_true.1 hb)

theorem behindBlanks_append {b : Text} (hb : b.all isWhiteSpace = true) (s : Text) :
    behindBlanks (b ++ s) = behindBlanks s :=
  dropWhile_append hb s

theorem behindBlanks_of_leads {s : Text} (h : leads isWhiteSpace s = false) : behindBlanks s = s :=
  dropWhile_of_leads h

theorem behindBlanks_cons {b : Text} (hb : b.all isWhiteSpace = true) {c : Char} (hc : isWhiteSpace c = false)
    (s : Text) : behindBlanks (b ++ c :: s) = c :: s := by
  rw [behindBlanks_append hb]
  exact behindBlanks_of_leads hc

end Text

namespace Grammar

open Text

theorem isWordChar_of_isNameStart {c : Char} (h : isNameStart c = true) : isWordChar c = true := by
  simp [isWordChar, h]

theorem isWordChar_of_isDigit {c : Char} (h : isDigit c = true) : isWordChar c = true := by
  simp [isWordChar, h]

theorem isWordChar_of_isWhiteSpace {c : Char} (h : isWhiteSpace c = true) : isWordChar c = false := by
  rw [Bool.eq_false_iff]
  intro hw
  simp only [isWordChar, isNameStart, isLetter, isDigit, Char.le_def, UInt32.le_iff_toNat_le, Bool.or_eq_true,
    Bool.and_eq_true, decide_eq_true_eq, beq_iff_eq] at hw
  simp only [isWhiteSpace, Bool.or_eq_true, Bool.and_eq_true, decide_eq_true_eq, beq_iff_eq] at h
  rcases hw with ((hw | hw) | rfl) | hw
  · simp at hw; omega
  · simp at hw; omega
  · simp at h
  · simp at hw; omega

/-! ### Blanks and words -/

theorem run_star_one (p : Char → Bool) (s : Text) : (Peg.star (.one p)).run s = some (s.dropWhile p) := by
  induction s with
  | nil => exact Peg.run_star_of_none rfl
  | cons c s ih =>
    by_cases hc : p c = true
    · rw [Peg.run_star_of_some (r := s) (by simp [Peg.run, hc]), ih, List.dropWhile_cons_of_pos hc]
    · rw [Peg.run_star_of_none (by simp [Peg.run, hc]), List.dropWhile_cons_of_neg hc]

theorem run_star_one_seq (p : Char → Bool) (b : Peg) (s : Text) :
    (Peg.seq (.star (.one p)) b).run s = b.run (s.dropWhile p) := by
  rw [Peg.run_seq, run_star_one, Option.bind_some]

theorem run_blanks (s : Text) : blanks.run s = some (behindBlanks s) := run_star_one _ s

theorem run_blanks_seq (p : Peg) (s : Text) : (Peg.seq blanks p).run s = p.run (behindBlanks s) :=
  run_star_one_seq _ p s

section Opening

variable {J : Peg → Text → Text → Prop} (hJ : Peg.Opens J) {t y : Text}
include hJ

theorem Peg.Opens.all_of_star_one {p : Char → Bool} (h : J (.star (.one p)) t y) : t.all p = true := by
  have hr := hJ.rounds h
  clear h
  induction hr with
  | nil => rfl
  | cons _ hu _ ih =>
    obtain ⟨c, hc, rfl⟩ := hJ.one hu
    rw [List.all_append, ih]
    simp [hc]

theorem Peg.Opens.blanks (h : J Grammar.blanks t y) : t.all isWhiteSpace = true := hJ.all_of_star_one h

/-- A text of a character of one class with characters of another behind it. -/
theorem Peg.Opens.lexeme {p q : Char → Bool} (h : J (.seq (.one p) (.star (.one q))) t y) :
    ∃ c s, t = c :: s ∧ p c = true ∧ s.all q = true := by
  obtain ⟨u, v, rfl, hu, hv⟩ := hJ.seq h
  obtain ⟨c, hc, rfl⟩ := hJ.one hu
  exact ⟨c, v, rfl, hc, hJ.all_of_star_one hv⟩

end Opening

theorem run_lexeme {p q : Char → Bool} {c : Char} (hc : p c = true) (s : Text) :
    (Peg.seq (.one p) (.star (.one q))).run (c :: s) = some (s.dropWhile q) := by
  rw [Peg.run_seq]
  simp only [Peg.run, hc, ↓reduceIte, Option.bind_some]
  exact run_star_one q s

theorem run_lexeme_of_leads {p q : Char → Bool} {s : Text} (h : leads p s = false) :
    (Peg.seq (.one p) (.star (.one q))).run s = none := by
  rw [Peg.run_seq]
  cases s with
  | nil => rfl
  | cons c s =>
    rw [leads_cons] at h
    simp [Peg.run, h]

/-- One or more characters of a word. -/
def IsWord (w : Text) : Prop := w ≠ [] ∧ w.all isWordChar = true

theorem takes_word {w s : Text} (hw : IsWord w) (hs : leads isWordChar s = false) : word.Takes w s := by
  obtain ⟨hne, hall⟩ := hw
  cases w with
  | nil => exact absurd rfl hne
  | cons c w =>
    rw [List.all_cons, Bool.and_eq_true] at hall
    rw [Peg.Takes, word, List.cons_append, run_lexeme hall.1, dropWhile_append hall.2, dropWhile_of_leads hs]

/-- One or more characters of a word, the first of which is no digit. -/
def IsIdentifier (w : Text) : Prop := IsWord w ∧ leads isNameStart w = true

theorem IsIdentifier.append {u v : Text} (hu : IsIdentifier u) (hv : v.all isWordChar = true) :
    IsIdentifier (u ++ v) := by
  obtain ⟨⟨hne, hall⟩, hlead⟩ := hu
  exact ⟨⟨by simp [hne], by rw [List.all_append, hall, hv]; rfl⟩, by rwa [leads_append hne]⟩

theorem IsIdentifier.of_append {u v : Text} (h : IsIdentifier (u ++ v)) (hu : u ≠ []) : IsIdentifier u := by
  obtain ⟨⟨-, hall⟩, hlead⟩ := h
  rw [List.all_append, Bool.and_eq_true] at hall
  rw [leads_append hu] at hlead
  exact ⟨⟨hu, hall.1⟩, hlead⟩

theorem takes_identifier {w s : Text} (hw : IsIdentifier w) (hs : leads isWordChar s = false) :
    identifier.Takes w s := by
  obtain ⟨⟨hne, hall⟩, hlead⟩ := hw
  cases w with
  | nil => exact absurd rfl hne
  | cons c w =>
    rw [List.all_cons, Bool.and_eq_true] at hall
    rw [Peg.Takes, identifier, List.cons_append, run_lexeme hlead, dropWhile_append hall.2, dropWhile_of_leads hs]

theorem Peg.Opens.isWord {J : Peg → Text → Text → Prop} (hJ : Peg.Opens J) {w y : Text} (h : J word w y) :
    IsWord w := by
  obtain ⟨c, s, rfl, hc, hs⟩ := hJ.lexeme h
  exact ⟨List.cons_ne_nil c s, by simp [hc, hs]⟩

theorem Peg.Opens.isIdentifier {J : Peg → Text → Text → Prop} (hJ : Peg.Opens J) {w y : Text} (h : J identifier w y) :
    IsIdentifier w := by
  obtain ⟨c, s, rfl, hc, hs⟩ := hJ.lexeme h
  exact ⟨⟨List.cons_ne_nil c s, by simp [isWordChar_of_isNameStart hc, hs]⟩, hc⟩

/-- What an identifier is taken in front of is no further character of it. -/
theorem leads_of_takes_identifier {w s : Text} (h : identifier.Takes w s) : leads isWordChar s = false := by
  obtain ⟨c, t, rfl, hc, ht⟩ := Peg.opens_takes.lexeme h
  rw [Peg.Takes, identifier, List.cons_append, run_lexeme hc, dropWhile_append ht, Option.some.injEq] at h
  rw [← h]
  exact leads_dropWhile ..

/-! ### Separated parts -/

/-- A part behind a separator, with blanks on both sides of the separator. -/
def Peg.after (sep a : Peg) : Peg := .all [blanks, sep, blanks, a]

/-- A text of a part behind a separator of a class of characters, in front of a text. -/
inductive After (p : Char → Bool) (Q : Text → Text → Prop) : Text → Text → Prop where
  | mk {b b' u z : Text} {c : Char} : b.all isWhiteSpace = true → p c = true → b'.all isWhiteSpace = true → Q u z →
      After p Q (b ++ c :: (b' ++ u)) z

theorem After.imp {p : Char → Bool} {Q Q' : Text → Text → Prop} {u z z' : Text} (h : After p Q u z)
    (hQ : ∀ t, Q t z → Q' t z') : After p Q' u z' := by
  obtain ⟨hb, hc, hb', ht⟩ := h
  exact .mk hb hc hb' (hQ _ ht)

theorem Peg.Opens.after {J : Peg → Text → Text → Prop} (hJ : Peg.Opens J) {sep a : Peg} {p : Char → Bool}
    (hsep : ∀ {t y}, J sep t y → ∃ c, p c = true ∧ t = [c]) {t y : Text} (h : J (Peg.after sep a) t y) :
    After p (J a) t y := by
  obtain ⟨b, t, rfl, hb, h⟩ := hJ.seq h
  obtain ⟨o, t, rfl, ho, h⟩ := hJ.seq h
  obtain ⟨b', u, rfl, hb', hu⟩ := hJ.seq h
  obtain ⟨c, hc, rfl⟩ := hsep ho
  show After p (J a) (b ++ c :: (b' ++ u)) y
  exact .mk (hJ.blanks hb) hc (hJ.blanks hb') hu

theorem Peg.Opens.lit_singleton {J : Peg → Text → Text → Prop} (hJ : Peg.Opens J) {d : Char} {t y : Text}
    (h : J (.lit [d]) t y) : ∃ c, (c == d) = true ∧ t = [c] :=
  ⟨d, beq_self_eq_true d, hJ.lit h⟩

theorem run_lit_singleton (d : Char) (s : Text) : (Peg.lit [d]).run s = (Peg.one (· == d)).run s := by
  cases s with
  | nil => rfl
  | cons c s =>
    by_cases hc : c = d
    · subst hc
      simp [Peg.run, Text.dropFront?]
    · simp [Peg.run, Text.dropFront?, hc, Ne.symm hc]

section Separated

variable {sep a : Peg} {p : Char → Bool} (hsep : ∀ s, sep.run s = (Peg.one p).run s)
include hsep

theorem run_after (s : Text) :
    (Peg.after sep a).run s = ((Peg.one p).run (behindBlanks s)).bind fun r => a.run (behindBlanks r) := by
  show (Peg.seq blanks (.seq sep (.seq blanks a))).run s = _
  rw [run_blanks_seq, Peg.run_seq, hsep, funext (run_blanks_seq a)]

theorem run_after_of_leads {s : Text} (h : leads p (behindBlanks s) = false) : (Peg.after sep a).run s = none := by
  rw [run_after hsep]
  cases hs : behindBlanks s with
  | nil => rfl
  | cons c r =>
    rw [hs, leads_cons] at h
    simp [Peg.run, h]

theorem run_after_cons {b b' s : Text} {c : Char} (hb : b.all isWhiteSpace = true) (hc : p c = true)
    (hcb : isWhiteSpace c = false) (hb' : b'.all isWhiteSpace = true) (hs : leads isWhiteSpace s = false) :
    (Peg.after sep a).run (b ++ c :: (b' ++ s)) = a.run s := by
  rw [run_after hsep, behindBlanks_cons hb hcb]
  simp only [Peg.run, hc, ↓reduceIte, Option.bind_some]
  rw [behindBlanks_append hb', behindBlanks_of_leads hs]

end Separated

end Grammar

end CallHoist
