import CallHoist.Proofs.Grammar.Cutting

/-!
# Where a match can start

Each text of a rule, blanks apart, begins with a character of a word, an operator, a quote, a parenthesis or a colon
(`Rule.startsIn`). So it is not empty, and it does not begin with what a scan takes for white space. Hence a scan that
passes over a place passes over no match of the rule (`Peg.Gap.run_eq_none`), whatever the reason is that it passes.
-/

namespace CallHoist.Grammar

open Text Peg

/-! ### First characters of an expression -/

namespace Peg

/-- Each text of the expression begins with a character of a class, and so is not empty. -/
def StartsIn (q : Char → Bool) (p : Peg) : Prop := ∀ t, Derives p t → leads q t = true

namespace StartsIn

variable {q : Char → Bool} {a b : Peg}

theorem one {p : Char → Bool} (h : ∀ c, p c = true → q c = true) : (one p).StartsIn q := by
  intro t ht
  obtain ⟨c, hc, rfl⟩ := opens_derives.one (y := []) ht
  exact h c hc

theorem lit {l : Text} (h : leads q l = true) : (lit l).StartsIn q := by
  intro t ht
  obtain rfl := opens_derives.lit (y := []) ht
  exact h

private theorem leads_append_of_leads {u : Text} (h : leads q u = true) (v : Text) : leads q (u ++ v) = true := by
  cases u with
  | nil => cases h
  | cons c u => exact h

theorem seq (ha : a.StartsIn q) : (seq a b).StartsIn q := by
  intro t ht
  obtain ⟨u, v, rfl, hu, -⟩ := opens_derives.seq (y := []) ht
  exact leads_append_of_leads (ha u hu) v

theorem alt (ha : a.StartsIn q) (hb : b.StartsIn q) : (alt a b).StartsIn q := by
  intro t ht
  rcases opens_derives.alt (y := []) ht with h | h
  · exact ha t h
  · exact hb t h

/-- What can be left out at the front has to begin as the rest does. -/
theorem opt_seq (ha : a.StartsIn q) (hb : b.StartsIn q) : (Peg.seq (opt a) b).StartsIn q := by
  intro t ht
  obtain ⟨u, v, rfl, hu, hv⟩ := opens_derives.seq (y := []) ht
  rcases opens_derives.opt (y := []) hu with rfl | hu
  · exact hb v hv
  · exact leads_append_of_leads (ha u hu) v

theorem star_seq (ha : a.StartsIn q) (hb : b.StartsIn q) : (Peg.seq (star a) b).StartsIn q := by
  intro t ht
  obtain ⟨u, v, rfl, hu, hv⟩ := opens_derives.seq (y := []) ht
  rcases opens_derives.star (y := []) hu with rfl | ⟨w, w', -, rfl, hw, -⟩
  · exact hb v hv
  · rw [List.append_assoc]
    exact leads_append_of_leads (ha w hw) _

end StartsIn

end Peg

/-! ### First characters of the rules -/

/-- The characters that a text of a rule can begin with. -/
def isStart (c : Char) : Bool := isWordChar c || isOperator c || ['"', '(', ':'].contains c

private theorem isStart_of_isWordChar (c : Char) (h : isWordChar c = true) : isStart c = true := by
  simp [isStart, h]

private theorem isStart_of_isOperator (c : Char) (h : isOperator c = true) : isStart c = true := by
  simp [isStart, h]

private theorem isStart_of_isSign (c : Char) (h : isSign c = true) : isStart c = true := by
  simp only [isSign, Bool.or_eq_true, beq_iff_eq] at h
  rcases h with rfl | rfl <;> decide

theorem isSpacing_of_isWordChar {c : Char} (h : isWordChar c = true) : isSpacing c = false := by
  rw [Bool.eq_false_iff]
  intro hs
  rw [isSpacing, Bool.or_eq_true] at hs
  rcases hs with hs | hs
  · rw [isWordChar_of_isWhiteSpace hs] at h
    cases h
  · rw [Bool.and_eq_true, decide_eq_true_eq, decide_eq_true_eq] at hs
    simp only [isWordChar, isNameStart, isLetter, isDigit, Char.le_def, UInt32.le_iff_toNat_le, Bool.or_eq_true,
      Bool.and_eq_true, decide_eq_true_eq, beq_iff_eq] at h
    rcases h with ((h | h) | rfl) | h
    · simp at h hs; omega
    · simp at h hs; omega
    · simp at hs
    · simp at h hs; omega

theorem isSpacing_of_isStart {c : Char} (h : isStart c = true) : isSpacing c = false := by
  simp only [isStart, isOperator, List.contains_cons, List.contains_nil, Bool.or_eq_true, beq_iff_eq] at h
  rcases h with (h | ((rfl | rfl) | rfl) | rfl) | rfl | rfl | rfl | h
  · exact isSpacing_of_isWordChar h
  all_goals first | decide | cases h

private theorem startsIn_word : word.StartsIn isStart := .seq (.one isStart_of_isWordChar)

private theorem startsIn_identifier : identifier.StartsIn isStart :=
  .seq (.one fun c hc => isStart_of_isWordChar c (isWordChar_of_isNameStart hc))

private theorem startsIn_scope : scope.StartsIn isStart := .opt_seq (.seq (.lit rfl)) (.seq startsIn_word)

private theorem startsIn_qualifiedName : qualifiedName.StartsIn isStart :=
  .star_seq startsIn_scope (.seq startsIn_identifier)

private theorem startsIn_number : number.StartsIn isStart :=
  .seq (.one fun c hc => isStart_of_isWordChar c (isWordChar_of_isDigit hc))

private theorem startsIn_string : string.StartsIn isStart := .seq (.lit rfl)

private theorem startsIn_sign : sign.StartsIn isStart := .one isStart_of_isSign

private theorem startsIn_signed {a : Peg} (h : a.StartsIn isStart) : (signed a).StartsIn isStart :=
  .opt_seq (.seq startsIn_sign) h

private theorem startsIn_constant : constant.StartsIn isStart := .alt startsIn_string startsIn_number

private theorem startsIn_operand : operand.StartsIn isStart :=
  startsIn_signed (.alt startsIn_qualifiedName startsIn_constant)

private theorem startsIn_sExpression : sExpression.StartsIn isStart := startsIn_signed (.seq startsIn_operand)

private theorem startsIn_pExpression : pExpression.StartsIn isStart := startsIn_signed (.seq (.lit rfl))

private theorem startsIn_term : term.StartsIn isStart := .alt startsIn_sExpression startsIn_pExpression

private theorem startsIn_signedTerm : signedTerm.StartsIn isStart := startsIn_signed startsIn_term

private theorem startsIn_expression (o : Order) : (expression o).StartsIn isStart := by
  cases o with
  | ternaryFirst => exact .alt (.seq startsIn_signedTerm) (.seq startsIn_signedTerm)
  | chainFirst => exact .alt (.seq startsIn_signedTerm) (.seq startsIn_signedTerm)

theorem Rule.startsIn (o : Order) {r : Rule} (hr : r ≠ .blanks) : (r.peg o).StartsIn isStart := by
  cases r with
  | functionCall => exact .seq startsIn_qualifiedName
  | condExpression => exact .seq startsIn_signedTerm
  | arguments => exact .seq (startsIn_expression o)
  | expression => exact startsIn_expression o
  | chain => exact .seq startsIn_signedTerm
  | ternary => exact .seq startsIn_signedTerm
  | signedTerm => exact startsIn_signedTerm
  | term => exact startsIn_term
  | pExpression => exact startsIn_pExpression
  | sExpression => exact startsIn_sExpression
  | operand => exact startsIn_operand
  | qualifiedName => exact startsIn_qualifiedName
  | scope => exact startsIn_scope
  | identifier => exact startsIn_identifier
  | word => exact startsIn_word
  | constant => exact startsIn_constant
  | string => exact startsIn_string
  | number => exact startsIn_number
  | sign => exact startsIn_sign
  | operator => exact .one isStart_of_isOperator
  | blanks => exact absurd rfl hr

/-! ### No match in a gap -/

namespace Peg

variable {p : Peg} (hp : p.StartsIn isStart)
include hp

theorem StartsIn.ne_nil {t r : Text} (h : p.Takes t r) : t ≠ [] := by
  rintro rfl
  cases hp [] h.derives

theorem StartsIn.leads_spacing {t r : Text} (h : p.Takes t r) : leads isSpacing t = false := by
  have hlead := hp t h.derives
  cases t with
  | nil => rfl
  | cons c t => exact isSpacing_of_isStart hlead

theorem StartsIn.run_nil : p.run [] = none := by
  cases h : p.run [] with
  | none => rfl
  | some r =>
    obtain ⟨t, ht, htake⟩ := exists_takes h
    exact absurd (List.append_eq_nil_iff.1 ht.symm).1 (hp.ne_nil htake)

/-- What a scan passes over has no match at its front. -/
theorem StartsIn.run_of_misses {s : Text} (h : p.Misses s) : p.run s = none := by
  cases hrun : p.run s with
  | none => rfl
  | some r =>
    obtain ⟨t, rfl, htake⟩ := exists_takes hrun
    have hne := hp.ne_nil htake
    exfalso
    rcases h with h | h | h
    · rw [leads_append hne, hp.leads_spacing htake] at h
      cases h
    · rw [hrun] at h
      cases h
    · rw [hrun, Option.some.injEq] at h
      exact hne (List.append_left_eq_self.1 h.symm)

/-- No match is at any place of a gap. -/
theorem Gap.run_eq_none {u v r : Text} (hg : p.Gap (u ++ v) r) (hv : v ≠ []) : p.run (v ++ r) = none :=
  hp.run_of_misses (hg u v rfl hv)

end Peg

end CallHoist.Grammar
