import CallHoist.Proofs.Grammar.Start

/-!
# Where a match can stop

Each text of a rule, blanks and scopes apart, ends with a character of a word, an operator, a quote, a closing
parenthesis or a point (`Rule.endsIn`). For blanks stand in front of a part and not behind the last one: the rounds of
a repetition begin with blanks and end with a part, and a round that fails behind its blanks is not taken, blanks and
all. So a match of these rules has at neither end what the scan takes for white space
(`ends_not_isSpacing_of_mem_scan`), a wider class than the blanks of the rules.
-/

namespace CallHoist.Grammar

open Text Peg

/-! ### Last characters of an expression -/

namespace Peg

/-- Each text of the expression ends with a character of a class, and so is not empty. -/
def EndsIn (q : Char → Bool) (p : Peg) : Prop := ∀ t, Derives p t → trails q t = true

/-- Each text of the expression is empty or ends with a character of a class. -/
def MayEndIn (q : Char → Bool) (p : Peg) : Prop := ∀ t, Derives p t → t = [] ∨ trails q t = true

section

variable {q : Char → Bool} {a b : Peg}

namespace EndsIn

theorem mono {q' : Char → Bool} (h : ∀ c, q c = true → q' c = true) (ha : a.EndsIn q) : a.EndsIn q' := by
  intro t ht
  obtain ⟨u, c, rfl, hc⟩ := exists_of_trails (ha t ht)
  rw [trails_concat]
  exact h c hc

theorem one {p : Char → Bool} (h : ∀ c, p c = true → q c = true) : (one p).EndsIn q := by
  intro t ht
  obtain ⟨c, hc, rfl⟩ := opens_derives.one (y := []) ht
  exact h c hc

theorem lit {l : Text} (h : trails q l = true) : (lit l).EndsIn q := by
  intro t ht
  obtain rfl := opens_derives.lit (y := []) ht
  exact h

theorem seq (hb : b.EndsIn q) : (seq a b).EndsIn q := by
  intro t ht
  obtain ⟨u, v, rfl, -, hv⟩ := opens_derives.seq (y := []) ht
  exact trails_append (hb v hv) u

/-- What can be left out at the back has to end as what stands before it does. -/
theorem seq_mayEndIn (ha : a.EndsIn q) (hb : b.MayEndIn q) : (Peg.seq a b).EndsIn q := by
  intro t ht
  obtain ⟨u, v, rfl, hu, hv⟩ := opens_derives.seq (y := []) ht
  rcases hb v hv with rfl | h
  · rw [List.append_nil]
    exact ha u hu
  · exact trails_append h u

/-- Parts one after another end as the last of them does. -/
theorem all {ps : List Peg} (h : ps.getLast? = some a) (ha : a.EndsIn q) : (all ps).EndsIn q := by
  induction ps with
  | nil => cases h
  | cons b ps ih =>
    cases ps with
    | nil =>
      obtain rfl : b = a := Option.some.inj h
      exact ha
    | cons c ps => exact .seq (ih (by rwa [List.getLast?_cons_cons] at h))

theorem alt (ha : a.EndsIn q) (hb : b.EndsIn q) : (alt a b).EndsIn q := by
  intro t ht
  rcases opens_derives.alt (y := []) ht with h | h
  · exact ha t h
  · exact hb t h

end EndsIn

namespace MayEndIn

theorem opt (ha : a.EndsIn q) : (opt a).MayEndIn q := by
  intro t ht
  exact (opens_derives.opt (y := []) ht).imp id (ha t)

/-- The last round of a repetition ends it. -/
theorem star (ha : a.EndsIn q) : (star a).MayEndIn q := by
  intro t ht
  have hrounds : Rounds (fun u _ => Derives a u) [] t := opens_derives.rounds ht
  clear ht
  induction hrounds with
  | nil => exact .inl rfl
  | @cons u v _ hu _ ih =>
    right
    rcases ih with rfl | h
    · rw [List.append_nil]
      exact ha u hu
    · exact trails_append h u

theorem seq (ha : a.MayEndIn q) (hb : b.MayEndIn q) : (seq a b).MayEndIn q := by
  intro t ht
  obtain ⟨u, v, rfl, hu, hv⟩ := opens_derives.seq (y := []) ht
  rcases hb v hv with rfl | h
  · rw [List.append_nil]
    exact ha u hu
  · exact .inr (trails_append h u)

end MayEndIn

end

end Peg

/-! ### Last characters of the rules -/

/-- The characters that a text of a rule can end with, blanks and scopes apart. -/
def isStop (c : Char) : Bool := isWordChar c || isOperator c || ['"', ')', '.'].contains c

theorem isSpacing_of_isStop {c : Char} (h : isStop c = true) : isSpacing c = false := by
  simp only [isStop, isOperator, List.contains_cons, List.contains_nil, Bool.or_eq_true, beq_iff_eq] at h
  rcases h with (h | ((rfl | rfl) | rfl) | rfl) | rfl | rfl | rfl | h
  · exact isSpacing_of_isWordChar h
  all_goals first | decide | cases h

private theorem isStop_of_isWordChar (c : Char) (h : isWordChar c = true) : isStop c = true := by
  simp [isStop, h]

private theorem isStop_of_isDigit (c : Char) (h : isDigit c = true) : isStop c = true :=
  isStop_of_isWordChar c (isWordChar_of_isDigit h)

private theorem isStop_of_isOperator (c : Char) (h : isOperator c = true) : isStop c = true := by
  simp [isStop, h]

private theorem isOperator_of_isSign (c : Char) (h : isSign c = true) : isOperator c = true := by
  simp only [isSign, Bool.or_eq_true, beq_iff_eq] at h
  rcases h with rfl | rfl <;> decide

private theorem endsIn_word : word.EndsIn isWordChar := .seq_mayEndIn (.one fun _ h => h) (.star (.one fun _ h => h))

private theorem endsIn_identifier : identifier.EndsIn isWordChar :=
  .seq_mayEndIn (.one fun _ => isWordChar_of_isNameStart) (.star (.one fun _ h => h))

theorem endsIn_qualifiedName : qualifiedName.EndsIn isWordChar :=
  .seq (.seq_mayEndIn endsIn_identifier (.star (.all rfl endsIn_identifier)))

private theorem endsIn_number : number.EndsIn isStop :=
  have hdigit : (Peg.one isDigit).EndsIn isStop := .one isStop_of_isDigit
  .seq_mayEndIn hdigit (.seq (.star hdigit) (.seq (.opt (.lit rfl)) (.seq (.star hdigit) (.opt (.lit rfl)))))

private theorem endsIn_string : string.EndsIn isStop := .all rfl (.lit rfl)

private theorem endsIn_constant : constant.EndsIn isStop := .alt endsIn_string endsIn_number

private theorem endsIn_operand : operand.EndsIn isStop :=
  .seq (.alt (endsIn_qualifiedName.mono isStop_of_isWordChar) endsIn_constant)

/-- Parts with separators between them end as the parts do. -/
private theorem endsIn_series {sep a : Peg} (h : a.EndsIn isStop) :
    (Peg.seq a (.star (Peg.after sep a))).EndsIn isStop :=
  .seq_mayEndIn h (.star (.all rfl h))

private theorem endsIn_sExpression : sExpression.EndsIn isStop := .seq (endsIn_series endsIn_operand)

private theorem endsIn_pExpression : pExpression.EndsIn isStop := .seq (.all rfl (.lit rfl))

private theorem endsIn_term : term.EndsIn isStop := .alt endsIn_sExpression endsIn_pExpression

private theorem endsIn_signedTerm : signedTerm.EndsIn isStop := .seq endsIn_term

private theorem endsIn_chain : chain.EndsIn isStop := endsIn_series endsIn_signedTerm

private theorem endsIn_ternary : ternary.EndsIn isStop := .all rfl endsIn_signedTerm

private theorem endsIn_expression (o : Order) : (expression o).EndsIn isStop := by
  cases o with
  | ternaryFirst => exact .alt endsIn_ternary endsIn_chain
  | chainFirst => exact .alt endsIn_chain endsIn_ternary

private theorem endsIn_functionCall (o : Order) : (functionCall o).EndsIn isStop := .all rfl (.lit rfl)

theorem Rule.endsIn (o : Order) {r : Rule} (hblanks : r ≠ .blanks) (hscope : r ≠ .scope) :
    (r.peg o).EndsIn isStop := by
  cases r with
  | functionCall => exact endsIn_functionCall o
  | condExpression => exact endsIn_ternary
  | arguments => exact endsIn_series (endsIn_expression o)
  | expression => exact endsIn_expression o
  | chain => exact endsIn_chain
  | ternary => exact endsIn_ternary
  | signedTerm => exact endsIn_signedTerm
  | term => exact endsIn_term
  | pExpression => exact endsIn_pExpression
  | sExpression => exact endsIn_sExpression
  | operand => exact endsIn_operand
  | qualifiedName => exact endsIn_qualifiedName.mono isStop_of_isWordChar
  | scope => exact absurd rfl hscope
  | identifier => exact endsIn_identifier.mono isStop_of_isWordChar
  | word => exact endsIn_word.mono isStop_of_isWordChar
  | constant => exact endsIn_constant
  | string => exact endsIn_string
  | number => exact endsIn_number
  | sign => exact .one fun c hc => isStop_of_isOperator c (isOperator_of_isSign c hc)
  | operator => exact .one isStop_of_isOperator
  | blanks => exact absurd rfl hblanks

/-! ### The ends of a match -/

/-- A match of a rule, blanks and scopes apart, neither begins nor ends with white space. -/
theorem ends_not_isSpacing_of_mem_scan {o : Order} {r : Rule} (hblanks : r ≠ .blanks) (hscope : r ≠ .scope) {s : Text}
    {m : Match} (hm : m ∈ scan (r.peg o) s) :
    ∃ c d, m.text.head? = some c ∧ m.text.getLast? = some d ∧ isSpacing c = false ∧ isSpacing d = false := by
  obtain ⟨k, rfl, hfit, hscan⟩ := exists_cutting (r.peg o) s
  rw [hscan] at hm
  obtain ⟨y, htake⟩ := hfit.exists_takes_of_mem hm
  obtain ⟨c, u, hu, hc⟩ := exists_of_leads (Rule.startsIn o hblanks m.text htake.derives)
  obtain ⟨v, d, hv, hd⟩ := exists_of_trails (Rule.endsIn o hblanks hscope m.text htake.derives)
  refine ⟨c, d, ?_, ?_, isSpacing_of_isStart hc, isSpacing_of_isStop hd⟩
  · rw [hu, List.head?_cons]
  · rw [hv, List.getLast?_concat]

/-- A chain that tries a further round behind its blanks in vain. -/
theorem ends_not_isSpacing_of_mem_scan_chain :
    let m : Match := ⟨1, 7, "-a + 1".toList⟩
    Rule.chain ≠ .blanks ∧ Rule.chain ≠ .scope ∧ m ∈ scan (Rule.chain.peg .ternaryFirst) " -a + 1 \x1c* ?".toList ∧
      ∃ c d, m.text.head? = some c ∧ m.text.getLast? = some d ∧ isSpacing c = false ∧ isSpacing d = false := by
  intro m
  have hm : m ∈ scan (Rule.chain.peg .ternaryFirst) " -a + 1 \x1c* ?".toList := by decide +kernel
  exact ⟨by decide, by decide, hm, ends_not_isSpacing_of_mem_scan (by decide) (by decide) hm⟩

-- a scope takes the blanks behind its operator
example : ⟨0, 4, "a:: ".toList⟩ ∈ scan (Rule.scope.peg .ternaryFirst) "a:: b".toList := by decide +kernel

end CallHoist.Grammar
