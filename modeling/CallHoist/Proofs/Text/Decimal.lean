import CallHoist.Grammar.Rule

/-!
# Decimal numbers

A number in decimal is digits, perhaps behind a minus sign (`cases_of_mem_decimal`), it ends in a digit
(`exists_last_decimal`), and no two numbers are written alike (`decimal_inj`).
-/

namespace CallHoist.Text

open Grammar

private theorem isDigit_of_mem_toDigits {n : Nat} {c : Char} (h : c ∈ Nat.toDigits 10 n) : isDigit c = true := by
  have hc := Nat.isDigit_of_mem_toDigits (by decide) (Nat.le_refl 10) h
  simpa [isDigit, Char.isDigit, Char.le_def] using hc

theorem isDigit_of_mem_decimal {i : Int} (hi : 0 ≤ i) {c : Char} (h : c ∈ decimal i) : isDigit c = true := by
  cases i with
  | ofNat n => exact isDigit_of_mem_toDigits h
  | negSucc n => exact absurd hi (by omega)

theorem cases_of_mem_decimal {i : Int} {c : Char} (h : c ∈ decimal i) : c = '-' ∨ isDigit c = true := by
  cases i with
  | ofNat n => exact .inr (isDigit_of_mem_toDigits h)
  | negSucc n => exact (List.mem_cons.1 h).imp id isDigit_of_mem_toDigits

private theorem exists_last_digit (n : Nat) : ∃ u c, Nat.toDigits 10 n = u ++ [c] ∧ isDigit c = true := by
  have hne : Nat.toDigits 10 n ≠ [] := Nat.toDigits_ne_nil
  refine ⟨_, _, (List.dropLast_concat_getLast hne).symm, isDigit_of_mem_toDigits (List.getLast_mem hne)⟩

theorem exists_last_decimal (i : Int) : ∃ u c, decimal i = u ++ [c] ∧ isDigit c = true := by
  cases i with
  | ofNat n => exact exists_last_digit n
  | negSucc n =>
    obtain ⟨u, c, hu, hc⟩ := exists_last_digit (n + 1)
    exact ⟨'-' :: u, c, by rw [decimal, hu]; rfl, hc⟩

private theorem toDigits_inj {m n : Nat} (h : Nat.toDigits 10 m = Nat.toDigits 10 n) : m = n := by
  have hm : Nat.ofDigitChars 10 (Nat.toDigits 10 m) 0 = m := Nat.ofDigitChars_toDigits (by decide) (by decide)
  have hn : Nat.ofDigitChars 10 (Nat.toDigits 10 n) 0 = n := Nat.ofDigitChars_toDigits (by decide) (by decide)
  rw [← hm, h, hn]

private theorem toDigits_ne_minus (m : Nat) (s : Text) : Nat.toDigits 10 m ≠ '-' :: s := by
  intro h
  have hdigit : isDigit '-' = true := isDigit_of_mem_toDigits (n := m) (by rw [h]; exact List.mem_cons_self)
  exact absurd hdigit (by decide)

theorem decimal_inj {i j : Int} (h : decimal i = decimal j) : i = j := by
  cases i with
  | ofNat m =>
    cases j with
    | ofNat n => rw [toDigits_inj h]
    | negSucc n => exact absurd h (toDigits_ne_minus m _)
  | negSucc m =>
    cases j with
    | ofNat n => exact absurd h.symm (toDigits_ne_minus n _)
    | negSucc n =>
      have hdigits := toDigits_inj (List.cons.inj h).2
      rw [Nat.succ.inj hdigits]

end CallHoist.Text
