import CallHoist.Text.Basic

/-!
# Parsing expressions

A parsing expression is tried at the front of a text and answers with the rest behind what it matched. Choice is
ordered, an option and a repetition take all they can, and none of them gives anything back: what follows is tried
once, behind what they took.

An expression holds no names, so there is no recursion through rules and a run is structural.
-/

namespace CallHoist.Grammar

inductive Peg where
  /-- One character of a class. -/
  | one (p : Char → Bool)
  /-- The characters of a given text. -/
  | lit (s : Text)
  | seq (a b : Peg)
  /-- The first alternative, or where it fails the second. -/
  | alt (a b : Peg)
  | opt (a : Peg)
  | star (a : Peg)

/-- Applies a step to what the last one left, `n` times or until it fails. -/
def iterate (step : Text → Option Text) : Nat → Text → Text
  | 0, s => s
  | n + 1, s =>
    match step s with
    | none => s
    | some r => iterate step n r

namespace Peg

/-- What is left of a text behind the match at its front. A repetition of an expression that takes at least one
character each time ends before it has run once for each character. -/
def run : Peg → Text → Option Text
  | one _, [] => none
  | one p, c :: s => if p c then some s else none
  | lit l, s => Text.dropFront? l s
  | seq a b, s => (a.run s).bind b.run
  | alt a b, s => (a.run s).or (b.run s)
  | opt a, s => some ((a.run s).getD s)
  | star a, s => some (iterate a.run s.length s)

theorem run_seq (a b : Peg) (s : Text) : (seq a b).run s = (a.run s).bind b.run := by simp [run]

theorem run_alt (a b : Peg) (s : Text) : (alt a b).run s = (a.run s).or (b.run s) := by simp [run]

theorem run_opt (a : Peg) (s : Text) : (opt a).run s = some ((a.run s).getD s) := by simp [run]

theorem run_star (a : Peg) (s : Text) : (star a).run s = some (iterate a.run s.length s) := by simp [run]

/-- One after another. -/
def all : List Peg → Peg
  | [] => lit []
  | [a] => a
  | a :: b :: r => seq a (all (b :: r))

end Peg

end CallHoist.Grammar
