import CallHoist.Failure
import CallHoist.Grammar.Scan

/-!
# Searching by a named rule
-/

namespace CallHoist.Grammar

/-- The parsing expression of the rule of a name. -/
def ruleNamed (o : Order) (name : Text) : Except Failure Peg :=
  match Rule.ofName? name with
  | some r => .ok (r.peg o)
  | none => .error (Failure.unknownRule name)

/-- The matches of a named rule, at most `limit` of them. A search for no match at all does not look up the rule. -/
def search (o : Order) (name : Text) (limit : Option Nat) (s : Text) : Except Failure (List Match) :=
  match limit with
  | some 0 => .ok []
  | some n => (ruleNamed o name).map fun p => (scan p s).take n
  | none => (ruleNamed o name).map fun p => scan p s

end CallHoist.Grammar
