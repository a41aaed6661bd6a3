import CallHoist.Grammar.Rule
import CallHoist.Region

/-!
# Configuration of a reduction
-/

namespace CallHoist

/-- What is looked for in a region. -/
inductive Mode where
  | functionCalls
  | conditionalExpressions
  deriving DecidableEq, Repr

namespace Mode

def name : Mode → String
  | functionCalls => "function-calls"
  | conditionalExpressions => "conditional-expressions"

def ofName? (s : Text) : Option Mode :=
  [functionCalls, conditionalExpressions].find? (fun m => m.name.toList == s)

/-- The rule by which a region is searched. -/
def rule : Mode → Grammar.Rule
  | functionCalls => .functionCall
  | conditionalExpressions => .condExpression

end Mode

structure Config where
  mode : Mode
  /-- How often a call has to occur to be bound. -/
  minRepeats : Int
  order : Grammar.Order
  /-- The number in the name of the first binding. -/
  firstSerial : Int
  /-- The type that conditional expressions are declared with. -/
  placeholderType : Text
  /-- The pattern of the opener of the region, as written. -/
  startMarker : Text
  breadcrumb : Text
  /-- The path of a rule file. -/
  rulesFile : Option Text
  deriving DecidableEq, Repr

namespace Config

def standard : Config where
  mode := .functionCalls
  minRepeats := 2
  order := .ternaryFirst
  firstSerial := 0
  placeholderType := "auto".toList
  startMarker := Region.opener.source
  breadcrumb := Region.breadcrumb
  rulesFile := none

/-- What is doubtful in a configuration. -/
inductive Doubt where
  | fewRepeats
  | negativeSerial
  | emptyBreadcrumb
  | badMarker (e : PatternError)
  deriving DecidableEq, Repr

def Doubt.message : Doubt → Text
  | fewRepeats => "min_repeats below 2 extracts calls that occur only once".toList
  | negativeSerial => "first_serial must be non-negative".toList
  | emptyBreadcrumb => "empty breadcrumb makes re-runs re-scan inserted declarations".toList
  | badMarker e => "start_marker is not a valid regex: ".toList ++ e.message

/-- All that is doubtful in a configuration, in a fixed order. -/
def doubts (c : Config) : List Doubt :=
  (if c.minRepeats < 2 then [.fewRepeats] else [])
    ++ (if c.firstSerial < 0 then [.negativeSerial] else [])
    ++ (if c.breadcrumb.isEmpty then [.emptyBreadcrumb] else [])
    ++ (match Regex.read c.startMarker with
      | .ok _ => []
      | .error e => [.badMarker e])

end Config

end CallHoist
