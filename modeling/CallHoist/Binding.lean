import CallHoist.Edit
import CallHoist.Grammar.Scan

/-!
# Bindings

A binding gives a name to a call that occurs several times. It is written as a declaration with a breadcrumb comment
behind it, and the occurrences of the call are replaced by the name. The spans replaced are those of the matches of a
scan, so no call is replaced inside a longer name.
-/

namespace CallHoist

structure Binding where
  name : Text
  typeName : Text
  call : Text
  count : Int
  deriving DecidableEq, Repr

namespace Binding

def declaration (b : Binding) : Text :=
  b.typeName ++ [' '] ++ b.name ++ " = ".toList ++ b.call ++ [';']

/-- The declaration as a line of a source, ended by the breadcrumb comment. -/
def declarationLine (breadcrumb : Text) (b : Binding) : Text :=
  b.declaration ++ "  // ".toList ++ breadcrumb ++ ['\n']

/-- The lines about a binding in a report. -/
def report (b : Binding) : List Text :=
  [b.declaration, b.call ++ " -> ".toList ++ b.name ++ " : ".toList ++ Text.decimal b.count, []]

/-- The lines about a binding whose type was not looked for. -/
def untypedReport (b : Binding) : List Text :=
  [b.declaration, []]

/-- The lines about a call without a known type. -/
def unknownReport (call : Text) (count : Int) : List Text :=
  [call ++ " return type UNKNOWN! called ".toList ++ Text.decimal count ++ " times.".toList, []]

/-- The name that a call is bound to. Of several bindings of a call the last counts. -/
def nameOf? (bindings : List Binding) (call : Text) : Option Text :=
  (bindings.reverse.find? (·.call == call)).map (·.name)

/-- The edits that replace each match of a bound call by the name. -/
def edits (found : List Grammar.Match) (bindings : List Binding) : List Edit :=
  found.filterMap fun m => (nameOf? bindings m.text).map fun name => ⟨m.start, m.stop, name⟩

/-- The declarations, the last first. -/
def block (breadcrumb : Text) (bindings : List Binding) : Text :=
  bindings.reverse.flatMap (declarationLine breadcrumb)

/-- The body with the bound calls replaced and the declarations in front of it. -/
def rewrite (breadcrumb body : Text) (found : List Grammar.Match) (bindings : List Binding) : Except Overlap Text :=
  (Edit.applyAll body (edits found bindings)).map (block breadcrumb bindings ++ ·)

end Binding

end CallHoist
