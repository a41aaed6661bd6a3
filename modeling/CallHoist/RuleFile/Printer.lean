import CallHoist.RuleFile

/-!
# Writing rule files

The text of a rule file with given entries: one `(rules ...)` form, with every string between double quotes.
-/

namespace CallHoist.RuleFile

/-- An entry of a rule file, its pattern as written. -/
inductive Entry where
  | type (pattern typeName : Text)
  | ignore (name pattern : Text)
  | inheritDefaults
  deriving DecidableEq, Repr

/-- A character of a string. The backslash and the double quote are written behind a backslash. -/
def writtenChar (c : Char) : Text :=
  if c == '\\' || c == '"' then ['\\', c] else [c]

/-- A string between double quotes. -/
def writtenString (s : Text) : Text :=
  ['"'] ++ s.flatMap writtenChar ++ ['"']

namespace Entry

def written : Entry → Text
  | type pattern typeName => "(type ".toList ++ writtenString pattern ++ [' '] ++ writtenString typeName ++ [')']
  | ignore name pattern => "(ignore ".toList ++ writtenString name ++ [' '] ++ writtenString pattern ++ [')']
  | inheritDefaults => "(inherit-defaults)".toList

/-- The rules of an entry. -/
def tables (compile : Compiler) : Entry → Except CompileFailure RuleTables
  | type pattern typeName => (TypeRule.read compile pattern typeName).map fun r => ⟨⟨[r], []⟩, false⟩
  | ignore name pattern => (IgnoreRule.read compile name pattern).map fun r => ⟨⟨[], [r]⟩, false⟩
  | inheritDefaults => .ok ⟨⟨[], []⟩, true⟩

end Entry

/-- The text of a rule file. -/
def written (entries : List Entry) : Text :=
  "(rules".toList ++ entries.flatMap (fun e => [' '] ++ e.written) ++ [')']

/-- The rules of entries, in their order. -/
def tablesOf (compile : Compiler) : List Entry → Except CompileFailure RuleTables
  | [] => .ok .empty
  | e :: rest => do return (← e.tables compile).append (← tablesOf compile rest)

end CallHoist.RuleFile
