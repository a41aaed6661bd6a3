import CallHoist.Pattern.Compiler

/-!
# Inferring the type of a call

A call is classified by two ordered lists of rules, each with a pattern for the whole text of a call. An ignore rule
vetoes the call, whatever its type; else the first type rule that matches gives the type; else the type is unknown.
-/

namespace CallHoist

structure TypeRule where
  regex : Matcher
  typeName : Text

def TypeRule.matches (r : TypeRule) (call : Text) : Bool :=
  r.regex.accepts call

/-- A type rule with its pattern as written. -/
def TypeRule.read (compile : Compiler) (pattern typeName : Text) : Except CompileFailure TypeRule :=
  (compile.matcher pattern).map fun m => ⟨m, typeName⟩

structure IgnoreRule where
  name : Text
  regex : Matcher

def IgnoreRule.matches (r : IgnoreRule) (call : Text) : Bool :=
  r.regex.accepts call

/-- An ignore rule with its pattern as written. -/
def IgnoreRule.read (compile : Compiler) (name pattern : Text) : Except CompileFailure IgnoreRule :=
  (compile.matcher pattern).map fun m => ⟨name, m⟩

inductive Verdict where
  | ignored (rule : IgnoreRule)
  | resolved (rule : TypeRule)
  | unknown

/-- The rules by which calls are classified. -/
structure Engine where
  typeRules : List TypeRule
  ignoreRules : List IgnoreRule

namespace Engine

/-- The first ignore rule that matches a call. -/
def ignoredBy? (e : Engine) (call : Text) : Option IgnoreRule :=
  e.ignoreRules.find? (·.matches call)

/-- The first type rule that matches a call. -/
def typedBy? (e : Engine) (call : Text) : Option TypeRule :=
  e.typeRules.find? (·.matches call)

def infer (e : Engine) (call : Text) : Verdict :=
  match e.ignoredBy? call with
  | some r => .ignored r
  | none =>
    match e.typedBy? call with
    | some r => .resolved r
    | none => .unknown

section

variable {e : Engine} {call : Text} {i : Nat}

/-- The first ignore rule that matches, by its place. -/
theorem ignoredBy?_of_findIdx? {r : IgnoreRule} (hi : e.ignoreRules.findIdx? (·.matches call) = some i)
    (hr : e.ignoreRules[i]? = some r) : e.ignoredBy? call = some r := by
  rw [ignoredBy?, List.find?_eq_bind_findIdx?_getElem?, hi]
  exact hr

theorem ignoredBy?_of_any (h : e.ignoreRules.any (·.matches call) = false) : e.ignoredBy? call = none := by
  simpa [ignoredBy?] using h

/-- The first type rule that matches, by its place. -/
theorem typedBy?_of_findIdx? {r : TypeRule} (hi : e.typeRules.findIdx? (·.matches call) = some i)
    (hr : e.typeRules[i]? = some r) : e.typedBy? call = some r := by
  rw [typedBy?, List.find?_eq_bind_findIdx?_getElem?, hi]
  exact hr

theorem typedBy?_of_any (h : e.typeRules.any (·.matches call) = false) : e.typedBy? call = none := by
  simpa [typedBy?] using h

end

/-- The rules of one engine, and behind them those of another. -/
def append (e d : Engine) : Engine :=
  ⟨e.typeRules ++ d.typeRules, e.ignoreRules ++ d.ignoreRules⟩

end Engine

end CallHoist
