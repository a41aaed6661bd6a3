import CallHoist.Pattern.Matching
import CallHoist.Pattern.Reader

/-!
# Compiled patterns

The patterns of a rule file are compiled by a library of regular expressions. Of the library only the form of its
answers is fixed: which texts a pattern matches as a whole, or why there is no such answer. So what is stated for all
compilers holds whatever constructs the library knows and whatever it breaks off at. `Compiler.ofRead` is the compiler
of those patterns that `Regex.read` covers; it has no others.
-/

namespace CallHoist

/-- A compiled pattern: as it was written, and which texts it matches as a whole. -/
structure Matcher where
  source : Text
  accepts : Text → Bool

/-- A pattern that has been read, as a compiled one. -/
def Regex.matcher (r : Regex) : Matcher :=
  ⟨r.source, r.fullMatch⟩

instance : Coe Regex Matcher := ⟨Regex.matcher⟩

/-- Why a pattern is not compiled. -/
inductive CompileFailure where
  /-- What is written is no pattern; the message says why. -/
  | invalid (message : Text)
  /-- The library breaks off without a verdict on the pattern: a number in it is too great, flags of it exclude each
  other, or its groups are nested too deep. -/
  | crash
  deriving DecidableEq, Repr

/-- Compiles written patterns to tests of whole texts. -/
abbrev Compiler := Text → Except CompileFailure (Text → Bool)

namespace Compiler

/-- The compiled pattern, with its text. -/
def matcher (compile : Compiler) (source : Text) : Except CompileFailure Matcher :=
  (compile source).map fun accepts => ⟨source, accepts⟩

/-- The compiler of the patterns that are read here. -/
def ofRead : Compiler := fun source =>
  match Regex.read source with
  | .ok r => .ok r.fullMatch
  | .error e => .error (if e.problem = .repeatTooGreat then .crash else .invalid e.message)

variable {compile : Compiler} {source : Text} {m : Matcher}

/-- A compiled pattern has the text that it was compiled from. -/
theorem matcher_eq_ok_iff : compile.matcher source = .ok m ↔ compile source = .ok m.accepts ∧ m.source = source := by
  obtain ⟨text, accepts⟩ := m
  unfold matcher
  cases compile source with
  | error e => simp [Except.map]
  | ok test => simp [Except.map, and_comm, eq_comm]

end Compiler

end CallHoist
