import CallHoist.Config
import CallHoist.Platform
import CallHoist.RuleFile

/-!
# Loading rule files

A rule file is UTF-8, and each of its lines may be ended as is the custom of any system. What is loaded depends on the
bytes of the file alone, so it is stated of what came of reading them.

A file that is at fault is reported as such. Besides, loading can break off without a report: the path cannot be handed
to the system, the bytes cannot be decoded, the compiler breaks off at a pattern, or the report would show an
expression for which there is no text.
-/

namespace CallHoist

/-- What the loading of a rule file breaks off at. -/
inductive RuleEscape where
  | badPath (fault : PathFault)
  /-- The file is not well-formed UTF-8. -/
  | undecodable (e : Text.DecodeError)
  | compiler (pattern : Text)
  | undescribed (e : SExpr)
  deriving Repr

/-- Why the rules of a file could not be loaded. -/
inductive RuleLoadError where
  | escape (e : RuleEscape)
  | notRules (path : Text) (e : RuleFileError)
  deriving Repr

/-- What becomes of a fault of the file at a path. -/
def RuleLoadError.ofFault (p : Platform) (path : Text) : RuleFault → RuleLoadError
  | .crash pattern => escape (.compiler pattern)
  | .invalid e =>
    match e.shown? with
    | some shown => if p.describes shown then notRules path e else escape (.undescribed shown)
    | none => notRules path e

/-- The path of the rule file in normal form. An empty name is none. -/
def Config.rulesPath (c : Config) : Option Text :=
  match c.rulesFile with
  | none => none
  | some [] => none
  | some s => some (Files.normalPath s)

namespace RuleFile

variable (p : Platform)

/-- The rules of a file, from its path in normal form and what came of reading its bytes. -/
def ofBytes (path : Text) : Except OpenError (List UInt8) → Except RuleLoadError RuleTables
  | .error (.badPath fault) => .error (.escape (.badPath fault))
  | .error (.refused e) => .error (.notRules path (.unreadable e))
  | .ok bytes =>
    match Text.decode bytes with
    | .error e => .error (.escape (.undecodable e))
    | .ok s => (read p.compile (Text.lineFeeds s)).mapError (.ofFault p path)

/-- The rules of the file at a path. -/
def load (files : FileTree) (path : Text) : Except RuleLoadError RuleTables :=
  ofBytes p (Files.normalPath path) (p.read files (Files.normalPath path))

/-- The engine of the rule file of a configuration, or the default one, from what came of reading that file. -/
def engineOfBytes (c : Config) (bytes : Except OpenError (List UInt8)) : Except RuleLoadError Engine :=
  match c.rulesPath with
  | none => .ok Engine.defaults
  | some path => (ofBytes p path bytes).map (·.engine)

/-- The engine of a configuration in a tree of files. -/
def engineFor (files : FileTree) (c : Config) : Except RuleLoadError Engine :=
  engineOfBytes p c (p.read files (c.rulesPath.getD []))

end RuleFile

end CallHoist
