import CallHoist.Failure
import CallHoist.Files
import CallHoist.Inference.Defaults
import CallHoist.SExpr.Reader

/-!
# Rule files

A rule file is one list, `(rules ...)`, of forms: `(type PATTERN TYPE)` adds a type rule, `(ignore NAME PATTERN)` an
ignore rule, and `(inherit-defaults)` the default rules behind all others. The forms are gone through in their order,
each with the table of those before it, and the first that cannot be read counts.
-/

namespace CallHoist

/-- The rules of a file. -/
structure RuleTables where
  own : Engine
  inheritDefaults : Bool

namespace RuleTables

def empty : RuleTables := ⟨⟨[], []⟩, false⟩

/-- The engine of a file, with the default rules behind its own if it inherits them. -/
def engine (t : RuleTables) : Engine :=
  if t.inheritDefaults then t.own.append Engine.defaults else t.own

def addType (t : RuleTables) (r : TypeRule) : RuleTables :=
  { t with own := { t.own with typeRules := t.own.typeRules ++ [r] } }

def addIgnore (t : RuleTables) (r : IgnoreRule) : RuleTables :=
  { t with own := { t.own with ignoreRules := t.own.ignoreRules ++ [r] } }

def inherit (t : RuleTables) : RuleTables :=
  { t with inheritDefaults := true }

/-- The rules of one table, and behind them those of another. -/
def append (t u : RuleTables) : RuleTables :=
  ⟨t.own.append u.own, t.inheritDefaults || u.inheritDefaults⟩

end RuleTables

/-- What is wrong with a rule file. -/
inductive RuleFileError where
  | unreadable (e : FileError)
  | notRead (e : SExpr.ReadError)
  | notRules (got : SExpr)
  | notForm (got : SExpr)
  | emptyForm
  | notSymbol (got : SExpr)
  | unknownForm (tag : Text)
  | wrongArity (tag : Text) (takes : Nat) (form : List SExpr)
  | notString (got : SExpr)
  /-- A pattern in a form of a tag is none, for a reason that is told. -/
  | badPattern (tag : Text) (reason : Text)
  deriving Repr

namespace RuleFileError

def code : RuleFileError → ErrorCode
  | notRead _ => .ruleFileSyntax
  | badPattern _ _ => .ruleFileRegex
  | _ => .ruleFileForm

/-- A form of a tag, in short. -/
def form (tag : Text) : Text :=
  ['('] ++ tag ++ " ...)".toList

/-- A value with the word for its type. -/
def typed (e : SExpr) : Text :=
  e.typeName.toList ++ ": ".toList ++ e.described

def message : RuleFileError → Text
  | unreadable e => "Cannot read rule file: ".toList ++ e.message
  | notRead e => "Not a valid S-expression: ".toList ++ e.message.getD []
  | notRules got => "Expected (rules ...), got ".toList ++ got.described
  | notForm got => "Expected a rule form (tag ...), got ".toList ++ got.described
  | emptyForm => "Unexpected empty form ()".toList
  | notSymbol got => "Expected symbol, got ".toList ++ typed got
  | unknownForm tag => "Unknown rule form: ".toList ++ form tag
  | wrongArity tag takes items =>
    form tag ++ " takes ".toList ++ Text.decimal takes ++ " argument(s), got ".toList
      ++ Text.decimal (items.length - 1 : Nat) ++ ": ".toList ++ (SExpr.list items).described
  | notString got => "Expected string, got ".toList ++ typed got
  | badPattern tag reason => "Invalid regex in ".toList ++ form tag ++ ": ".toList ++ reason

/-- The expression that a message shows. -/
def shown? : RuleFileError → Option SExpr
  | notRules got => some got
  | notForm got => some got
  | notSymbol got => some got
  | wrongArity _ _ items => some (.list items)
  | notString got => some got
  | _ => none

/-- The failure of a rule file, with its path if it has one. -/
def failure (path : Option Text) (e : RuleFileError) : Failure :=
  ⟨.ruleFile, e.code, path, e.message⟩

end RuleFileError

/-- Why the reading of a rule file ends: the file is at fault, or the compiler breaks off at a pattern of it. -/
inductive RuleFault where
  | invalid (e : RuleFileError)
  | crash (pattern : Text)
  deriving Repr

/-- What a pattern that is not compiled makes of a form of a tag. -/
def RuleFault.ofCompile (tag pattern : Text) : CompileFailure → RuleFault
  | .invalid reason => invalid (.badPattern tag reason)
  | .crash => crash pattern

namespace RuleFile

/-- The tag of a form, by its first item. -/
def tag : List SExpr → Except RuleFault Text
  | [] => .error (.invalid .emptyForm)
  | .symbol name :: _ => .ok name
  | e :: _ => .error (.invalid (.notSymbol e))

/-- An argument, which is a string or a symbol. -/
def argument : SExpr → Except RuleFault Text
  | .string s => .ok s
  | .symbol name => .ok name
  | e => .error (.invalid (.notString e))

/-- The two arguments of a form. -/
def arguments (tag : Text) : List SExpr → Except RuleFault (Text × Text)
  | [_, a, b] => do return (← argument a, ← argument b)
  | items => .error (.invalid (.wrongArity tag 2 items))

variable (compile : Compiler)

/-- Puts the rules of a form behind those of the forms before it. -/
def addForm (t : RuleTables) : SExpr → Except RuleFault RuleTables
  | .list items => do
    let name ← tag items
    if name == "type".toList then
      let (pattern, typeName) ← arguments name items
      let rule ← (TypeRule.read compile pattern typeName).mapError (.ofCompile name pattern)
      return t.addType rule
    else if name == "ignore".toList then
      let (label, pattern) ← arguments name items
      let rule ← (IgnoreRule.read compile label pattern).mapError (.ofCompile name pattern)
      return t.addIgnore rule
    else if name == "inherit-defaults".toList then
      if items.length = 1 then return t.inherit else throw (.invalid (.wrongArity name 0 items))
    else throw (.invalid (.unknownForm name))
  | e => .error (.invalid (.notForm e))

/-- Puts the rules of forms behind those of the forms before them, one form after another. -/
def addForms (t : RuleTables) (forms : List SExpr) : Except RuleFault RuleTables :=
  forms.foldlM (addForm compile) t

/-- The rules of the one expression of a file. -/
def ofSExpr : SExpr → Except RuleFault RuleTables
  | .list [] => .error (.invalid (.notRules (.list [])))
  | .list items => do
    if (← tag items) == "rules".toList then addForms compile .empty items.tail
    else throw (.invalid (.notRules (.list items)))
  | e => .error (.invalid (.notRules e))

/-- Reads the text of a rule file. -/
def read (s : Text) : Except RuleFault RuleTables := do
  let e ← (SExpr.read s).mapError fun e => .invalid (.notRead e)
  ofSExpr compile e

end RuleFile

end CallHoist
