import CallHoist.Text.Quoted

/-!
# Failures

A failure has a kind, a numbered code, which carries its severity, the path of the file that it is about, if any, and
a message. The text of a failure is made of these.
-/

namespace CallHoist

inductive Severity where
  | fatal
  | error
  | warning
  deriving DecidableEq, Repr

namespace Severity

def name : Severity → String
  | fatal => "fatal"
  | error => "error"
  | warning => "warning"

def ofName? (s : Text) : Option Severity :=
  [fatal, error, warning].find? (fun v => v.name.toList == s)

end Severity

structure ErrorCode where
  number : Int
  name : Text
  severity : Severity
  deriving DecidableEq, Repr

namespace ErrorCode

/-- A number in at least four places, a minus sign being one of them. -/
def fourPlaces (n : Int) : Text :=
  let sign := if n < 0 then ['-'] else []
  let digits := Nat.toDigits 10 n.natAbs
  sign ++ List.replicate (4 - sign.length - digits.length) '0' ++ digits

def text (c : ErrorCode) : Text :=
  "MDLR-".toList ++ fourPlaces c.number

/-- A code written with its name, as for a listing. -/
def described (c : ErrorCode) : Text :=
  "ErrorCode(".toList ++ Text.quoted c.text ++ ", ".toList ++ c.name ++ ")".toList

/-- Two codes are the same if their numbers are. -/
def same (a b : ErrorCode) : Bool :=
  a.number == b.number

/-- The codes of a list, each number once. -/
def distinct : List ErrorCode → List ErrorCode
  | [] => []
  | c :: cs => if cs.any (same c) then distinct cs else c :: distinct cs

def inputUnreadable : ErrorCode := ⟨1, "INPUT_UNREADABLE".toList, .fatal⟩

def outputUnwritable : ErrorCode := ⟨2, "OUTPUT_UNWRITABLE".toList, .error⟩

def ruleFileSyntax : ErrorCode := ⟨1000, "RULE_FILE_SYNTAX".toList, .error⟩

def ruleFileForm : ErrorCode := ⟨1001, "RULE_FILE_FORM".toList, .error⟩

def ruleFileRegex : ErrorCode := ⟨1002, "RULE_FILE_REGEX".toList, .error⟩

def unknownGrammarRule : ErrorCode := ⟨2000, "UNKNOWN_GRAMMAR_RULE".toList, .error⟩

def internalError : ErrorCode := ⟨9000, "INTERNAL_ERROR".toList, .fatal⟩

def all : List ErrorCode :=
  [inputUnreadable, outputUnwritable, ruleFileSyntax, ruleFileForm, ruleFileRegex, unknownGrammarRule, internalError]

def ofName? (s : Text) : Option ErrorCode :=
  all.find? (fun c => c.name == s)

end ErrorCode

/-- What a failure is about. -/
inductive FailureKind where
  | general
  | unreadableInput
  | unwritableOutput
  | ruleFile
  | grammarRule
  deriving DecidableEq, Repr

namespace FailureKind

def defaultCode : FailureKind → ErrorCode
  | general => .internalError
  | unreadableInput => .inputUnreadable
  | unwritableOutput => .outputUnwritable
  | ruleFile => .ruleFileForm
  | grammarRule => .unknownGrammarRule

end FailureKind

structure Failure where
  kind : FailureKind
  code : ErrorCode
  path : Option Text
  message : Text
  deriving DecidableEq, Repr

namespace Failure

/-- A failure of a kind, with the code of that kind unless another is given. The message of a failure about a grammar
rule is made from the name of the rule. -/
def ofKind (kind : FailureKind) (about : Text) (code : Option ErrorCode) (path : Option Text) : Failure :=
  let message :=
    match kind with
    | .grammarRule => "Unknown grammar rule '".toList ++ about ++ "'".toList
    | _ => about
  ⟨kind, code.getD kind.defaultCode, path, message⟩

/-- A search was asked for by a rule that the grammar does not have. -/
def unknownRule (name : Text) : Failure :=
  ofKind .grammarRule name none none

/-- A failure in one line: the path, unless it is empty, the severity, the message and the code. -/
def text (f : Failure) : Text :=
  let place :=
    match f.path with
    | none => []
    | some [] => []
    | some p => p ++ ": ".toList
  place ++ f.code.severity.name.toList ++ ": ".toList ++ f.message ++ " [".toList ++ f.code.text ++ "]".toList

end Failure

end CallHoist
