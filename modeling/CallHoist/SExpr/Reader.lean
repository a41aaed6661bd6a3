import CallHoist.SExpr.Basic
import CallHoist.Text.Blank

/-!
# Reading S-expressions

A text is cut into tokens, and the tokens are put together to expressions with a stack of the brackets that are open.
Faults of both kinds count in the order of the text. A fault inside a token is a token itself, so it is met only if all
before it can be put together.
-/

namespace CallHoist.SExpr

inductive Bracket where
  | round
  | square
  deriving DecidableEq, Repr

namespace Bracket

def closer : Bracket → Char
  | round => ')'
  | square => ']'

/-- The value of a list in such brackets. -/
def enclose : Bracket → List SExpr → SExpr
  | round => list
  | square => brackets

end Bracket

inductive ReadError where
  /-- Where `closer` was due there is another closing bracket, or nothing. -/
  | notClosed (closer : Char) (got : Option Char)
  /-- A closing bracket that closes nothing; `rest` is the text from there on. -/
  | tooManyClosed (rest : Text)
  /-- An apostrophe at an offset, with no expression behind it. -/
  | nothingQuoted (offset : Nat)
  | unclosedString
  | danglingEscape
  /-- There are several expressions, or none. -/
  | notOne
  deriving DecidableEq, Repr

/-- The message of an error; none for those that have no words of their own. -/
def ReadError.message : ReadError → Option Text
  | notClosed closer got =>
    let got :=
      match got with
      | some c => Text.quoted [c]
      | none => "None".toList
    some ("Not enough closing brackets. Expected ".toList ++ Text.quoted [closer]
      ++ " to be the last letter in the sexp. Got: ".toList ++ got)
  | tooManyClosed rest =>
    some ("Too many closing brackets. Expected no character left in the sexp. Got: ".toList ++ Text.quoted rest)
  | nothingQuoted offset =>
    some ("No s-exp is found after an apostrophe at position ".toList ++ Text.decimal offset)
  | _ => none

inductive Token where
  | opening (b : Bracket)
  /-- A closing bracket, with the text from there on. -/
  | closing (b : Bracket) (rest : Text)
  | apostrophe (offset : Nat)
  | value (e : SExpr)
  | fault (e : ReadError)
  deriving Repr

/-- Where in a token, if in any, a place of the text is. The characters read so far come last first. -/
inductive Within where
  | nothing
  | comment
  | string (read : Text)
  | stringEscape (read : Text)
  | atom (read : Text)
  | atomEscape (read : Text)
  deriving DecidableEq, Repr

/-- What an escape in a string stands for. An unknown escape stands for itself. -/
def stringEscape : Char → Text
  | '\\' => ['\\']
  | '"' => ['"']
  | 'b' => ['\x08']
  | 'f' => ['\x0c']
  | 'n' => ['\n']
  | 'r' => ['\r']
  | 't' => ['\t']
  | c => ['\\', c]

/-- The characters that lose their backslash in an atom. -/
def atomEscapes : Text :=
  "\\'\x60\"()[] ,?;#".toList

/-- What an escape in an atom stands for. An unknown escape stands for itself. -/
def atomEscape (c : Char) : Text :=
  if atomEscapes.contains c then [c] else ['\\', c]

/-- Whether a character ends an atom. -/
def endsAtom (c : Char) : Bool :=
  isAsciiSpace c || "()[]\";".toList.contains c

/-- The token of a character outside all tokens, if it is one by itself, and where the place behind it is. -/
def begin (offset : Nat) (c : Char) (rest : Text) : List Token × Within :=
  match c with
  | '(' => ([.opening .round], .nothing)
  | '[' => ([.opening .square], .nothing)
  | ')' => ([.closing .round (c :: rest)], .nothing)
  | ']' => ([.closing .square (c :: rest)], .nothing)
  | '\'' => ([.apostrophe offset], .nothing)
  | '"' => ([], .string [])
  | ';' => ([], .comment)
  | '\\' => ([], .atomEscape [])
  | _ => ([], if isAsciiSpace c then .nothing else .atom [c])

/-- The tokens that a character ends or is, and where the place behind it is. -/
def next (w : Within) (offset : Nat) (c : Char) (rest : Text) : List Token × Within :=
  match w with
  | .nothing => begin offset c rest
  | .comment => ([], if c == '\n' then .nothing else .comment)
  | .string read =>
    if c == '"' then ([.value (.string read.reverse)], .nothing)
    else if c == '\\' then ([], .stringEscape read)
    else ([], .string (c :: read))
  | .stringEscape read => ([], .string ((stringEscape c).reverse ++ read))
  | .atom read =>
    if endsAtom c then
      let (ts, w) := begin offset c rest
      (.value (ofAtom read.reverse) :: ts, w)
    else if c == '\\' then ([], .atomEscape read)
    else ([], .atom (c :: read))
  | .atomEscape read => ([], .atom ((atomEscape c).reverse ++ read))

/-- The tokens that the end of the text ends. -/
def Within.atEnd : Within → List Token
  | nothing => []
  | comment => []
  | string _ => [.fault .unclosedString]
  | stringEscape _ => [.fault .danglingEscape]
  | atom read => [.value (ofAtom read.reverse)]
  | atomEscape _ => [.fault .danglingEscape]

/-- The tokens of a text from an offset on. -/
def tokensFrom (w : Within) (offset : Nat) : Text → List Token
  | [] => w.atEnd
  | c :: rest =>
    (next w offset c rest).1 ++ tokensFrom (next w offset c rest).2 (offset + 1) rest

/-- What is read of a list: the items, the last first, and the offsets of the apostrophes before the next item, the
last first. -/
structure Items where
  read : List SExpr
  apostrophes : List Nat

namespace Items

def none : Items := ⟨[], []⟩

/-- Takes an item behind the apostrophes before it. -/
def add (items : Items) (e : SExpr) : Items :=
  ⟨items.apostrophes.foldl (fun e _ => quoted e) e :: items.read, []⟩

end Items

/-- Puts tokens together. `outer` holds the brackets that are open with what is read of the lists around them, the
innermost first. -/
def ofTokens (items : Items) (outer : List (Bracket × Items)) : List Token → Except ReadError (List SExpr)
  | [] =>
    match items.apostrophes, outer with
    | offset :: _, _ => .error (.nothingQuoted offset)
    | [], (b, _) :: _ => .error (.notClosed b.closer .none)
    | [], [] => .ok items.read.reverse
  | .fault e :: _ => .error e
  | .value e :: rest => ofTokens (items.add e) outer rest
  | .apostrophe offset :: rest => ofTokens { items with apostrophes := offset :: items.apostrophes } outer rest
  | .opening b :: rest => ofTokens .none ((b, items) :: outer) rest
  | .closing b text :: rest =>
    match items.apostrophes, outer with
    | offset :: _, _ => .error (.nothingQuoted offset)
    | [], [] => .error (.tooManyClosed text)
    | [], (a, around) :: outer =>
      if a = b then ofTokens (around.add (a.enclose items.read.reverse)) outer rest
      else .error (.notClosed a.closer (some b.closer))

/-- All expressions of a text. -/
def readAll (s : Text) : Except ReadError (List SExpr) :=
  ofTokens .none [] (tokensFrom .nothing 0 s)

/-- The one expression of a text. -/
def read (s : Text) : Except ReadError SExpr :=
  match readAll s with
  | .ok [e] => .ok e
  | .ok _ => .error .notOne
  | .error e => .error e

end CallHoist.SExpr
