import CallHoist.Grammar.Peg
import CallHoist.Text.Blank

/-!
# The rules of the expression language

Qualified names, literals, signed arithmetic chains, ternaries and calls. The arguments of a call are expressions
without calls in them, so a call that matches is an innermost one.

The two alternatives of an expression overlap, as an arithmetic chain stands at the front of each ternary. `Order`
says which is tried first; with the chain first, an argument such as `c ? a : b` ends behind `c`.
-/

namespace CallHoist.Grammar

/-- Which alternative of an expression is tried first. -/
inductive Order where
  | ternaryFirst
  | chainFirst
  deriving DecidableEq, Repr

def isLetter (c : Char) : Bool :=
  ('A' ≤ c && c ≤ 'Z') || ('a' ≤ c && c ≤ 'z')

def isDigit (c : Char) : Bool :=
  '0' ≤ c && c ≤ '9'

/-- The characters that begin an identifier. -/
def isNameStart (c : Char) : Bool :=
  isLetter c || c == '_'

/-- The characters that go on an identifier. -/
def isWordChar (c : Char) : Bool :=
  isNameStart c || isDigit c

def isSign (c : Char) : Bool :=
  c == '+' || c == '-'

def isOperator (c : Char) : Bool :=
  c == '*' || c == '+' || c == '/' || c == '-'

/-- The rules by which a text can be searched. -/
inductive Rule where
  | functionCall
  | condExpression
  | arguments
  | expression
  | chain
  | ternary
  | signedTerm
  | term
  | pExpression
  | sExpression
  | operand
  | qualifiedName
  | scope
  | identifier
  | word
  | constant
  | string
  | number
  | sign
  | operator
  | blanks
  deriving DecidableEq, Repr

open Peg

def blanks : Peg := star (one isWhiteSpace)

def sign : Peg := one isSign

def operator : Peg := one isOperator

def number : Peg :=
  all [one isDigit, star (one isDigit), opt (lit ['.']), star (one isDigit), opt (lit ['f'])]

def string : Peg :=
  all [lit ['"'], star (one (· != '"')), lit ['"']]

def constant : Peg := alt string number

def word : Peg := seq (one isWordChar) (star (one isWordChar))

def identifier : Peg := seq (one isNameStart) (star (one isWordChar))

/-- One step of a qualified name, with the scope operator behind it. -/
def scope : Peg :=
  all [opt (seq (lit [':', ':']) blanks), word, blanks, lit [':', ':'], blanks]

def qualifiedName : Peg :=
  all [star scope, identifier, star (all [blanks, lit ['.'], blanks, identifier])]

/-- An expression with an optional sign in front of it. -/
def signed (a : Peg) : Peg := seq (opt (seq sign blanks)) a

def operand : Peg := signed (alt qualifiedName constant)

def sExpression : Peg :=
  signed (seq operand (star (all [blanks, operator, blanks, operand])))

def pExpression : Peg :=
  signed (all [lit ['('], blanks, sExpression, blanks, lit [')']])

def term : Peg := alt sExpression pExpression

def signedTerm : Peg := signed term

def chain : Peg :=
  seq signedTerm (star (all [blanks, operator, blanks, signedTerm]))

def ternary : Peg :=
  all [signedTerm, blanks, lit ['?'], blanks, signedTerm, blanks, lit [':'], blanks, signedTerm]

def expression : Order → Peg
  | .ternaryFirst => alt ternary chain
  | .chainFirst => alt chain ternary

def arguments (o : Order) : Peg :=
  seq (expression o) (star (all [blanks, lit [','], blanks, expression o]))

def functionCall (o : Order) : Peg :=
  all [qualifiedName, blanks, lit ['('], blanks, opt (arguments o), blanks, lit [')']]

namespace Rule

/-- The parsing expression of a rule. -/
def peg (o : Order) : Rule → Peg
  | functionCall => Grammar.functionCall o
  | condExpression => Grammar.ternary
  | arguments => Grammar.arguments o
  | expression => Grammar.expression o
  | chain => Grammar.chain
  | ternary => Grammar.ternary
  | signedTerm => Grammar.signedTerm
  | term => Grammar.term
  | pExpression => Grammar.pExpression
  | sExpression => Grammar.sExpression
  | operand => Grammar.operand
  | qualifiedName => Grammar.qualifiedName
  | scope => Grammar.scope
  | identifier => Grammar.identifier
  | word => Grammar.word
  | constant => Grammar.constant
  | string => Grammar.string
  | number => Grammar.number
  | sign => Grammar.sign
  | operator => Grammar.operator
  | blanks => Grammar.blanks

/-- The name by which a rule is asked for. -/
def name : Rule → String
  | functionCall => "function_call"
  | condExpression => "cond_expression"
  | arguments => "arguments"
  | expression => "expression"
  | chain => "chain"
  | ternary => "ternary"
  | signedTerm => "signed_term"
  | term => "term"
  | pExpression => "p_expression"
  | sExpression => "s_expression"
  | operand => "operand"
  | qualifiedName => "variable"
  | scope => "namespace"
  | identifier => "identifier"
  | word => "word"
  | constant => "constant"
  | string => "string"
  | number => "number"
  | sign => "sign"
  | operator => "operator"
  | blanks => "_"

def all : List Rule :=
  [functionCall, condExpression, arguments, expression, chain, ternary, signedTerm, term, pExpression, sExpression,
    operand, qualifiedName, scope, identifier, word, constant, string, number, sign, operator, blanks]

def ofName? (s : Text) : Option Rule :=
  all.find? (fun r => r.name.toList == s)

end Rule

end CallHoist.Grammar
