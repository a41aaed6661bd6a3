import CallHoist.Number.Literal
import CallHoist.Number.Shortest
import CallHoist.Text.Quoted

/-!
# S-expressions

The values of a rule file, and how one is described in a message.
-/

namespace CallHoist

inductive SExpr where
  | symbol (name : Text)
  | string (s : Text)
  | int (n : Int)
  | double (x : Double)
  | true
  | list (items : List SExpr)
  /-- A list in square brackets. -/
  | brackets (items : List SExpr)
  /-- An expression behind an apostrophe. -/
  | quoted (e : SExpr)
  deriving Repr

namespace SExpr

/-- The word for the type of a value. -/
def typeName : SExpr → String
  | symbol _ => "Symbol"
  | string _ => "str"
  | int _ => "int"
  | double _ => "float"
  | true => "bool"
  | list _ => "list"
  | brackets _ => "Brackets"
  | quoted _ => "Quoted"

mutual

/-- The description of a value. -/
def described : SExpr → Text
  | symbol name => "Symbol(".toList ++ Text.quoted name ++ [')']
  | string s => Text.quoted s
  | int n => Text.decimal n
  | double x => x.text
  | true => "True".toList
  | list items => describedAll items
  | brackets items => "Brackets(I=".toList ++ describedAll items ++ [')']
  | quoted e => "Quoted(".toList ++ described e ++ [')']

def describedAll (items : List SExpr) : Text :=
  ['['] ++ Text.joined ", ".toList (describedEach items) ++ [']']

def describedEach : List SExpr → List Text
  | [] => []
  | e :: rest => described e :: describedEach rest

end

/-- The value of an atom. Two names are not symbols, and what reads as a number is one. -/
def ofAtom (s : Text) : SExpr :=
  if s == "nil".toList then list []
  else if s == ['t'] then true
  else
    match Literal.int? s with
    | some n => int n
    | none =>
      match Literal.double? s with
      | some x => double x
      | none => symbol s

end SExpr

end CallHoist
