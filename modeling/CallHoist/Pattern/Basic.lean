import CallHoist.Text.Alphanumeric
import CallHoist.Text.Basic
import CallHoist.Text.Blank
import CallHoist.Text.DecimalDigit
import CallHoist.Text.Lowercase

/-!
# Patterns

Regular expressions: tests of one character, anchors, sequence, choice and repetition. This file has the type of
patterns and the meaning of its leaves; how a pattern is tried on a text is in `Pattern.Matching`, how it is written in
`Pattern.Reader`.
-/

namespace CallHoist

/-- What holds for a whole pattern. -/
structure Flags where
  /-- Letters that are the same but for case match each other. -/
  ignoreCase : Bool
  /-- The dot matches a line feed too. -/
  dotAll : Bool
  deriving DecidableEq, Repr

inductive Category where
  | digit
  | space
  | word
  deriving DecidableEq, Repr

namespace Category

def holds : Category → Char → Bool
  | digit => isDecimalDigit
  | space => isSpacing
  | word => isWordLike

end Category

/-- A member of a character class. -/
inductive ClassItem where
  | single (c : Char)
  | range (lo hi : Char)
  | category (k : Category) (negated : Bool)
  deriving DecidableEq, Repr

namespace ClassItem

/-- Whether a character is meant by a class item. Without regard to case a letter is meant if a variant of it is, and
a category is that of the lower-case form. -/
def holds (f : Flags) (item : ClassItem) (c : Char) : Bool :=
  match item with
  | single x =>
    if f.ignoreCase then (Text.caseVariants c.toNat).contains x.toNat else c == x
  | range lo hi =>
    if f.ignoreCase then (Text.caseVariants c.toNat).any fun n => lo.toNat ≤ n && n ≤ hi.toNat
    else lo ≤ c && c ≤ hi
  | category k negated =>
    k.holds (if f.ignoreCase then Char.ofNat (Text.lowercase c.toNat) else c) != negated

end ClassItem

/-- A test of one character. -/
inductive CharTest where
  /-- The dot. -/
  | any
  | oneOf (negated : Bool) (items : List ClassItem)
  deriving DecidableEq, Repr

namespace CharTest

def holds (f : Flags) (t : CharTest) (c : Char) : Bool :=
  match t with
  | any => f.dotAll || c != '\n'
  | oneOf negated items => items.any (·.holds f c) != negated

end CharTest

/-- A place in a text: its offset, the character before it and the characters from there on. -/
structure Cursor where
  offset : Nat
  before : Option Char
  rest : Text
  deriving DecidableEq, Repr

namespace Cursor

def start (s : Text) : Cursor := ⟨0, none, s⟩

/-- Past one character that passes a test. -/
def past? (c : Cursor) (test : Char → Bool) : Option Cursor :=
  match c.rest with
  | [] => none
  | x :: rest => if test x then some ⟨c.offset + 1, some x, rest⟩ else none

/-- Whether a word begins or ends here. -/
def atEdge (c : Cursor) : Bool :=
  (c.before.map isWordLike).getD false != (c.rest.head?.map isWordLike).getD false

def ofEmpty (c : Cursor) : Bool :=
  c.before.isNone && c.rest.isEmpty

end Cursor

/-- A test of a place. -/
inductive Anchor where
  | start
  /-- The end of the text, or before a line feed that ends it. -/
  | lastLine
  | stop
  | wordEdge
  | noWordEdge
  deriving DecidableEq, Repr

namespace Anchor

/-- Whether a place passes. An empty text has no place that is an edge of a word and none that is not. -/
def holds : Anchor → Cursor → Bool
  | start, c => c.before.isNone
  | lastLine, c => c.rest.isEmpty || c.rest == ['\n']
  | stop, c => c.rest.isEmpty
  | wordEdge, c => !c.ofEmpty && c.atEdge
  | noWordEdge, c => !c.ofEmpty && !c.atEdge

end Anchor

/-- How a repetition is taken. -/
inductive Appetite where
  /-- As often as it can be, giving back where the rest fails. -/
  | greedy
  /-- As seldom as it can be. -/
  | lazy
  /-- As often as it can be, giving nothing back. -/
  | possessive
  deriving DecidableEq, Repr

inductive Pattern where
  | empty
  | one (t : CharTest)
  | anchor (a : Anchor)
  | cat (p q : Pattern)
  | alt (p q : Pattern)
  /-- A pattern between parentheses. -/
  | group (p : Pattern)
  /-- At least `least` times, and at most `most` times if there is a bound. -/
  | rep (how : Appetite) (least : Nat) (most : Option Nat) (p : Pattern)
  deriving DecidableEq, Repr

namespace Pattern

/-- A given character. -/
def single (c : Char) : Pattern :=
  one (.oneOf false [.single c])

/-- The characters of a given text, one after another. -/
def literal (s : Text) : List Pattern :=
  s.map single

/-- Any number of characters, as many as can be, but no line feed unless the flags say so. -/
def anything : Pattern :=
  rep .greedy 0 none (one .any)

/-- A pattern, or nothing if it does not match. -/
def optional (p : Pattern) : Pattern :=
  rep .greedy 0 (some 1) p

def catAll : List Pattern → Pattern
  | [] => empty
  | [p] => p
  | p :: q :: r => cat p (catAll (q :: r))

def altAll : List Pattern → Pattern
  | [] => empty
  | [p] => p
  | p :: q :: r => alt p (altAll (q :: r))

end Pattern

/-- A pattern as it was written, with what was read from it. -/
structure Regex where
  source : Text
  flags : Flags
  body : Pattern
  deriving DecidableEq, Repr

end CallHoist
