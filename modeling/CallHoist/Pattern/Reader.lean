import CallHoist.Pattern.Basic

/-!
# Reading a pattern

A written pattern is a list of tokens, a token being a character or a character behind a backslash. They are read from
left to right with one token of look-ahead, and the first fault counts. A backslash that ends the text escapes nothing;
it is looked at when the token before it is taken, so that token is marked.

Reading keeps a level for each parenthesis that is open: the branches that are finished and the items of the one that
is not, both with the last first.

Not all patterns are covered: there is no look-ahead or look-behind, no reference to a group, no name of a group, no
condition, no atomic group and no comment, no escape of a character by its number or name, and of the flags only `i`
and `s`, for the whole pattern. What is not covered is told apart from what is no pattern
(`PatternProblem.notCovered`). Groups can be nested to any depth.
-/

namespace CallHoist

inductive PatternProblem where
  | unclosedGroup
  | unbalanced
  | unclosedClass
  | nothingToRepeat
  | multipleRepeat
  | leastAboveMost
  | danglingEscape
  | badEscape (c : Char)
  | badRange (lo hi : Text)
  | unknownExtension (t : Text)
  | unexpectedEnd
  | misplacedFlags
  | repeatTooGreat
  /-- What is written may be a pattern, but none that is read here. -/
  | notCovered
  deriving DecidableEq, Repr

/-- A fault at an offset of a written pattern. -/
structure PatternError where
  pattern : Text
  offset : Nat
  problem : PatternProblem
  deriving DecidableEq, Repr

def PatternProblem.message : PatternProblem → Text
  | unclosedGroup => "missing ), unterminated subpattern".toList
  | unbalanced => "unbalanced parenthesis".toList
  | unclosedClass => "unterminated character set".toList
  | nothingToRepeat => "nothing to repeat".toList
  | multipleRepeat => "multiple repeat".toList
  | leastAboveMost => "min repeat greater than max repeat".toList
  | danglingEscape => "bad escape (end of pattern)".toList
  | badEscape c => "bad escape ".toList ++ ['\\', c]
  | badRange lo hi => "bad character range ".toList ++ lo ++ ['-'] ++ hi
  | unknownExtension t => "unknown extension ?".toList ++ t
  | unexpectedEnd => "unexpected end of pattern".toList
  | misplacedFlags => "global flags not at the start of the expression".toList
  | repeatTooGreat => "the repetition number is too large".toList
  | notCovered => "not covered".toList

/-- The problem and its place: the offset, and for a pattern of several lines the line and the column too, which
count from one. -/
def PatternError.message (e : PatternError) : Text :=
  let place := e.problem.message ++ " at position ".toList ++ Text.decimal e.offset
  if e.pattern.contains '\n' then
    let before := e.pattern.take e.offset
    let column := (before.reverse.takeWhile (· != '\n')).length + 1
    place ++ " (line ".toList ++ Text.decimal (before.count '\n' + 1 : Nat) ++ ", column ".toList
      ++ Text.decimal column ++ [')']
  else place

namespace Pattern

inductive Token where
  | plain (c : Char)
  | escaped (c : Char)
  /-- The token before a backslash that escapes nothing, by its width; or that backslash, if it is all there is. -/
  | cut (width : Nat) (closes : Bool)
  deriving DecidableEq, Repr

namespace Token

def width : Token → Nat
  | plain _ => 1
  | escaped _ => 2
  | cut w _ => w

/-- A token as it was written. -/
def text : Token → Text
  | plain c => [c]
  | escaped c => ['\\', c]
  | cut _ _ => []

def ofText : Text → List Token
  | [] => []
  | ['\\'] => [cut 0 false]
  | '\\' :: c :: s => if s == ['\\'] then [cut 2 false] else escaped c :: ofText s
  | c :: s => if s == ['\\'] then [cut 1 (c == ')')] else plain c :: ofText s

end Token

/-- A fault of reading: where, and what. -/
abbrev Fault := Nat × PatternProblem

def isAsciiLetter (c : Char) : Bool :=
  ('A' ≤ c && c ≤ 'Z') || ('a' ≤ c && c ≤ 'z')

/-- The category that a letter names behind a backslash. -/
def category? : Char → Option ClassItem
  | 'd' => some (.category .digit false)
  | 'D' => some (.category .digit true)
  | 's' => some (.category .space false)
  | 'S' => some (.category .space true)
  | 'w' => some (.category .word false)
  | 'W' => some (.category .word true)
  | _ => none

/-- The control character that a letter names behind a backslash. -/
def control? : Char → Option Char
  | 'a' => some '\x07'
  | 'f' => some '\x0c'
  | 'n' => some '\n'
  | 'r' => some '\r'
  | 't' => some '\t'
  | 'v' => some '\x0b'
  | _ => none

def anchor? : Char → Option Anchor
  | 'A' => some .start
  | 'b' => some .wordEdge
  | 'B' => some .noWordEdge
  | 'Z' => some .stop
  | _ => none

/-- Whether an escape is the beginning of a longer one: that of a character by its number or name, or of a group. -/
def opensEscape (c : Char) : Bool :=
  ('0' ≤ c && c ≤ '9') || "NUux".toList.contains c

/-- The character that an escape stands for. A letter stands for nothing unless it names a control character. -/
def escapedChar (offset : Nat) (c : Char) : Except Fault Char :=
  match control? c with
  | some d => .ok d
  | none =>
    if opensEscape c then .error (offset, .notCovered)
    else if isAsciiLetter c then .error (offset, .badEscape c)
    else .ok c

/-- An escape outside a character class. -/
def escape (offset : Nat) (c : Char) : Except Fault Pattern :=
  match category? c, anchor? c with
  | some k, _ => .ok (.one (.oneOf false [k]))
  | none, some a => .ok (.anchor a)
  | none, none => (escapedChar offset c).map .single

/-- A member of a character class. There `\b` is the backspace. -/
def classMember (offset : Nat) : Token → Except Fault ClassItem
  | .plain c => .ok (.single c)
  | .cut w _ => .error (offset + w, .danglingEscape)
  | .escaped c =>
    match category? c with
    | some k => .ok k
    | none => if c == 'b' then .ok (.single '\x08') else (escapedChar offset c).map .single

/-- The range from one member to another, if both are single characters in order. -/
def classRange? : ClassItem → ClassItem → Option ClassItem
  | .single lo, .single hi => if lo ≤ hi then some (.range lo hi) else none
  | _, _ => none

/-- The members of a character class up to its closing bracket, and the number of tokens read. `members` and `taken`
are those so far, `opened` is the offset of the opening bracket. A closing bracket is a member if it comes first. -/
def classMembers (opened : Nat) (members : List ClassItem) (taken offset : Nat) :
    List Token → Except Fault (List ClassItem × Nat)
  | [] => .error (opened, .unclosedClass)
  | t :: rest =>
    if t == .plain ']' && !members.isEmpty then .ok (members.reverse, taken + 1)
    else
      match classMember offset t, rest with
      | .error e, _ => .error e
      | .ok _, [.plain '-'] => .error (opened, .unclosedClass)
      | .ok a, .plain '-' :: .plain ']' :: _ => .ok ((.single '-' :: a :: members).reverse, taken + 3)
      | .ok a, .plain '-' :: u :: rest =>
        match classMember (offset + t.width + 1) u with
        | .error e => .error e
        | .ok b =>
          match classRange? a b with
          | none => .error (offset, .badRange t.text u.text)
          | some r => classMembers opened (r :: members) (taken + 3) (offset + t.width + 1 + u.width) rest
      | .ok a, rest => classMembers opened (a :: members) (taken + 1) (offset + t.width) rest

/-- A character class behind its opening bracket, and the number of tokens read. -/
def charClass (opened : Nat) : List Token → Except Fault (CharTest × Nat)
  | .plain '^' :: rest => (classMembers opened [] 1 (opened + 2) rest).map fun (items, n) => (.oneOf true items, n)
  | ts => (classMembers opened [] 0 (opened + 1) ts).map fun (items, n) => (.oneOf false items, n)

/-- The decimal digits at the front, and what is behind them. -/
def digits : List Token → Text × List Token
  | .plain c :: rest =>
    if '0' ≤ c && c ≤ '9' then
      let (ds, rest) := digits rest
      (c :: ds, rest)
    else ([], .plain c :: rest)
  | ts => ([], ts)

/-- The number that decimal digits write; none without digits. -/
def number? : Text → Option Nat
  | [] => none
  | ds => some (ds.foldl (fun n d => 10 * n + (d.toNat - '0'.toNat)) 0)

/-- The bounds of a repetition between braces, behind the opening one, and what is behind them. One number is both
bounds; with a comma either may be missing. -/
def bounds? (ts : List Token) : Option (Nat × Option Nat × List Token) :=
  match digits ts with
  | (lo, .plain ',' :: rest) =>
    match digits rest with
    | (hi, .plain '}' :: rest) => some ((number? lo).getD 0, number? hi, rest)
    | _ => none
  | (lo, .plain '}' :: rest) => (number? lo).map fun n => (n, some n, rest)
  | _ => none

/-- The bounds that a quantifier gives, and the number of tokens behind the first that it takes; none if the token is no
quantifier. A brace that bounds nothing stands for itself. -/
def quantifier? (c : Char) (rest : List Token) : Option (Nat × Option Nat × Nat) :=
  match c with
  | '*' => some (0, none, 0)
  | '+' => some (1, none, 0)
  | '?' => some (0, some 1, 0)
  | '{' => (bounds? rest).map fun (lo, hi, behind) => (lo, hi, rest.length - behind.length)
  | _ => none

/-- The bound below which the numbers of a quantifier have to be. -/
def maxRepeat : Nat := 4294967295

/-- What is read between one parenthesis and the place reached. -/
structure Level where
  /-- The offset of the parenthesis. -/
  opened : Nat
  branches : List Pattern
  items : List Pattern

namespace Level

def pattern (l : Level) : Pattern :=
  altAll (catAll l.items.reverse :: l.branches).reverse

def add (l : Level) (p : Pattern) : Level :=
  { l with items := p :: l.items }

def branch (l : Level) : Level :=
  { l with branches := catAll l.items.reverse :: l.branches, items := [] }

/-- Repeats the last item. There has to be one, and it must be neither an anchor nor a repetition itself. -/
def repeatLast (l : Level) (offset : Nat) (how : Appetite) (least : Nat) (most : Option Nat) : Except Fault Level :=
  match l.items with
  | [] => .error (offset, .nothingToRepeat)
  | .anchor _ :: _ => .error (offset, .nothingToRepeat)
  | .rep .. :: _ => .error (offset, .multipleRepeat)
  | p :: items => .ok { l with items := .rep how least most p :: items }

end Level

/-- The flags that letters name up to a closing parenthesis, and the number of tokens read; none without a letter. -/
def flagLetters (f : Flags) (taken : Nat) : List Token → Option (Flags × Nat)
  | .plain 'i' :: rest => flagLetters { f with ignoreCase := true } (taken + 1) rest
  | .plain 's' :: rest => flagLetters { f with dotAll := true } (taken + 1) rest
  | .plain ')' :: _ => if taken = 0 then none else some (f, taken + 1)
  | _ => none

/-- What can be written behind a parenthesis and a question mark besides what is read. -/
def otherExtensions : Text :=
  "P<=!#(>-aiLmstux".toList

/-- The flags, the level being read and those around it. -/
structure Open where
  flags : Flags
  level : Level
  outer : List Level

namespace Open

def add (o : Open) (p : Pattern) : Open :=
  { o with level := o.level.add p }

/-- Reads a quantifier at an offset. The token behind it can say how it is to be taken. -/
def quantify (o : Open) (offset least : Nat) (most : Option Nat) (taken : Nat) (behind : List Token) :
    Except Fault (Open × Nat) :=
  if maxRepeat ≤ least || most.any (maxRepeat ≤ ·) then .error (offset, .repeatTooGreat)
  else if most.any (· < least) then .error (offset + 1, .leastAboveMost)
  else
    let (how, n) :=
      match behind with
      | .plain '?' :: _ => (Appetite.lazy, 1)
      | .plain '+' :: _ => (.possessive, 1)
      | _ => (.greedy, 0)
    (o.level.repeatLast offset how least most).map fun l => ({ o with level := l }, taken + n)

/-- Whether nothing is read yet but flags. -/
def atStart (o : Open) : Bool :=
  o.level.items.isEmpty && o.level.branches.isEmpty && o.outer.isEmpty

/-- The level of a parenthesis at an offset. -/
def enter (o : Open) (offset : Nat) : Open :=
  { o with level := ⟨offset, [], []⟩, outer := o.level :: o.outer }

/-- Reads an opening parenthesis. Behind it `?:` makes no difference, and `?` with flag letters up to a closing
parenthesis sets flags for the whole pattern, which it must begin. -/
def openGroup (o : Open) (offset : Nat) : List Token → Except Fault (Open × Nat)
  | [.plain '?'] => .error (offset + 2, .unexpectedEnd)
  | .plain '?' :: .plain ':' :: _ => .ok (o.enter offset, 2)
  | .plain '?' :: .cut w _ :: _ => .error (offset + 2 + w, .danglingEscape)
  | .plain '?' :: t :: rest =>
    match flagLetters o.flags 0 (t :: rest) with
    | none =>
      if otherExtensions.any (t == .plain ·) then .error (offset, .notCovered)
      else .error (offset + 1, .unknownExtension t.text)
    | some (flags, taken) =>
      if o.atStart then .ok ({ o with flags }, taken + 1) else .error (offset, .misplacedFlags)
  | _ => .ok (o.enter offset, 0)

/-- Reads a closing parenthesis. -/
def closeGroup (o : Open) (offset : Nat) : Except Fault Open :=
  match o.outer with
  | [] => .error (offset, .unbalanced)
  | l :: outer => .ok { o with level := l.add (.group o.level.pattern), outer }

/-- Reads one token, and tells how many of those behind it belong to it. -/
def step (o : Open) (offset : Nat) (t : Token) (rest : List Token) : Except Fault (Open × Nat) :=
  match t with
  | .cut w closes =>
    if closes && o.outer.isEmpty then .error (offset, .unbalanced) else .error (offset + w, .danglingEscape)
  | .escaped c => (escape offset c).map fun p => (o.add p, 0)
  | .plain c =>
    match quantifier? c rest with
    | some (least, most, taken) => o.quantify offset least most taken (rest.drop taken)
    | none =>
      match c with
      | '|' => .ok ({ o with level := o.level.branch }, 0)
      | '(' => o.openGroup offset rest
      | ')' => (o.closeGroup offset).map (·, 0)
      | '[' => (charClass offset rest).map fun (test, n) => (o.add (.one test), n)
      | '.' => .ok (o.add (.one .any), 0)
      | '^' => .ok (o.add (.anchor .start), 0)
      | '$' => .ok (o.add (.anchor .lastLine), 0)
      | _ => .ok (o.add (.single c), 0)

/-- Reads the tokens from an offset on. The first `skip` of them belong to what was read last. -/
def readFrom (o : Open) : (skip offset : Nat) → List Token → Except Fault Open
  | _, _, [] => if o.outer.isEmpty then .ok o else .error (o.level.opened, .unclosedGroup)
  | skip + 1, offset, t :: rest => readFrom o skip (offset + t.width) rest
  | 0, offset, t :: rest =>
    match o.step offset t rest with
    | .error e => .error e
    | .ok (o, taken) => readFrom o taken (offset + t.width) rest

end Open

end Pattern

namespace Regex

/-- Reads a written pattern, if it is one of those that are covered. -/
def read (source : Text) : Except PatternError Regex :=
  match Pattern.Open.readFrom ⟨⟨false, false⟩, ⟨0, [], []⟩, []⟩ 0 0 (Pattern.Token.ofText source) with
  | .ok o => .ok ⟨source, o.flags, o.level.pattern⟩
  | .error (offset, problem) => .error ⟨source, offset, problem⟩

end Regex

end CallHoist
