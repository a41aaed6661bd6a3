import CallHoist.Text.Basic
import CallHoist.Text.DecimalDigit

/-!
# Words of a command line

A word is an option, by one of its spellings or an unambiguous front of a long one; the separator `--`, behind which
all words are plain; or plain. A negative number is plain, and so is a word with a space in it that is no option.
-/

namespace CallHoist.CommandLine

inductive Switch where
  | help
  | mode
  | rules
  | arithmeticFirst
  | firstSerial
  | minRepeats
  | verbose
  | version
  deriving DecidableEq, Repr

namespace Switch

/-- Whether an option has a value. -/
def takesValue : Switch → Bool
  | mode => true
  | rules => true
  | firstSerial => true
  | minRepeats => true
  | _ => false

/-- The options of one letter. -/
def ofLetter? : Char → Option Switch
  | 'h' => some help
  | 'm' => some mode
  | 'r' => some rules
  | 'v' => some verbose
  | _ => none

/-- The options by their long spellings. -/
def long : List (Text × Switch) :=
  [("--help".toList, help), ("--mode".toList, mode), ("--rules".toList, rules),
    ("--arithmetic-first".toList, arithmeticFirst), ("--first-serial".toList, firstSerial),
    ("--min-repeats".toList, minRepeats), ("--verbose".toList, verbose), ("--version".toList, version)]

end Switch

/-- What is written behind an option in the same word. -/
inductive Attached where
  | nothing
  /-- Text right behind the letter. -/
  | joined (s : Text)
  /-- Text behind an equals sign. -/
  | equals (s : Text)
  deriving DecidableEq, Repr

inductive Word where
  | plain (s : Text)
  | separator
  | letter (o : Switch) (attached : Attached)
  | long (o : Switch) (attached : Attached)
  | unknownOption
  deriving DecidableEq, Repr

namespace Word

/-- A word at its first equals sign: what is before it, and what is behind it if there is one. -/
def atEquals (s : Text) : Text × Attached :=
  match s.dropWhile (· != '=') with
  | [] => (s, .nothing)
  | _ :: value => (s.takeWhile (· != '='), .equals value)

/-- Whether a word is a minus sign and digits, with at most one point that has digits behind it. A line feed can end
it. -/
def isNegativeNumber : Text → Bool
  | '-' :: s =>
    let s := if s.getLast? == some '\n' then s.dropLast else s
    let whole := s.takeWhile isDecimalDigit
    match s.dropWhile isDecimalDigit with
    | [] => !whole.isEmpty
    | c :: fraction => c == '.' && !fraction.isEmpty && fraction.all isDecimalDigit
  | _ => false

/-- A word that is no option of the spellings known: plain if it looks like a value. -/
def ofUnknown (s : Text) : Word :=
  if isNegativeNumber s || s.contains ' ' then plain s else unknownOption

/-- What a word is that does not stand behind the separator; none if it is the front of several options. -/
def ofText? (s : Text) : Option Word :=
  match s with
  | ['-', '-'] => some separator
  | '-' :: '-' :: _ =>
    let (front, attached) := atEquals s
    match Switch.long.lookup front with
    | some o => some (long o attached)
    | none =>
      match Switch.long.filter fun (spelling, _) => front.isPrefixOf spelling with
      | [] => some (ofUnknown s)
      | [(_, o)] => some (long o attached)
      | _ => none
  | '-' :: c :: rest =>
    match Switch.ofLetter? c, rest with
    | none, _ => some (ofUnknown s)
    | some o, [] => some (letter o .nothing)
    | some o, '=' :: value => some (letter o (.equals value))
    | some o, _ => some (letter o (.joined rest))
  | _ => some (plain s)

/-- The words of a command line; none if one is the front of several options. -/
def ofTexts? : List Text → Option (List Word)
  | [] => some []
  | s :: rest =>
    match ofText? s with
    | none => none
    | some separator => some (separator :: rest.map plain)
    | some w => (ofTexts? rest).map (w :: ·)

end Word

end CallHoist.CommandLine
