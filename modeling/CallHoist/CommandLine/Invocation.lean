import CallHoist.CommandLine.Word
import CallHoist.Config
import CallHoist.Number.Literal

/-!
# Invocations

The words of a command line give an invocation: INPUT, PREFIX and an optional OUTPUT, and the settings of the options.
Options are taken in their order, each with its value. The plain words between two options are taken together:
OUTPUT is settled with PREFIX, so it has to stand next to it, and plain words that are left are a fault.
-/

namespace CallHoist.CommandLine

structure Invocation where
  input : Text
  stem : Text
  output : Option Text
  mode : Mode
  rules : Option Text
  order : Grammar.Order
  firstSerial : Int
  minRepeats : Int
  verbosity : Nat
  deriving DecidableEq, Repr

/-- Why the words of a command line give no invocation. -/
inductive Stop where
  | usage
  | help
  | version
  deriving DecidableEq, Repr

/-- An option that is given, with its value. -/
inductive Setting where
  | flag (o : Switch)
  | value (o : Switch) (s : Text)
  deriving DecidableEq, Repr

/-- The settings of one word. -/
structure Settings where
  given : List Setting
  /-- The option whose value is the next word. -/
  open? : Option Switch
  /-- Whether there are letters left that are no options. -/
  unknown : Bool
  deriving DecidableEq, Repr

namespace Settings

/-- The settings of a letter with what is attached to it. Behind a letter that has no value there can be further
letters; behind one that has, there is its value. -/
def ofLetter (o : Switch) : Attached → Except Stop Settings
  | .nothing => .ok (if o.takesValue then ⟨[], some o, false⟩ else ⟨[.flag o], none, false⟩)
  | .equals s => if o.takesValue then .ok ⟨[.value o s], none, false⟩ else .error .usage
  | .joined s => go o s
where
  /-- The settings of an option and the text right behind its letter. -/
  go (o : Switch) : Text → Except Stop Settings
    | [] => .ok (if o.takesValue then ⟨[], some o, false⟩ else ⟨[.flag o], none, false⟩)
    | c :: rest =>
      if o.takesValue then .ok ⟨[.value o (c :: rest)], none, false⟩
      else if c == '-' then .error .usage
      else
        match Switch.ofLetter? c, rest with
        | none, _ => .ok ⟨[.flag o], none, true⟩
        | some p, '=' :: s =>
          if p.takesValue then .ok ⟨[.flag o, .value p s], none, false⟩ else .error .usage
        | some p, rest => (go p rest).map fun t => { t with given := .flag o :: t.given }

/-- The settings of a long option. -/
def ofLong (o : Switch) : Attached → Except Stop Settings
  | .nothing => .ok (if o.takesValue then ⟨[], some o, false⟩ else ⟨[.flag o], none, false⟩)
  | .joined _ => .error .usage
  | .equals s => if o.takesValue then .ok ⟨[.value o s], none, false⟩ else .error .usage

end Settings

/-- How many of INPUT, PREFIX and OUTPUT are settled. -/
inductive Settled where
  | none
  | input
  | all
  deriving DecidableEq, Repr

/-- What is known of an invocation while its words are taken. -/
structure Draft where
  inv : Invocation
  settled : Settled
  /-- Whether a word was left over. -/
  surplus : Bool
  deriving DecidableEq, Repr

namespace Draft

def start : Draft :=
  ⟨⟨[], [], none, Config.standard.mode, none, Config.standard.order, Config.standard.firstSerial,
    Config.standard.minRepeats, 0⟩, .none, false⟩

/-- Takes a setting. -/
def set (d : Draft) : Setting → Except Stop Draft
  | .flag .help => .error .help
  | .flag .version => .error .version
  | .flag .verbose => .ok { d with inv := { d.inv with verbosity := d.inv.verbosity + 1 } }
  | .flag .arithmeticFirst => .ok { d with inv := { d.inv with order := .chainFirst } }
  | .value .mode s =>
    match Mode.ofName? s with
    | some mode => .ok { d with inv := { d.inv with mode } }
    | none => .error .usage
  | .value .rules s => .ok { d with inv := { d.inv with rules := some s } }
  | .value .firstSerial s =>
    match Literal.int? s with
    | some firstSerial => .ok { d with inv := { d.inv with firstSerial } }
    | none => .error .usage
  | .value .minRepeats s =>
    match Literal.int? s with
    | some minRepeats => .ok { d with inv := { d.inv with minRepeats } }
    | none => .error .usage
  | _ => .error .usage

/-- Takes the settings of a word, and the value of its last option if that is the next word. -/
def setAll (d : Draft) (settings : Settings) (value : List Setting) : Except Stop Draft :=
  ((settings.given ++ value).foldlM set d).map fun d => { d with surplus := d.surplus || settings.unknown }

/-- The plain words of a run, each with whether the separator goes with it: the word before the separator, or the word
behind it if there is none before. -/
def withSeparator : List Word → List (Text × Bool)
  | .separator :: .plain s :: rest => (s, true) :: withSeparator rest
  | .plain s :: .separator :: rest => (s, true) :: withSeparator rest
  | .plain s :: rest => (s, false) :: withSeparator rest
  | _ :: rest => withSeparator rest
  | [] => []

/-- The value of a plain word. A word that looks like the separator is none, unless the separator goes with it. -/
def valueOf (w : Text × Bool) : Option Text :=
  if w.1 == ['-', '-'] && !w.2 then none else some w.1

/-- What PREFIX is if it has no value. -/
def noStem : Text := ['[', ']']

/-- Settles as many of INPUT, PREFIX and OUTPUT as a run of words has words for. -/
def settle (d : Draft) (run : List Word) : Draft :=
  let words := withSeparator run
  match d.settled, words with
  | .none, [] => { d with surplus := d.surplus || !run.isEmpty }
  | .none, [a] => { d with inv := { d.inv with input := a.1 }, settled := .input }
  | .none, a :: b :: rest =>
    { d with
      inv := { d.inv with input := a.1, stem := (valueOf b).getD noStem, output := rest.head?.bind valueOf }
      settled := .all
      surplus := d.surplus || !(rest.drop 1).isEmpty }
  | .input, [] => { d with surplus := d.surplus || !run.isEmpty }
  | .input, b :: rest =>
    { d with
      inv := { d.inv with stem := (valueOf b).getD noStem, output := rest.head?.bind valueOf }
      settled := .all
      surplus := d.surplus || !(rest.drop 1).isEmpty }
  | .all, _ => { d with surplus := d.surplus || !run.isEmpty }

/-- The settings of a word, if it is an option. -/
def settingsOf? : Word → Option (Except Stop Settings)
  | .letter o attached => some (Settings.ofLetter o attached)
  | .long o attached => some (Settings.ofLong o attached)
  | .unknownOption => some (.ok ⟨[], none, true⟩)
  | _ => none

/-- Takes words. `waiting` are settings whose last option has its value in the next word, and `run` holds the plain
words since the last option, the last first. -/
def take (d : Draft) (waiting : Option (Settings × Switch)) (run : List Word) : List Word → Except Stop Draft
  | [] =>
    match waiting with
    | some _ => .error .usage
    | none => .ok (d.settle run.reverse)
  | w :: rest =>
    match waiting, w, settingsOf? w with
    | some (settings, o), .plain s, _ => (d.setAll settings [.value o s]).bind fun d => take d none [] rest
    | some _, _, _ => .error .usage
    | none, _, none => take d none (w :: run) rest
    | none, _, some (.error e) => .error e
    | none, _, some (.ok settings) =>
      match settings.open? with
      | some o => take (d.settle run.reverse) (some (settings, o)) [] rest
      | none => ((d.settle run.reverse).setAll settings []).bind fun d => take d none [] rest

end Draft

namespace Invocation

/-- The invocation that the words of a command line give. -/
def ofTexts (words : List Text) : Except Stop Invocation :=
  match Word.ofTexts? words with
  | none => .error .usage
  | some words =>
    match Draft.start.take none [] words with
    | .error e => .error e
    | .ok d => if d.surplus || d.settled != .all then .error .usage else .ok d.inv

/-- The configuration of an invocation. -/
def config (inv : Invocation) : Config :=
  { Config.standard with
    mode := inv.mode
    minRepeats := inv.minRepeats
    order := inv.order
    firstSerial := inv.firstSerial
    rulesFile := inv.rules }

end Invocation

end CallHoist.CommandLine
