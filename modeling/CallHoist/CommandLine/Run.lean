import CallHoist.CommandLine.Invocation
import CallHoist.Reduction
import CallHoist.RuleFile.Load

/-!
# Runs of the program

An invocation reads its input and its rule file, reduces, reports on the standard output, and writes the rewritten
source if an output is named. A file that cannot be read or written ends the run with a message and an exit code of
its own. What a run does with files is told apart from what it makes of them: `Invocation.work` has the bytes read and
says what is to be written.

A run can also escape, which is to end without an exit code of its own: a path cannot be handed to the system, the
loading of the rule file breaks off, or a serial number has too many digits to be written.
-/

namespace CallHoist.CommandLine

inductive Exit where
  | ok
  | usage
  | infrastructure
  deriving DecidableEq, Repr

def Exit.code : Exit → Nat
  | ok => 0
  | usage => 1
  | infrastructure => 2

inductive Level where
  | info
  | warning
  | error
  deriving DecidableEq, Repr

def Level.name : Level → String
  | info => "INFO"
  | warning => "WARNING"
  | error => "ERROR"

structure LogEntry where
  level : Level
  message : Text
  deriving DecidableEq, Repr

structure Outcome where
  exit : Exit
  stdout : Text
  log : List LogEntry
  deriving DecidableEq, Repr

/-- What a run ends without an exit code on. -/
inductive Escape where
  | input (fault : PathFault)
  | rules (e : RuleEscape)
  | reduction (e : ReductionError)
  /-- A serial number has too many digits to be written. -/
  | serial (n : Int)
  | output (fault : PathFault)
  deriving Repr

def Escape.message : Escape → Text
  | input fault => fault.message
  | rules (.badPath fault) => fault.message
  | rules (.undecodable e) => e.message
  | rules (.compiler pattern) => "the compiler breaks off at ".toList ++ Text.quoted pattern
  | rules (.undescribed _) => "an expression is nested too deep to be shown".toList
  | reduction (.badMarker e) => e.message
  | reduction (.overlap e) => e.message
  | serial _ => "Exceeds the limit (".toList ++ Text.decimal Literal.maxDigits ++ " digits) for integer string conversion".toList
  | output fault => fault.message

/-- The version that the program tells. -/
def versionLine : Text :=
  "mdlcse 0.1.0\n".toList

/-- What comes of a command line that gives no invocation. The text of the help is left out. -/
def Stop.outcome : Stop → Outcome
  | usage => ⟨.usage, [], []⟩
  | help => ⟨.ok, [], []⟩
  | version => ⟨.ok, versionLine, []⟩

/-- The work of a run up to the writing of its output: what it has told so far, and the source to be written. -/
structure Work where
  outcome : Outcome
  toWrite : Option Text
  deriving DecidableEq, Repr

namespace Invocation

/-- The entries that are told: information only if it is asked for. -/
def told (inv : Invocation) (log : List LogEntry) : List LogEntry :=
  log.filter fun e => e.level != .info || 0 < inv.verbosity

/-- The failure of a run whose input cannot be read, for a reason that is told. -/
def unreadable (inv : Invocation) (reason : Text) : Failure :=
  .ofKind .unreadableInput reason none (some inv.input)

/-- What is logged about a configuration. -/
def configLog (inv : Invocation) : List LogEntry :=
  inv.config.doubts.map fun d => ⟨.warning, "config: ".toList ++ d.message⟩

/-- What is logged about a reduction. -/
def reductionLog (inv : Invocation) (r : Reduction) : List LogEntry :=
  let collected :=
    "Collected ".toList ++ Text.decimal r.found.length ++ [' '] ++ inv.mode.name.toList ++ " match(es)".toList
  let rest :=
    match inv.mode with
    | .functionCalls =>
      r.unknown.map (fun call => "No type rule for ".toList ++ call)
        ++ [Text.decimal r.bindings.length ++ " binding(s), ".toList ++ Text.decimal r.unknown.length
          ++ " unknown, ".toList ++ Text.decimal r.ignored.length ++ " ignored".toList]
    | .conditionalExpressions =>
      if r.output.isSome then ["Conditional-expression mode: exporting without substitutions".toList] else []
  (collected :: rest).map fun m => ⟨.info, m⟩

/-- The work of a run that has read its source, from what came of reading the rule file. -/
def workOn (inv : Invocation) (p : Platform) (source : Text) (rules : Except OpenError (List UInt8)) :
    Except Escape Work :=
  match RuleFile.engineOfBytes p inv.config rules with
  | .error (.escape e) => .error (.rules e)
  | .error (.notRules path e) =>
    .ok ⟨⟨.infrastructure, [], inv.told (inv.configLog ++ [⟨.error, (e.failure (some path)).text⟩])⟩, none⟩
  | .ok engine =>
    match Reduction.reduce inv.config engine source inv.stem inv.output.isSome with
    | .error e => .error (.reduction e)
    | .ok r =>
      match (r.serials inv.config).find? fun n => !Literal.isWritable n with
      | some n => .error (.serial n)
      | none => .ok ⟨⟨.ok, r.report, inv.told (inv.configLog ++ inv.reductionLog r)⟩, r.output⟩

/-- The work of a run, from what came of reading the input and the rule file. -/
def work (inv : Invocation) (p : Platform) (input rules : Except OpenError (List UInt8)) : Except Escape Work :=
  let unread := fun (f : Failure) =>
    Except.ok ⟨⟨.infrastructure, "file not opened.\n".toList, inv.told (inv.configLog ++ [⟨.error, f.text⟩])⟩, none⟩
  match input with
  | .error (.badPath fault) => .error (.input fault)
  | .error (.refused e) => unread (inv.unreadable e.message)
  | .ok bytes =>
    match Text.decode bytes with
    | .error e => unread (inv.unreadable e.message)
    | .ok source => inv.workOn p source rules

/-- What comes of a run whose work is done and whose output was written, or was refused. -/
def finish (inv : Invocation) (done : Outcome) (output : Text) : Except FileError Unit → Outcome
  | .ok _ => { done with log := done.log ++ inv.told [⟨.info, "Wrote ".toList ++ output⟩] }
  | .error e =>
    let f := Failure.ofKind .unwritableOutput e.message none (some output)
    { exit := .infrastructure
      stdout := done.stdout ++ "failed to write ".toList ++ output ++ "!\n".toList
      log := done.log ++ inv.told [⟨.error, f.text⟩] }

/-- A run in a tree of files, with the tree that it leaves. -/
def run (inv : Invocation) (p : Platform) (files : FileTree) : Except Escape (Outcome × FileTree) :=
  match inv.work p (p.read files inv.input) (p.read files (inv.config.rulesPath.getD [])) with
  | .error e => .error e
  | .ok w =>
    match inv.output, w.toWrite with
    | some output, some s =>
      match p.write files output (Text.encode s) with
      | .ok after => .ok (inv.finish w.outcome output (.ok ()), after)
      | .error (.refused e) => .ok (inv.finish w.outcome output (.error e), files)
      | .error (.badPath fault) => .error (.output fault)
    | _, _ => .ok (w.outcome, files)

end Invocation

/-- The program on a platform, in a tree of files. -/
def run (p : Platform) (words : List Text) (files : FileTree) : Except Escape (Outcome × FileTree) :=
  match Invocation.ofTexts words with
  | .error stop => .ok (stop.outcome, files)
  | .ok inv => inv.run p files

end CallHoist.CommandLine
