import CallHoist.Files
import CallHoist.Pattern.Compiler
import CallHoist.SExpr.Basic

/-!
# What a run is given besides its words and files

What the words of a command line and the files of a tree leave open: how patterns are compiled, where the home
directories are, and what the system refuses without regard to the tree. A platform is any answer to these questions;
what holds of a run holds on all of them.

Words and texts are sequences of Unicode scalar values, and the standard output takes all that is printed.
-/

namespace CallHoist

inductive Access where
  | reading
  | writing
  deriving DecidableEq, Repr

structure Platform where
  /-- Compiles the patterns of rule files. -/
  compile : Compiler
  /-- Whether there is a text for an expression that a message is to show. For one that is nested too deep there is none;
  one that is too deep to be read at all needs none, since its message shows nothing. -/
  describes : SExpr → Bool
  /-- The home directories by the names of the users; the empty name is that of the user who runs the program. A directory
  that begins with a tilde itself is none. -/
  home : Text → Option Text
  /-- Why the system refuses a path, whatever is there: it is too long, or access is not permitted. -/
  refuses : Access → Text → Option FileProblem

namespace Platform

/-- The platform that compiles the patterns that are read here, knows no home directory and refuses nothing. -/
def plain : Platform where
  compile := .ofRead
  describes _ := true
  home _ := none
  refuses _ _ := none

variable (p : Platform)

/-- Why a path is not opened, whatever is there. -/
def bars? (access : Access) (path : Text) : Option OpenError :=
  if path.contains '\x00' then some (.badPath .nul)
  else (p.refuses access path).map fun problem => .refused ⟨problem, path⟩

/-- The bytes of the file at a path. -/
def read (files : FileTree) (path : Text) : Except OpenError (List UInt8) :=
  match p.bars? .reading path with
  | some e => .error e
  | none => (files.read path).mapError .refused

/-- The tree with the bytes as the file at a path that can begin with a home directory. -/
def write (files : FileTree) (path : Text) (bytes : List UInt8) : Except OpenError FileTree :=
  match Files.expanded p.home path with
  | .error fault => .error (.badPath fault)
  | .ok path =>
    match p.bars? .writing path with
    | some e => .error e
    | none => (files.write path bytes).mapError .refused

end Platform

end CallHoist
