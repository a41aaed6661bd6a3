import CallHoist.Text.Utf8

/-!
# Files

A tree of files and directories, and what comes of reading and writing at a path in it. A path is followed one
component at a time, from the root of the tree or from the directory that is worked in, and each component but the last
has to be a directory. There are no links, and a file that can be opened takes all that is written.
-/

namespace CallHoist

/-- Why a file cannot be opened. -/
inductive FileProblem where
  | missing
  | denied
  | notDirectory
  | isDirectory
  | other (message : Text)
  deriving DecidableEq, Repr

structure FileError where
  problem : FileProblem
  path : Text
  deriving DecidableEq, Repr

def FileProblem.message : FileProblem → Text
  | missing => "[Errno 2] No such file or directory".toList
  | denied => "[Errno 13] Permission denied".toList
  | notDirectory => "[Errno 20] Not a directory".toList
  | isDirectory => "[Errno 21] Is a directory".toList
  | other message => message

def FileError.message (e : FileError) : Text :=
  e.problem.message ++ ": ".toList ++ Text.quoted e.path

/-- Why a path is not handed to the system. -/
inductive PathFault where
  /-- It holds a NUL. -/
  | nul
  /-- It begins with a home directory that is not known. -/
  | homeless
  deriving DecidableEq, Repr

def PathFault.message : PathFault → Text
  | nul => "embedded null byte".toList
  | homeless => "Could not determine home directory.".toList

/-- Why a file is not opened. -/
inductive OpenError where
  | refused (e : FileError)
  | badPath (fault : PathFault)
  deriving DecidableEq, Repr

namespace Files

/-- The components of a path, without the empty ones and those that are a point. -/
def components (path : Text) : List Text :=
  (Text.split '/' path).filter fun c => !c.isEmpty && c != ['.']

/-- The slashes that an absolute path begins with. Two stay two. -/
def root (path : Text) : Text :=
  let slashes := (path.takeWhile (· == '/')).length
  if slashes = 0 then [] else if slashes = 2 then ['/', '/'] else ['/']

/-- The path of components behind a root. -/
def spelled (root : Text) (names : List Text) : Text :=
  let s := root ++ Text.joined ['/'] names
  if s.isEmpty then ['.'] else s

/-- A path in its shortest spelling that names the same place: single slashes, no component that is a point, no slash
at the end. -/
def normalPath (path : Text) : Text :=
  spelled (root path) (components path)

/-- A path in normal form, with a home directory in the place of a first component that begins with a tilde. `home`
has the home directories by the names behind the tilde. -/
def expanded (home : Text → Option Text) (path : Text) : Except PathFault Text :=
  match root path, components path with
  | [], ('~' :: name) :: names =>
    if name.contains '\x00' then .error .nul
    else
      match home name with
      | none => .error .homeless
      | some directory => .ok (spelled (root directory) (components directory ++ names))
  | _, _ => .ok (normalPath path)

end Files

/-- Files and directories, each by the components of its path from the root. A directory is there too if something in
it is. -/
structure FileTree where
  files : List (List Text × List UInt8)
  directories : List (List Text)
  /-- The directory that relative paths are followed from. -/
  workdir : List Text
  deriving DecidableEq, Repr

namespace FileTree

inductive Node where
  | file (bytes : List UInt8)
  | directory
  | missing
  deriving DecidableEq, Repr

/-- What is at a place. -/
def node (t : FileTree) (place : List Text) : Node :=
  match t.files.lookup place with
  | some bytes => .file bytes
  | none =>
    if place.isEmpty || t.directories.any place.isPrefixOf || t.files.any (fun (p, _) => place.isPrefixOf p) then
      .directory
    else .missing

/-- Follows the components of a path from a place on. The directory above the root is the root. -/
def follow (t : FileTree) (place : List Text) : List Text → Except FileProblem (List Text)
  | [] => .ok place
  | c :: rest =>
    match t.node place with
    | .missing => .error .missing
    | .file _ => .error .notDirectory
    | .directory =>
      if c.isEmpty || c == ['.'] then follow t place rest
      else if c == ['.', '.'] then follow t place.dropLast rest
      else follow t (place ++ [c]) rest

/-- The place that a path names. An empty path names none. -/
def resolve (t : FileTree) (path : Text) : Except FileProblem (List Text) :=
  if path.isEmpty then .error .missing
  else t.follow (if path.head? == some '/' then [] else t.workdir) (Text.split '/' path)

/-- The bytes of the file at a path. -/
def read (t : FileTree) (path : Text) : Except FileError (List UInt8) :=
  match t.resolve path with
  | .error e => .error ⟨e, path⟩
  | .ok place =>
    match t.node place with
    | .file bytes => .ok bytes
    | .directory => .error ⟨.isDirectory, path⟩
    | .missing => .error ⟨.missing, path⟩

/-- Puts a file in the place of the one that is there, or behind all others. -/
def put (place : List Text) (bytes : List UInt8) : List (List Text × List UInt8) → List (List Text × List UInt8)
  | [] => [(place, bytes)]
  | (p, b) :: rest => if p = place then (p, bytes) :: rest else (p, b) :: put place bytes rest

/-- The tree with the bytes as the file at a path. -/
def write (t : FileTree) (path : Text) (bytes : List UInt8) : Except FileError FileTree :=
  match t.resolve path with
  | .error e => .error ⟨e, path⟩
  | .ok place =>
    if t.node place = .directory then .error ⟨.isDirectory, path⟩
    else .ok { t with files := put place bytes t.files }

end FileTree

end CallHoist
