import CallHoist.CommandLine.Run

/-!
# The command line

Reads the files that an invocation names, lets `Invocation.work` do the rest, and writes what is to be written. Log
entries go to the standard error.
-/

open CallHoist CallHoist.CommandLine

namespace CallHoist.CommandLine

/-- Why an operation on the file at a path failed. -/
def fileErrorOf (path : Text) : IO.Error → FileError
  | .inappropriateType _ code _ => ⟨if code = 21 then .isDirectory else .notDirectory, path⟩
  | .permissionDenied .. => ⟨.denied, path⟩
  | .noFileOrDirectory .. => ⟨.missing, path⟩
  | e => ⟨.other (toString e).toList, path⟩

/-- Does something with the file at a path. -/
def opening {α : Type} (path : Text) (act : String → IO α) : IO (Except OpenError α) := do
  if path.contains '\x00' then return .error (.badPath .nul)
  try return .ok (← act (String.ofList path))
  catch e => return .error (.refused (fileErrorOf path e))

/-- The bytes of the file at a path. -/
def bytesAt (path : Text) : IO (Except OpenError (List UInt8)) :=
  opening path fun name => return (← IO.FS.readBinFile name).toList

/-- Writes bytes as the file at a path that can begin with a home directory. -/
def writeAt (p : Platform) (path : Text) (bytes : List UInt8) : IO (Except OpenError Unit) := do
  match Files.expanded p.home path with
  | .error fault => return .error (.badPath fault)
  | .ok path => opening path fun name => IO.FS.writeBinFile name (ByteArray.mk bytes.toArray)

/-- The home directory that the environment names. Slashes at its end are no part of it, unless it is the root. -/
def homeNamed (value : Text) : Option Text :=
  let directory := (value.reverse.dropWhile (· == '/')).reverse
  if directory.head? == some '~' then none else some (if directory.isEmpty then ['/'] else directory)

/-- The platform of the system: of the home directories only that of the user is known. -/
def systemPlatform : IO Platform := do
  let home := (← IO.getEnv "HOME").bind fun value => homeNamed value.toList
  return { Platform.plain with home := fun name => if name.isEmpty then home else none }

/-- Tells an outcome and gives its exit code. -/
def tell (o : Outcome) : IO UInt32 := do
  for e in o.log do
    IO.eprintln (String.ofList ("[".toList ++ e.level.name.toList ++ "] ".toList ++ e.message))
  IO.print (String.ofList o.stdout)
  return o.exit.code.toUInt32

/-- Tells what a run escapes on. -/
def tellEscape (e : Escape) : IO UInt32 := do
  IO.eprintln (String.ofList e.message)
  return 1

/-- Runs an invocation on the files of the system. -/
def perform (inv : Invocation) : IO UInt32 := do
  let p ← systemPlatform
  let input ← bytesAt inv.input
  let rules ← bytesAt (inv.config.rulesPath.getD [])
  match inv.work p input rules with
  | .error e => tellEscape e
  | .ok w =>
    match inv.output, w.toWrite with
    | some output, some s =>
      match ← writeAt p output (Text.encode s) with
      | .ok () => tell (inv.finish w.outcome output (.ok ()))
      | .error (.refused e) => tell (inv.finish w.outcome output (.error e))
      | .error (.badPath fault) =>
        let _ ← tell w.outcome
        tellEscape (.output fault)
    | _, _ => tell w.outcome

end CallHoist.CommandLine

def main (args : List String) : IO UInt32 := do
  match Invocation.ofTexts (args.map (·.toList)) with
  | .error stop => tell stop.outcome
  | .ok inv => perform inv
