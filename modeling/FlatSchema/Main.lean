import FlatSchema.Command.Run

/-!
# The command line program

Runs a command on the real disk and prints what it answers.
-/

namespace FlatSchema.Main

/-- The answer of the operating system behind a failed operation. -/
def osError (e : IO.Error) : OsError :=
  match e with
  | .noFileOrDirectory _ _ _ => .noEntry
  | .inappropriateType _ code details | .permissionDenied _ code details
  | .resourceExhausted _ code details | .invalidArgument _ code details
  | .noSuchThing _ code details | .alreadyExists _ code details =>
    if code = 20 then .notDirectory
    else if code = 21 then .isDirectory
    else if code = 36 then .nameTooLong
    else ⟨code.toNat, "Uncategorized", details⟩
  | e => ⟨0, "Uncategorized", toString e⟩

def isFile (p : Path) : IO Bool := do
  if p.hasNul then return false
  try
    let place ← IO.FS.realPath p.display
    return (← place.metadata).type == .file
  catch _ => return false

def read (p : Path) : IO (Except FileError String) := do
  if p.hasNul then return .error .nulInPath
  try
    match String.fromUTF8? (← IO.FS.readBinFile p.display) with
    | some text => return .ok text
    | none => return .error .invalidUtf8
  catch e => return .error (.os (osError e))

def key (p : Path) : IO String := do
  if p.hasNul then return p.display
  try return toString (← IO.FS.realPath p.display) catch _ => return p.display

def write (p : Path) (text : String) : IO (Except FileError Unit) := do
  if p.hasNul then return .error .nulInPath
  try
    IO.FS.writeFile p.display text
    return .ok ()
  catch e => return .error (.os (osError e))

def host : Command.Host IO where
  isFile := isFile
  read := read
  key := key
  depth := 10000
  write := write

/-- The log level that the environment asks for. -/
def levelSetting : IO (Option LogLevel) := do
  match ← IO.getEnv "RUST_LOG" with
  | some "off" => return some .off
  | some "warn" => return some .warn
  | some "info" => return some .info
  | some "debug" => return some .debug
  | _ => return none

end FlatSchema.Main

def main (args : List String) : IO UInt32 := do
  let o ← FlatSchema.Command.run FlatSchema.Main.host (← FlatSchema.Main.levelSetting) args
  for e in o.log do
    IO.eprintln e.text
  IO.print o.stdout
  IO.eprint o.stderr
  return UInt32.ofNat o.exit
