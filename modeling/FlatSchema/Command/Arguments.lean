import FlatSchema.Path

/-!
# Command lines

    [-v] generate FILE... [--root NAME] [--path DIR]... [-o FILE]
    [-v] dump FILE... [--root NAME] [--path DIR]...

Options stand before or after files, a value after its option or attached to it, and `--` ends the
options.  `-v` may be given once before the subcommand and once after it, `--path` any number of
times, `--root` and `-o` once.
-/

namespace FlatSchema.Command

/-- Why there is nothing to run. -/
inductive Usage where
  | help
  | wrong
  deriving DecidableEq, Repr

inductive Mode where
  | generate
  | dump
  deriving DecidableEq, Repr

/-- Options that take a value. -/
inductive Setting where
  | root
  | path
  | out
  deriving DecidableEq, Repr

/-- What the arguments after the subcommand say. -/
structure Arguments where
  verbose : Bool
  files : List Path
  root : Option String
  dirs : List Path
  out : Option Path
  deriving DecidableEq, Repr

structure Invocation where
  mode : Mode
  verbose : Bool
  files : List Path
  rootName : String
  dirs : List Path
  out : Option Path
  deriving DecidableEq, Repr

namespace Arguments

def none : Arguments :=
  ⟨false, [], .none, [], .none⟩

/-! ## Single arguments -/

/-- Paths are not empty. -/
def addFile (a : Arguments) (text : String) : Except Usage Arguments :=
  if text = "" then .error .wrong else .ok { a with files := a.files ++ [⟨text⟩] }

def setVerbose (a : Arguments) : Except Usage Arguments :=
  if a.verbose then .error .wrong else .ok { a with verbose := true }

def set (a : Arguments) (setting : Setting) (value : String) : Except Usage Arguments :=
  match setting with
  | .root => if a.root.isSome then .error .wrong else .ok { a with root := some value }
  | .path => if value = "" then .error .wrong else .ok { a with dirs := a.dirs ++ [⟨value⟩] }
  | .out =>
    if value = "" ∨ a.out.isSome then .error .wrong else .ok { a with out := some ⟨value⟩ }

/-- The settings that a subcommand has; before it there are none, and only generated code can be
written to a file. -/
def longSetting? (mode : Option Mode) (name : List Char) : Option Setting :=
  if name = "root".toList ∧ mode.isSome then some .root
  else if name = "path".toList ∧ mode.isSome then some .path
  else if name = "out".toList ∧ mode = some .generate then some .out
  else .none

/-- The arguments so far, and the option that waits for its value. -/
abbrev Pending := Arguments × Option Setting

def settled (r : Except Usage Arguments) : Except Usage Pending :=
  r.map fun a => (a, .none)

/-- An argument `--name` or `--name=value`. -/
def readLong (mode : Option Mode) (a : Arguments) (body : List Char) : Except Usage Pending :=
  let name := body.takeWhile (· ≠ '=')
  match longSetting? mode name, body.dropWhile (· ≠ '=') with
  | some s, [] => .ok (a, some s)
  | some s, _ :: value => settled (a.set s (String.ofList value))
  | .none, [] =>
    if name = "verbose".toList then settled a.setVerbose
    else if name = "help".toList then .error .help
    else .error .wrong
  | .none, _ :: _ => .error .wrong

/-- The letters of an argument such as `-v`, `-oFILE` or `-vo=FILE`. -/
def readShort (mode : Option Mode) (a : Arguments) : List Char → Except Usage Pending
  | [] => .ok (a, .none)
  | 'v' :: rest =>
    match a.setVerbose with
    | .ok a => readShort mode a rest
    | .error e => .error e
  | 'h' :: _ => .error .help
  | 'o' :: rest =>
    if mode ≠ some .generate then .error .wrong
    else
      match rest with
      | [] => .ok (a, some .out)
      | '=' :: value => settled (a.set .out (String.ofList value))
      | value => settled (a.set .out (String.ofList value))
  | _ => .error .wrong

/-- Whether an argument is an option rather than a file or value; a lone `-` is not. -/
def isOption (arg : String) : Bool :=
  match arg.toList with
  | '-' :: _ :: _ => true
  | _ => false

def readOption (mode : Option Mode) (a : Arguments) (arg : String) : Except Usage Pending :=
  match arg.toList with
  | '-' :: '-' :: body => readLong mode a body
  | _ :: letters => readShort mode a letters
  | [] => .error .wrong

/-! ## Argument lists -/

def addFiles (a : Arguments) : List String → Except Usage Arguments
  | [] => .ok a
  | text :: rest =>
    match a.addFile text with
    | .ok a => a.addFiles rest
    | .error e => .error e

/-- Reads the arguments behind the subcommand; an option that still waits has no value. -/
def read (mode : Mode) : Pending → List String → Except Usage Arguments
  | (a, .none), [] => .ok a
  | (_, some _), [] => .error .wrong
  | (a, some s), arg :: rest =>
    if isOption arg then .error .wrong
    else
      match a.set s arg with
      | .ok a => read mode (a, .none) rest
      | .error e => .error e
  | (a, .none), arg :: rest =>
    if arg = "--" then a.addFiles rest
    else if isOption arg then
      match readOption (some mode) a arg with
      | .ok p => read mode p rest
      | .error e => .error e
    else
      match a.addFile arg with
      | .ok a => read mode (a, .none) rest
      | .error e => .error e

end Arguments

/-- At least one file is needed, and the root is called `default` unless it is named. -/
def Invocation.make (mode : Mode) (verbose : Bool) (a : Arguments) : Except Usage Invocation :=
  if a.files.isEmpty then .error .wrong
  else
    .ok ⟨mode, verbose || a.verbose, a.files, a.root.getD "default", a.dirs, a.out⟩

def Invocation.subcommand (mode : Mode) (verbose : Bool) (args : List String) :
    Except Usage Invocation :=
  (Arguments.read mode (.none, .none) args).bind (make mode verbose)

/-- What help can be asked for: everything, or one of the subcommands. -/
def isHelpTopic (topic : List String) : Bool :=
  topic = [] || topic = ["generate"] || topic = ["dump"] || topic = ["help"]

/-- Before the subcommand only `-v` and the request for help are understood. -/
def Invocation.parse (verbose : Bool) : List String → Except Usage Invocation
  | [] => .error .wrong
  | "generate" :: rest => subcommand .generate verbose rest
  | "dump" :: rest => subcommand .dump verbose rest
  | "help" :: topic => .error (if isHelpTopic topic then .help else .wrong)
  | arg :: rest =>
    if Arguments.isOption arg ∧ arg ≠ "--" then
      match Arguments.readOption .none { Arguments.none with verbose := verbose } arg with
      | .ok (a, .none) => parse a.verbose rest
      | .ok (_, some _) => .error .wrong
      | .error e => .error e
    else .error .wrong

end FlatSchema.Command
