import FlatSchema.Build
import FlatSchema.Command.Arguments
import FlatSchema.Command.Detail
import FlatSchema.Disk
import FlatSchema.Schema.Dump
import FlatSchema.Script.Accessor

/-!
# Running a command

A command reads its files through a host and answers what is to be printed.  Generated code goes to
a file if one is named, and only once the whole schema has been compiled.
-/

namespace FlatSchema.Command

/-- A library that files can be written to. -/
structure Host (m : Type → Type) extends Library m where
  write : Path → String → m (Except FileError Unit)

structure Outcome where
  exit : Nat
  stdout : String
  stderr : String
  log : List LogEntry
  deriving DecidableEq, Repr

def usageText : String :=
  "Usage: bfbs [-v] generate|dump FILE... [--root NAME] [--path DIR]... [-o|--out FILE]\n"

namespace Outcome

def usage : Usage → Outcome
  | .help => ⟨0, usageText, "", []⟩
  | .wrong => ⟨2, "", usageText, []⟩

def success (stdout : String) (log : List LogEntry) : Outcome :=
  ⟨0, stdout, "", log⟩

def failure (verbose : Bool) (e : CompileError) (log : List LogEntry) : Outcome :=
  ⟨1, "", e.report verbose, log⟩

/-- The outcome without the log entries below a level. -/
def filterLog (least : LogLevel) (o : Outcome) : Outcome :=
  { o with log := o.log.filter (·.shownAt least) }

end Outcome

def wroteEntry (out : Path) : LogEntry :=
  ⟨.info, .command, "Generated JavaScript written to " ++ out.display⟩

variable {m : Type → Type} [Monad m]

def Invocation.run (host : Host m) (i : Invocation) : m Outcome := do
  match ← Build.compileFiles host.toLibrary ⟨i.rootName, i.dirs⟩ i.files with
  | (.error e, b) => pure (.failure i.verbose e b.log)
  | (.ok _, b) =>
    match i.mode, i.out with
    | .dump, _ => pure (.success (b.schema.dump ++ "\n") b.log)
    | .generate, none => pure (.success b.schema.script.render b.log)
    | .generate, some out =>
      match ← host.write out b.schema.script.render with
      | .ok _ => pure (.success "" (b.log ++ [wroteEntry out]))
      | .error e => pure (.failure i.verbose (.file e) b.log)

/-- The level below which nothing is logged. -/
def logLevel (setting : Option LogLevel) (verbose : Bool) : LogLevel :=
  setting.getD (if verbose then .debug else .warn)

def run (host : Host m) (setting : Option LogLevel) (args : List String) : m Outcome := do
  match Invocation.parse false args with
  | .error u => pure (.usage u)
  | .ok i =>
    let o ← i.run host
    pure (o.filterLog (logLevel setting i.verbose))

end FlatSchema.Command

namespace FlatSchema.Disk

/-- A disk as the host of a command; what is written is the state left behind. -/
def host (d : Disk) : Command.Host (StateM Disk) :=
  { d.library with
    write := fun p text => do
      match (← get).write p text with
      | .ok d => do
        set d
        pure (.ok ())
      | .error e => pure (.error e) }

end FlatSchema.Disk
