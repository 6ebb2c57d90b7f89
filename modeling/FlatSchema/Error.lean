import FlatSchema.Schema.Error
import FlatSchema.Source.Fault

/-!
# Why a compilation fails

A file cannot be read or written, a text is at fault, a declaration is refused where it stands,
the schema as a whole cannot be resolved, or an include leads nowhere.
-/

namespace FlatSchema

/-- An answer of the operating system, with the name it goes by in reports. -/
structure OsError where
  code : Nat
  kind : String
  message : String
  deriving DecidableEq, Repr

namespace OsError

def noEntry : OsError := ⟨2, "NotFound", "No such file or directory"⟩

def notDirectory : OsError := ⟨20, "NotADirectory", "Not a directory"⟩

def isDirectory : OsError := ⟨21, "IsADirectory", "Is a directory"⟩

def nameTooLong : OsError := ⟨36, "InvalidFilename", "File name too long"⟩

def noText : OsError := ⟨84, "Uncategorized", "Invalid or incomplete multibyte or wide character"⟩

end OsError

/-- Why a file cannot be read or written. -/
inductive FileError where
  | notFound (path : String)
  | nulInPath
  | invalidUtf8
  | os (error : OsError)
  deriving DecidableEq, Repr

def FileError.message : FileError → String
  | notFound path => path ++ " not found"
  | nulInPath => "file name contained an unexpected NUL byte"
  | invalidUtf8 => "stream did not contain valid UTF-8"
  | os error => error.message ++ " (os error " ++ toString error.code ++ ")"

inductive CompileError where
  | file (cause : FileError)
  | parse (fault : ParseFault) (location : Location)
  | declaration (cause : SchemaError) (location : Location)
  | schema (cause : SchemaError)
  | unsupported (feature : Feature) (location : Location)
  | includeNotFound (written : String)
  | includeDepth (path : String)
  deriving DecidableEq, Repr

namespace CompileError

def ofScan (location : Location) : ScanFault → CompileError
  | .parse fault => parse fault location
  | .unsupported feature => unsupported feature location

/-- The text without the periods it ends in. -/
def trimPeriods (s : String) : String :=
  String.ofList (s.toList.reverse.dropWhile (· = '.')).reverse

/-- A refused declaration is reported without its closing period, in front of its location. -/
def message : CompileError → String
  | file cause => "I/O error: " ++ cause.message
  | parse fault location => fault.message ++ " at " ++ location.text
  | declaration cause location => trimPeriods cause.message ++ " at " ++ location.text
  | schema cause => cause.message
  | unsupported feature location => feature.name ++ " are not supported at " ++ location.text
  | includeNotFound written => "Include '" ++ written ++ "' not found."
  | includeDepth path => "Includes are nested too deeply at '" ++ path ++ "'."

def location? : CompileError → Option Location
  | parse _ location => some location
  | declaration _ location => some location
  | unsupported _ location => some location
  | _ => none

/-- Whether the failure lies outside the schema: a file that cannot be read or written, or a
construct that is not supported. -/
def isInternal : CompileError → Bool
  | file _ => true
  | unsupported _ _ => true
  | _ => false

end CompileError

end FlatSchema
