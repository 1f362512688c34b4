/-!
# File errors

What can go wrong with a path before any file is asked for, and when a file is.
-/

namespace WakeConfig

/-- A path that cannot name a file. -/
inductive PathFault where
  | empty
  | nullByte
  deriving Repr, DecidableEq

/-- A path with its fault. -/
structure PathError where
  path : String
  fault : PathFault
  deriving Repr, DecidableEq

/-- The wording of a path error. -/
def PathError.message (e : PathError) : String :=
  match e.fault with
  | .empty => "Path cannot be empty"
  | .nullByte => "Path cannot contain null bytes"

/-- Why the system refuses a request. -/
inductive FileFault where
  | noEntry
  | notDirectory
  | linkLoop
  | nameTooLong
  | isDirectory
  | other (code description : String)
  deriving Repr, DecidableEq

namespace FileFault

/-- The code of a fault. -/
def code : FileFault → String
  | noEntry => "ENOENT"
  | notDirectory => "ENOTDIR"
  | linkLoop => "ELOOP"
  | nameTooLong => "ENAMETOOLONG"
  | isDirectory => "EISDIR"
  | other code _ => code

/-- The description of a fault. -/
def description : FileFault → String
  | noEntry => "no such file or directory"
  | notDirectory => "not a directory"
  | linkLoop => "too many symbolic links encountered"
  | nameTooLong => "name too long"
  | isDirectory => "illegal operation on a directory"
  | other _ description => description

end FileFault

/-- Whether a code says that there is no such entry. -/
def isMissingCode (code : String) : Bool := code == "ENOENT" || code == "ENOTDIR"

/-- What was asked of the system. Reading an open file has no path. -/
inductive FileCall where
  | open (path : String)
  | stat (path : String)
  | realpath (path : String)
  | read
  deriving Repr, DecidableEq

/-- A request that was refused. -/
structure FileError where
  call : FileCall
  fault : FileFault
  deriving Repr, DecidableEq

namespace FileError

/-- The code of a refusal. -/
def code (e : FileError) : String := e.fault.code

/-- The wording of a refusal. -/
def message (e : FileError) : String :=
  let what := e.fault.code ++ ": " ++ e.fault.description
  match e.call with
  | .open path => s!"{what}, open '{path}'"
  | .stat path => s!"{what}, stat '{path}'"
  | .realpath path => s!"{what}, realpath '{path}'"
  | .read => s!"{what}, read"

/-- Whether there is no such entry. -/
def isMissing (e : FileError) : Bool := isMissingCode e.code

end FileError

/-- A request that was refused by the system or never made. -/
inductive AccessError where
  | path (error : PathError)
  | file (error : FileError)
  deriving Repr, DecidableEq

/-- The name of a failed access in the log. -/
def AccessError.name : AccessError → String
  | path _ => "PathValidationError"
  | file _ => "Error"

/-- The wording of a failed access. -/
def AccessError.message : AccessError → String
  | path e => e.message
  | file e => e.message

end WakeConfig
