import WakeConfig.Files.Error
import WakeConfig.Files.Path
import WakeConfig.Text.Utf8

/-!
# Access to files

The three requests by which the program sees files, and the safe forms in which it makes them: a
path is checked and made absolute first, and an entry that does not exist is an answer and not an
error.
-/

namespace WakeConfig

/-- What a path leads to. -/
inductive FileKind where
  | file
  | directory
  | other
  deriving Repr, DecidableEq

/-- The word for a kind. -/
def FileKind.word : FileKind → String
  | file => "file"
  | directory => "directory"
  | other => "other"

/-- A system of files as the program sees it, by absolute paths. -/
structure FileAccess where
  realPath : String → Except FileError String
  kind : String → Except FileError FileKind
  content : String → Except FileError (List UInt8)

namespace FileAccess

/-- The absolute form of a path that is neither empty nor has a null byte. -/
def validPath (directory p : String) : Except PathError String :=
  if p = "" then .error ⟨p, .empty⟩
  else if (Char.ofNat 0) ∈ p.toList then .error ⟨p, .nullByte⟩
  else .ok (Path.resolve directory p)

/-- A request for a path that has to be valid. -/
def request (directory p : String) (ask : String → Except FileError α) :
    Except AccessError α :=
  match validPath directory p with
  | .error e => .error (.path e)
  | .ok full => (ask full).mapError .file

/-- An answer to a request, with `missing` for an entry that does not exist. -/
def orMissing (missing : α) : Except FileError α → Except FileError α
  | .ok a => .ok a
  | .error e => if e.isMissing then .ok missing else .error e

/-- The text of a file. -/
def readText (files : FileAccess) (directory p : String) : Except AccessError String :=
  request directory p fun full =>
    (files.content full).map fun bytes => String.ofList (Text.Utf8.decode bytes)

/-- The kind of what a path leads to, if it leads anywhere. -/
def status (files : FileAccess) (directory p : String) : Except AccessError (Option FileKind) :=
  request directory p fun full => orMissing none ((files.kind full).map some)

/-- The path without symbolic links; that of a missing entry is its absolute path. -/
def canonical (files : FileAccess) (directory p : String) : Except AccessError String :=
  request directory p fun full => orMissing full (files.realPath full)

end FileAccess

end WakeConfig
