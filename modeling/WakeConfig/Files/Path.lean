/-!
# Paths

Paths with slashes, taken as text: a path is absolute when it starts with a slash, and its
segments are what stands between slashes. Resolving a path against a directory applies its
segments one after the other, `..` removing the last and doing nothing at the root. No file system
is asked, so a symbolic link is a segment like any other.
-/

namespace WakeConfig.Path

/-! ## Segments -/

/-- Whether a path is absolute. -/
def isAbsolute (p : String) : Bool := p.toList.head? == some '/'

/-- The segments of a path that are not empty. -/
def segments (p : String) : List String :=
  ((p.toList.splitOn '/').filter fun s => !s.isEmpty).map String.ofList

/-- The place that a segment leads to. -/
def step (here : List String) (segment : String) : List String :=
  if segment = "." then here
  else if segment = ".." then here.dropLast
  else here ++ [segment]

/-- The place that segments lead to. -/
def walk (here : List String) (ss : List String) : List String := ss.foldl step here

/-- The absolute path of a place. -/
def render (place : List String) : String := "/" ++ "/".intercalate place

/-! ## Resolving -/

/-- The place of a path that starts at another place unless it is absolute. -/
def place (here : List String) (p : String) : List String :=
  walk (if isAbsolute p then [] else here) (segments p)

/-- The absolute form of a path in a directory. -/
def resolve (directory p : String) : String := render (place (place [] directory) p)

/-- The directory part of a path, as text: what stands before the last slash that is not at the
end. Two slashes that only names follow are kept. -/
def parent (p : String) : String :=
  let trimmed := p.toList.reverse.dropWhile (· == '/')
  match trimmed.dropWhile (· != '/') with
  | [] => if isAbsolute p then "/" else "."
  | [_] => "/"
  | [_, '/'] => "//"
  | _ :: rest => String.ofList rest.reverse

/-- The directory of the server: a directory that is declared in a file is taken from where the
file is, and one that is not declared in a file stays as it is. -/
def serverDirectory (workingDirectory directory : String) : Option String → String
  | none => directory
  | some configPath =>
    render (place (place (place [] workingDirectory) (parent configPath)) directory)

/-- A `.` leads nowhere. -/
@[simp] theorem step_dot (here : List String) : step here "." = here := rfl

/-- At the root `..` leads nowhere. -/
@[simp] theorem step_dotdot_root : step [] ".." = [] := rfl

/-- An absolute path leads to one place from everywhere. -/
theorem place_of_isAbsolute {p : String} (h : isAbsolute p = true) (here there : List String) :
    place here p = place there p := by
  simp [place, h]

end WakeConfig.Path
