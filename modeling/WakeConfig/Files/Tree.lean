import WakeConfig.Files.Access

/-!
# Trees of files

A system of files as data: directories, files with their bytes and symbolic links, each at its
place. A path is followed name by name. A symbolic link is followed at once, before the names
behind it, and at most forty are; a name behind something that is no directory is refused, as is a
name of more than 255 bytes.

The system follows a path as a whole and takes none that is too long. The canonical path is found
otherwise, by a library that asks the system about one path after the other: each has the names
passed so far without symbolic links. So there the path that is given may be of any length, but none
of those on the way may be too long.
-/

namespace WakeConfig

/-- What stands at a place. A device is neither file nor directory, and it reads as empty. -/
inductive Entry where
  | file (content : List UInt8)
  | directory
  | link (target : String)
  | device
  deriving Repr, DecidableEq

/-- What stands at every place but the root, which is a directory. -/
structure FileTree where
  entry? : List String → Option Entry

namespace FileTree

/-! ## Looking -/

/-- The tree with nothing in it. -/
def empty : FileTree := ⟨fun _ => none⟩

/-- What stands at a place. -/
def entryAt (t : FileTree) (place : List String) : Option Entry :=
  if place = [] then some .directory else t.entry? place

/-- The longest name. -/
def maxName : Nat := 255

/-- The shortest path that is too long. -/
def maxPath : Nat := 4096

/-- How many symbolic links may be followed for one path. -/
def maxLinks : Nat := 40

/-- The names of a path in their order. A slash at the end asks for a directory, as a `.` does. -/
def names (p : String) : List String :=
  Path.segments p ++ if p.toList.getLast? = some '/' then ["."] else []

/-! ## Following -/

/-- How far names lead: to a place, and the names that are left because there is no entry for the
first of them. -/
structure Reach where
  place : List String
  missing : List String
  deriving Repr, DecidableEq

/-- Follows names from a place, where `follow` goes on behind a symbolic link. -/
def goWith (t : FileTree) (follow : List String → List String → Except FileFault Reach)
    (here : List String) : List String → Except FileFault Reach
  | [] => .ok ⟨here, []⟩
  | name :: rest =>
    match t.entryAt here with
    | some .directory =>
      if name = "." then goWith t follow here rest
      else if name = ".." then goWith t follow here.dropLast rest
      else if maxName < name.utf8ByteSize then .error .nameTooLong
      else
        match t.entryAt (here ++ [name]) with
        | none => .ok ⟨here, name :: rest⟩
        | some (.link target) =>
          follow (if Path.isAbsolute target then [] else here) (names target ++ rest)
        | some _ => goWith t follow (here ++ [name]) rest
    | _ => .error .notDirectory

/-- Follows names from a place, through at most the given number of symbolic links. -/
def go (t : FileTree) : Nat → List String → List String → Except FileFault Reach
  | 0 => goWith t fun _ _ => .error .linkLoop
  | links + 1 => goWith t (go t links)

/-- The place without symbolic links that names lead to from the root. -/
def placeOf (t : FileTree) (ns : List String) : Except FileFault (List String) :=
  match go t maxLinks [] ns with
  | .ok ⟨place, []⟩ => .ok place
  | .ok _ => .error .noEntry
  | .error fault => .error fault

/-- The place without symbolic links that an absolute path leads to. -/
def find (t : FileTree) (p : String) : Except FileFault (List String) := t.placeOf (names p)

/-- The place that an absolute path leads to, for a request that takes no longer path. -/
def locate (t : FileTree) (p : String) : Except FileFault (List String) :=
  if maxPath ≤ p.utf8ByteSize then .error .nameTooLong else t.find p

/-! ## Canonical paths -/

/-- The entry of a name in the directory at a place. -/
def look (t : FileTree) (here : List String) (name : String) : Except FileFault Entry :=
  match t.entryAt here with
  | some .directory =>
    if maxName < name.utf8ByteSize then .error .nameTooLong
    else
      match t.entryAt (here ++ [name]) with
      | none => .error .noEntry
      | some entry => .ok entry
  | _ => .error .notDirectory

/-- Whether what stands in front of some names has to be a directory: they stay where it is, or go
back from it. -/
def askDirectory (ns : List String) : Bool :=
  match ns.dropWhile (· == ".") with
  | [] => !ns.isEmpty
  | name :: _ => name == ".."

/-- Finds the place of names without symbolic links, where `follow` goes on behind a link. Each
place on the way is asked for by its path, with a slash at the end where it has to be a directory;
what `..` leaves is not looked at again. -/
def realWith (t : FileTree)
    (follow : List String → List String → Except FileFault (List String)) (here : List String) :
    List String → Except FileFault (List String)
  | [] => .ok here
  | name :: rest =>
    if name = "." then realWith t follow here rest
    else if name = ".." then realWith t follow here.dropLast rest
    else
      let size := (Path.render (here ++ [name])).utf8ByteSize
      if maxPath ≤ size then .error .nameTooLong
      else
        match t.look here name with
        | .ok (.link target) =>
          follow (if Path.isAbsolute target then [] else here) (names target ++ rest)
        | found =>
          if askDirectory rest then
            if maxPath ≤ size + 1 then .error .nameTooLong
            else
              match found with
              | .ok .directory => realWith t follow (here ++ [name]) rest
              | .ok _ => .error .notDirectory
              | .error fault => .error fault
          else
            match found with
            | .ok _ => realWith t follow (here ++ [name]) rest
            | .error fault => .error fault

/-- Finds the place of names without symbolic links, through at most the given number of links. -/
def real (t : FileTree) : Nat → List String → List String → Except FileFault (List String)
  | 0 => realWith t fun _ _ => .error .linkLoop
  | links + 1 => realWith t (real t links)

/-! ## Requests -/

/-- The kind of an entry. -/
def kindOf : Option Entry → FileKind
  | some (.file _) => .file
  | some .directory => .directory
  | _ => .other

/-- The requests to a tree. -/
def access (t : FileTree) : FileAccess where
  realPath p := ((t.real maxLinks [] (names p)).map Path.render).mapError fun fault =>
    ⟨.realpath p, fault⟩
  kind p := ((t.locate p).map fun place => kindOf (t.entryAt place)).mapError fun fault =>
    ⟨.stat p, fault⟩
  content p :=
    match t.locate p with
    | .error fault => .error ⟨.open p, fault⟩
    | .ok place =>
      match t.entryAt place with
      | some (.file content) => .ok content
      | some .device => .ok []
      | _ => .error ⟨.read, .isDirectory⟩

/-! ## Changing -/

/-- Puts an entry at a place. -/
def put (place : List String) (entry : Entry) (t : FileTree) : FileTree :=
  ⟨fun p => if p = place then some entry else t.entry? p⟩

/-- Puts directories one below the other. -/
def putDirectories (here : List String) : List String → FileTree → FileTree
  | [], t => t
  | name :: rest, t => putDirectories (here ++ [name]) rest (t.put (here ++ [name]) .directory)

/-- Makes the directory that names lead to, and all directories on the way that are missing. -/
def makeDirectory (ns : List String) (t : FileTree) : FileTree :=
  match go t maxLinks [] ns with
  | .ok ⟨place, missing⟩ => t.putDirectories place missing
  | .error _ => t

/-- The place of the entry that the last of some names means in the directory of the others; a
symbolic link at that place is not followed. -/
def slot? (t : FileTree) (ns : List String) : Option (List String) :=
  match ns.getLast?, t.placeOf ns.dropLast with
  | some name, .ok directory => some (directory ++ [name])
  | _, _ => none

/-- The place at which a file is written: where names lead to, or where only the last is missing. A
directory is not written over. -/
def filePlace? (t : FileTree) (ns : List String) : Option (List String) :=
  match go t maxLinks [] ns with
  | .ok ⟨place, []⟩ => if t.entryAt place = some .directory then none else some place
  | .ok ⟨directory, [name]⟩ => some (directory ++ [name])
  | _ => none

/-- Puts an entry at an absolute path and makes the directories on the way. A file is written where
a symbolic link at the path leads, a directory that is there stays, and a symbolic link does not
take the place of another entry. -/
def write (p : String) (entry : Entry) (t : FileTree) : FileTree :=
  let ns := Path.place [] p
  let t := t.makeDirectory ns.dropLast
  match entry with
  | .directory => t.makeDirectory ns
  | .link _ =>
    match t.slot? ns with
    | some place => if (t.entryAt place).isSome then t else t.put place entry
    | none => t
  | _ =>
    match t.filePlace? ns with
    | some place => t.put place entry
    | none => t

/-- Takes away what stands at an absolute path and below it. -/
def remove (p : String) (t : FileTree) : FileTree :=
  match t.slot? (Path.place [] p) with
  | some place => ⟨fun q => if place.isPrefixOf q then none else t.entry? q⟩
  | none => t

/-- An entry that was put stands at its place. -/
theorem entryAt_put {place : List String} (h : place ≠ []) (entry : Entry) (t : FileTree) :
    (t.put place entry).entryAt place = some entry := by
  simp [entryAt, put, h]

/-- A place without names is found where it is. -/
theorem go_nil (t : FileTree) (links : Nat) (here : List String) :
    go t links here [] = .ok ⟨here, []⟩ := by
  cases links <;> rfl

end FileTree

end WakeConfig
