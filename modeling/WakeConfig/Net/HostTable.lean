import WakeConfig.Net.Resolve
import WakeConfig.Text.Blank

/-!
# Host tables

A table of host names as systems keep them: on each line an address and the names that it has, with
blanks between them, and comments behind a number sign.

Such a table is all that the outer layer of the program asks: the names of a configuration are
looked up in `/etc/hosts` only. A resolver of a system asks further services as well, such as the
name servers of its network; their answers are left to the resolver that a reading is given.
-/

namespace WakeConfig

/-- A table of host names, each with an address. -/
structure HostTable where
  entries : List (String × String)
  deriving Repr, DecidableEq

namespace HostTable

/-- The words of a line in front of its comment. -/
def words (line : List Char) : List String :=
  (((line.takeWhile (· != '#')).splitOnP Text.isBlank).filter fun w => !w.isEmpty).map String.ofList

/-- The entries of a line. -/
def lineEntries (line : List Char) : List (String × String) :=
  match words line with
  | [] => []
  | address :: names => names.map (·, address)

/-- Reads a table. -/
def read (text : String) : HostTable := ⟨(text.toList.splitOn '\n').flatMap lineEntries⟩

/-- The resolver that answers from a table. -/
def resolver (t : HostTable) : HostResolver := fun _ name =>
  .addresses ((t.entries.filter fun entry => entry.1 == name).map Prod.snd)

end HostTable

end WakeConfig
