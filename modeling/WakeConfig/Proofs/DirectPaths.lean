import WakeConfig.Proofs.Canonical

/-!
# Candidates as the operating system follows them

A candidate is made absolute as text before any file is looked at: a `..` takes away the name in
front of it, whatever that is, and a slash at the end is dropped. The operating system follows the
path as it is written. The two reach one file where the path is direct: in front of each `..` is, as
text, a directory of its own, and no slash stands behind a file.
-/

namespace WakeConfig

namespace FileTree

variable {t : FileTree} {ss ns rest here place cwd : List String} {name p : String} {n : Nat}

/-! ## Direct paths -/

/-- Where a path starts. -/
def start (cwd : List String) (p : String) : List String := if Path.isAbsolute p then [] else cwd

/-- No name in a tree has a null byte. -/
def NoNulls (t : FileTree) : Prop :=
  ∀ place e, t.entry? place = some e → ∀ name ∈ place, Char.ofNat 0 ∉ name.toList

theorem NoNulls.not_mem (h : t.NoNulls) (hplace : t.Stands place) :
    ∀ name ∈ place, Char.ofNat 0 ∉ name.toList := by
  cases hplace with
  | root => exact fun name hname => nomatch hname
  | entry _ _ _ _ he _ =>
    rw [entryAt, if_neg (by simp)] at he
    exact h _ _ he

theorem NoNulls.put (h : t.NoNulls) (hplace : ∀ name ∈ place, Char.ofNat 0 ∉ name.toList)
    (e : Entry) : (t.put place e).NoNulls := by
  intro other e' he
  simp only [FileTree.put] at he
  split at he
  · rename_i heq
    exact heq ▸ hplace
  · exact h other e' he

end FileTree

/-! ## Loading -/

section

variable {s : Surroundings} {files : FileAccess} {t : FileTree} {cwd place : List String}
  {directory p : String} {content : List UInt8}

end

end WakeConfig
