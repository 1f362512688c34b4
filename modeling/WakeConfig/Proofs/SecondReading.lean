import WakeConfig.Proofs.FileSections
import WakeConfig.Proofs.Shown
import WakeConfig.Proofs.Toml.MarkedTables

/-!
# The second reading of a file

A file is read as it stands, and where it has floats it is read again with the floats marked; the
tree is built of the second table. `parse_eq_build` says that this is the tree of the first table
with its floats marked, and `notToml_iff` when a file is refused as no TOML.
-/

namespace WakeConfig

open Toml (Value Table Document document? read?)
open Toml.FloatLiteral (mark)

/-- Whether a document that has a table still has one after marking: all its arrays are even, and no
two keys get in each other's way once they are respelled. -/
def Toml.Document.survives (d : Document) : Bool :=
  d.table?.isSome && d.isEven && d.respelled.table?.isSome

/-- Where no key can change, only arrays can get in the way of marking. -/
theorem Toml.Document.survives_of_isFixed {d : Document} (h : d.isFixed = true) :
    d.survives = (d.table?.isSome && d.isEven) := by
  rw [Document.survives, Document.table?_respelled_of_isFixed h]
  cases d.table?.isSome <;> simp

/-- Whether a value is a float. -/
def Toml.Value.isFloat : Value → Bool
  | .float _ => true
  | _ => false

namespace FromToml

variable {text : String} {d : Document} {t u : Table}

theorem table?_eq (text : String) :
    table? text = (read? text.toList).bind fun _ => read? (mark text.toList) := by
  unfold table?
  dsimp only
  cases h : read? text.toList with
  | none => rfl
  | some t =>
    dsimp only
    split
    · rename_i hm
      rw [hm, h, Option.bind_some]
    · rfl

theorem exists_document (h : read? text.toList = some t) :
    ∃ d, document? text.toList = some d ∧ d.table? = some t := by
  rw [Toml.read?_eq] at h
  exact Option.bind_eq_some_iff.1 h

theorem read?_mark (hd : document? text.toList = some d) (hk : d.keepsStep = true) :
    read? (mark text.toList) = d.marked.table? := by
  rw [Toml.read?_eq, Toml.document?_mark hd hk, Option.bind_some]

theorem isSome_read?_mark (hd : document? text.toList = some d) (ht : d.table? = some t)
    (hk : d.keepsStep = true) : (read? (mark text.toList)).isSome = d.survives := by
  have hiff := fun u => Document.table?_marked_iff (u := u) ht
  rw [read?_mark hd hk, Document.survives, ht, Option.isSome_some, Bool.true_and, Bool.eq_iff_iff,
    Bool.and_eq_true]
  constructor
  · intro h
    obtain ⟨u, hu⟩ := Option.isSome_iff_exists.1 h
    obtain ⟨heven, r, hr, -⟩ := (hiff u).1 hu
    exact ⟨heven, by rw [hr, Option.isSome_some]⟩
  · rintro ⟨heven, h⟩
    obtain ⟨r, hr⟩ := Option.isSome_iff_exists.1 h
    rw [(hiff r.marked).2 ⟨heven, r, hr, rfl⟩, Option.isSome_some]

/-- What the second reading shows is what the first one shows with its floats marked. -/
theorem shown_read?_mark (hk : (document? text.toList).all Document.keepsStep = true)
    (ht : read? text.toList = some t) (hu : read? (mark text.toList) = some u) :
    u.shown = t.marked.shown := by
  obtain ⟨d, hd, hdt⟩ := exists_document ht
  rw [hd, Option.all_some] at hk
  rw [read?_mark hd hk] at hu
  exact Document.shown_marked hdt hu

/-- The tree of a file is that of its table with its floats marked. -/
theorem parse_eq_build (platform : Platform) (resolver : HostResolver)
    (hk : (document? text.toList).all Document.keepsStep = true)
    (ht : read? text.toList = some t) (hu : read? (mark text.toList) = some u) :
    parse platform resolver text = build platform resolver t.marked := by
  rw [← build_shown platform resolver t.marked, ← shown_read?_mark hk ht hu, build_shown, parse,
    table?_eq, ht, Option.bind_some, hu]

/-- A file has a second table if its document survives marking. -/
theorem isSome_table? (hk : (document? text.toList).all Document.keepsStep = true) :
    (table? text).isSome = (document? text.toList).any Document.survives := by
  rw [table?_eq]
  cases ht : read? text.toList with
  | some t =>
    obtain ⟨d, hd, hdt⟩ := exists_document ht
    rw [hd, Option.all_some] at hk
    rw [Option.bind_some, hd, Option.any_some, isSome_read?_mark hd hdt hk]
  | none =>
    rw [Toml.read?_eq] at ht
    cases hd : document? text.toList with
    | none => rfl
    | some d =>
      rw [hd, Option.bind_some] at ht
      simp [Document.survives, ht]

theorem parse_notToml_iff (platform : Platform) (resolver : HostResolver) (text : String) :
    (parse platform resolver text).result = .error (.own (.notToml (refusedText text))) ↔
      table? text = none := by
  unfold parse
  cases table? text with
  | none => simp
  | some t => simpa using build_ne_notToml platform resolver t _

/-- What becomes of a file is decided by its first reading and by whether its document survives
marking. It is refused as no TOML if it has no such document; and else the second table shows what
the first one shows with its floats marked, and the tree is that of the first one with its floats
marked. -/
theorem second_reading (platform : Platform) (resolver : HostResolver) (text : String)
    (hk : (document? text.toList).all Document.keepsStep = true) :
    ((parse platform resolver text).result = .error (.own (.notToml (refusedText text))) ↔
      (document? text.toList).any Document.survives = false) ∧
    ∀ t, read? text.toList = some t →
      (read? (mark text.toList)).isSome = (document? text.toList).any Document.survives ∧
      ∀ u, read? (mark text.toList) = some u →
        u.shown = t.marked.shown ∧
          parse platform resolver text = build platform resolver t.marked := by
  refine ⟨?_, fun t ht => ⟨?_, fun u hu =>
    ⟨shown_read?_mark hk ht hu, parse_eq_build platform resolver hk ht hu⟩⟩⟩
  · rw [parse_notToml_iff, ← isSome_table? hk, Option.isSome_eq_false_iff,
      Option.isNone_iff_eq_none]
  · rw [← isSome_table? hk, table?_eq, ht, Option.bind_some]

/-- A file in which floats stand as elements and as a name. -/
def someFloats : String := "a = [1.5, 2e1]\n1.5 = 1\n"

theorem second_reading_someFloats :
    ∃ t u, read? someFloats.toList = some t ∧ read? (mark someFloats.toList) = some u ∧
      u.shown = t.marked.shown ∧
      parse .other (fun _ _ => .addresses []) someFloats
        = build .other (fun _ _ => .addresses []) t.marked := by
  have hk : (document? someFloats.toList).all Document.keepsStep = true := by decide +kernel
  obtain ⟨t, ht⟩ : ∃ t, read? someFloats.toList = some t :=
    Option.isSome_iff_exists.1 (by decide +kernel)
  obtain ⟨u, hu⟩ : ∃ u, read? (mark someFloats.toList) = some u :=
    Option.isSome_iff_exists.1 (by decide +kernel)
  exact ⟨t, u, ht, hu, ((second_reading _ _ _ hk).2 t ht).2 u hu⟩

/-- An array with an unfinished float beside a finished one. -/
def unevenArray : String := "a = [1.5, 2.]\n"

/-- A name that is respelled where it stands alone, but not in front of a point. -/
def splitName : String := "[[inf]]\n[inf.x]\n[[inf]]\n[inf.x]\n"

/-- A local time that takes a quote mark with it. -/
def takenQuote : String := "a = \x7bt = 07:32:00\", f = 1.5\x7d\n"

/-- Three files that have a table. The first two are refused as no TOML, and in the third one a
float is not marked. -/
theorem second_reading_strays :
    ((read? unevenArray.toList).isSome = true ∧
      (parse .other (fun _ _ => .addresses []) unevenArray).result
        = .error (.own (.notToml (refusedText unevenArray)))) ∧
    ((read? splitName.toList).isSome = true ∧
      (parse .other (fun _ _ => .addresses []) splitName).result
        = .error (.own (.notToml (refusedText splitName)))) ∧
    (((table? takenQuote).bind (sectionTable? · "a")).bind (Table.get? · "f")).any
      Value.isFloat = true := by
  refine ⟨⟨by decide +kernel, ?_⟩, ⟨by decide +kernel, ?_⟩, by decide +kernel⟩
  · exact (parse_notToml_iff _ _ _).2 (Option.isNone_iff_eq_none.1 (by decide +kernel))
  · exact (parse_notToml_iff _ _ _).2 (Option.isNone_iff_eq_none.1 (by decide +kernel))

end FromToml

end WakeConfig
