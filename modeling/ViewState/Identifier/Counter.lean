import ViewState.Failure
import ViewState.Settings.Basic
import ViewState.Word

/-!
Counters with sections, and tables of identifiers that are formatted ahead of their use. The
identifiers of a section extend the identifier at which it was opened, so what is counted in one
section never meets what is counted in another.
-/
namespace ViewState.Identifier

def numbered (stem : String) (count : Nat) : String := stem ++ Text.Decimal.ofNat count

/-- The stem of component identifiers outside of sections. -/
def componentStem : String := "_"

/-- The identifiers `1`, `2`, … under one stem. -/
structure Table where
  stem : String
  ids : Array String

namespace Table

def ofSize (stem : String) (size : Nat) : Table :=
  ⟨stem, Array.ofFn fun i : Fin size => numbered stem (i.val + 1)⟩

def defaultSize : Nat := 100

def ofSettings (lookup : Settings.Lookup) : Table :=
  ofSize componentStem (Settings.readSize lookup Settings.Key.idTableSize.name defaultSize)

def size (t : Table) : Nat := t.ids.size

def get? (t : Table) (stem : String) (count : UInt64) : Option String :=
  if stem = t.stem ∧ count ≠ 0 then t.ids[count.toNat - 1]? else none

end Table

/-- A stem, and how many identifiers were counted under it. -/
structure Section where
  stem : String
  count : UInt64
deriving DecidableEq

def Section.advance (s : Section) : Section := { s with count := Word.next s.count }

def Section.current (s : Section) : String := numbered s.stem s.count.toNat

/-- The outermost section, the sections open in it from the innermost on, and a table that may
hold identifiers of the outermost section. -/
structure Counter where
  outermost : Section
  nested : List Section
  table : Option Table

namespace Counter

def ofStem (stem : String) (table : Option Table) : Counter := ⟨⟨stem, 0⟩, [], table⟩

def depth (c : Counter) : Nat := c.nested.length

def skip (c : Counter) : Counter :=
  match c.nested with
  | [] => { c with outermost := c.outermost.advance }
  | s :: rest => { c with nested := s.advance :: rest }

/-- The identifier counted last in the innermost section. -/
def current (c : Counter) : String :=
  match c.nested with
  | [] =>
    (c.table.bind fun t => t.get? c.outermost.stem c.outermost.count).getD c.outermost.current
  | s :: _ => s.current

def next (c : Counter) : String × Counter := (c.skip.current, c.skip)

/-- Takes the next identifier as a boundary and opens a section under it. -/
def openSection (c : Counter) : String × Counter :=
  let (boundary, c) := c.next
  (boundary, { c with nested := ⟨boundary ++ "_", 0⟩ :: c.nested })

def close? (c : Counter) : Option Counter :=
  match c.nested with
  | [] => none
  | _ :: rest => some { c with nested := rest }

def closeSection (c : Counter) : Except Failure Unit × Counter :=
  match c.close? with
  | none => (.error (.unbalancedSection 0), c)
  | some closed => (.ok (), closed)

end Counter

end ViewState.Identifier
