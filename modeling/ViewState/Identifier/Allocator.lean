import ViewState.Identifier.Counter

/-!
The allocator of a rebuild pass. Unique and component identifiers are counted side by side, and a
metadata region has counters of its own, so a metadata build never uses up identifiers of the normal
sequence. A journal can record the unique identifiers given out at the outermost level, and replay
them in a later pass.
-/
namespace ViewState.Identifier

/-- A counter of unique identifiers and one of component identifiers. -/
structure Counters where
  unique : Counter
  component : Counter

namespace Counters

def normal (table : Option Table) : Counters :=
  ⟨.ofStem "j_id" none, .ofStem componentStem table⟩

def metadata : Counters := ⟨.ofStem "__md_" none, .ofStem "__md_" none⟩

/-- Opens a section of both counters; its boundary is the unique one. -/
def openSection (c : Counters) : String × Counters :=
  let (boundary, unique) := c.unique.openSection
  (boundary, ⟨unique, c.component.openSection.2⟩)

def close? (c : Counters) : Option Counters := do
  let unique ← c.unique.close?
  let component ← c.component.close?
  return ⟨unique, component⟩

end Counters

/-- What is done with the unique identifiers at the outermost level. -/
inductive Journal
  | off
  /-- They are written down, in order. -/
  | recording (ids : List String)
  /-- They are taken from a list instead, as long as it lasts. -/
  | replaying (left : List String)
deriving DecidableEq

structure Allocator where
  normal : Counters
  /-- The counters of metadata regions, once one was entered. -/
  metadata : Option Counters
  /-- How many metadata regions are open, one inside the other. -/
  regions : Nat
  /-- How many sections are open, in and outside of metadata regions. -/
  level : Nat
  journal : Journal

namespace Allocator

def new (table : Option Table) : Allocator := ⟨.normal table, none, 0, 0, .off⟩

def depth (a : Allocator) : Nat := a.level

def inMetadata (a : Allocator) : Bool := 0 < a.regions

def active (a : Allocator) : Counters :=
  if a.inMetadata then a.metadata.getD .metadata else a.normal

def setActive (a : Allocator) (c : Counters) : Allocator :=
  if a.inMetadata then { a with metadata := some c } else { a with normal := c }

/-- Whether the journal has to do with the next unique identifier. -/
def atJournalScope (a : Allocator) : Bool := a.level = 0 ∧ a.regions = 0

def openSection (a : Allocator) : String × Allocator :=
  let (boundary, counters) := a.active.openSection
  (boundary, { a.setActive counters with level := a.level + 1 })

def closeSection (a : Allocator) : Except Failure Unit × Allocator :=
  if a.level = 0 then (.error (.unbalancedSection 0), a)
  else
    match a.active.close? with
    | none => (.error (.unbalancedSection a.level), a)
    | some counters => (.ok (), { a.setActive counters with level := a.level - 1 })

/-- The next unique identifier that the counters alone give. -/
def count (a : Allocator) : String × Allocator :=
  let (id, unique) := a.active.unique.next
  (id, a.setActive { a.active with unique })

/-- The next unique identifier. A replayed one counts on all the same, so those behind it keep
their places. -/
def next (a : Allocator) : String × Allocator :=
  if a.atJournalScope then
    match a.journal with
    | .replaying (id :: left) =>
      (id, { a with
        normal := { a.normal with unique := a.normal.unique.skip }
        journal := .replaying left })
    | .recording ids =>
      let (id, a) := a.count
      (id, { a with journal := .recording (ids ++ [id]) })
    | _ => a.count
  else a.count

def nextComponent (a : Allocator) : String × Allocator :=
  let (id, component) := a.active.component.next
  (id, a.setActive { a.active with component })

def enterMetadata (a : Allocator) : Allocator :=
  { a with metadata := some (a.metadata.getD .metadata), regions := a.regions + 1 }

def leaveMetadata (a : Allocator) : Except Failure Unit × Allocator :=
  if a.regions = 0 then (.error .unbalancedMetadata, a)
  else (.ok (), { a with regions := a.regions - 1 })

def startRecording (a : Allocator) : Allocator := { a with journal := .recording [] }

def replay (a : Allocator) (ids : List String) : Allocator :=
  { a with journal := .replaying ids }

def recorded (a : Allocator) : Option (List String) :=
  match a.journal with
  | .recording ids => some ids
  | _ => none

def takeRecorded (a : Allocator) : Option (List String) × Allocator :=
  match a.journal with
  | .recording ids => (some ids, { a with journal := .off })
  | _ => (none, a)

def replayRemaining (a : Allocator) : Nat :=
  match a.journal with
  | .replaying left => left.length
  | _ => 0

end Allocator

end ViewState.Identifier
