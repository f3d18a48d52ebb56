import ViewState.Identifier.Allocator
import ViewState.Reconciler

/-!
One rebuild pass: the allocator, the reconciler, the stacks of the regions that are open, and flags
that are read from the settings when they are first asked for and stay as they were read.
-/
namespace ViewState

inductive Flag
  | buildingViewMetadata
  | refreshingTransientBuild
  | markInitialState
deriving DecidableEq

def Flag.key : Flag → Settings.Key
  | buildingViewMetadata => .buildingViewMetadata
  | refreshingTransientBuild => .refreshingTransientBuild
  | markInitialState => .markInitialState

inductive Region
  | composite
  | validationGroup
  | excludedValidator
  | enclosingValidator
deriving DecidableEq

structure Composition where
  ids : Identifier.Allocator
  reconciler : Reconciler
  /-- The flags that are settled. -/
  flags : Flag → Option Bool
  /-- What is open of each kind of region, the innermost first. -/
  opened : Region → List String

namespace Composition

def new (ids : Identifier.Allocator) : Composition := ⟨ids, .new, fun _ => none, fun _ => []⟩

def setStack (c : Composition) (r : Region) (items : List String) : Composition :=
  { c with opened := fun r' => if r' = r then items else c.opened r' }

def push (c : Composition) (r : Region) (item : String) : Composition :=
  c.setStack r (item :: c.opened r)

/-- Takes the innermost entry off a stack; an empty stack stays as it is. -/
def pop (c : Composition) (r : Region) : Option String × Composition :=
  match c.opened r with
  | [] => (none, c)
  | item :: rest => (some item, c.setStack r rest)

def hasEnclosingValidator (c : Composition) (id : String) : Bool :=
  (c.opened .enclosingValidator).contains id

def enter (c : Composition) (component : String) : String × Composition :=
  let (boundary, ids) := c.ids.openSection
  (boundary, { c.push .composite component with ids })

def leave (c : Composition) : Except Failure String × Composition :=
  match c.opened .composite with
  | [] => (.error (.unbalancedSection c.ids.depth), c)
  | component :: rest =>
    match c.ids.closeSection with
    | (.error e, _) => (.error e, c)
    | (.ok (), ids) => (.ok component, { c.setStack .composite rest with ids })

def settle (c : Composition) (f : Flag) (value : Bool) : Composition :=
  { c with flags := fun f' => if f' = f then some value else c.flags f' }

/-- A flag; the settings are asked for it the first time only. -/
def flag (c : Composition) (p : Settings.Provider) (f : Flag) :
    Bool × Composition × Settings.Provider :=
  match c.flags f with
  | some value => (value, c, p)
  | none =>
    let (raw, p) := p.ask f.key
    let value := (raw.bind Settings.parseBool).getD false
    (value, c.settle f value, p)

/-- Whether what is built now belongs to a part that is refreshed: in a transient refresh, or in a
metadata region of a build that is not for metadata only. -/
def refreshingSection (c : Composition) (p : Settings.Provider) :
    Bool × Composition × Settings.Provider :=
  match c.flag p .refreshingTransientBuild with
  | (true, c, p) => (true, c, p)
  | (false, c, p) =>
    match c.flag p .buildingViewMetadata with
    | (true, c, p) => (false, c, p)
    | (false, c, p) => (c.ids.inMetadata, c, p)

end Composition

end ViewState
