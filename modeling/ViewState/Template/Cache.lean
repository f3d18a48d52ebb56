import ViewState.Failure
import ViewState.SortedMap
import ViewState.Template.Window

/-!
A cache of compiled templates. A template is compiled again when its window has gone by and its
source has changed since, or when it is asked for with a parameter that it was not compiled with. A
failure leaves the entries as they were.
-/
namespace ViewState.Template

abbrev Parameters : Type := SortedSet String

/-- What the cache asks of the outside: compiling a source, the time of the last change of a source
(0 if it is not there), and how a source is called in messages. -/
structure Workshop (α : Type) where
  compile : Namespace → String → Except Failure α
  lastModified : String → Except String UInt64
  displayName : String → String

/-- A compiled template. The serial number tells it from all others that a cache compiled. -/
structure Handle (α : Type) where
  source : String
  artifact : α
  createdAt : UInt64
  parameters : Parameters
  serial : Nat

structure Cache (α : Type) where
  windows : Windows
  entries : Namespace → SortedMap String (Handle α)
  /-- How many templates were compiled. -/
  compiled : Nat
  /-- How often the time of a last change was asked for. -/
  lookups : Nat

namespace Cache

variable {α : Type}

def new (windows : Windows) : Cache α := ⟨windows, fun _ => ∅, 0, 0⟩

def get? (c : Cache α) (ns : Namespace) (source : String) : Option (Handle α) :=
  (c.entries ns).get? source

def contains (c : Cache α) (ns : Namespace) (source : String) : Bool := (c.get? ns source).isSome

def size (c : Cache α) (ns : Namespace) : Nat := (c.entries ns).size

def setEntries (c : Cache α) (ns : Namespace) (entries : SortedMap String (Handle α)) : Cache α :=
  { c with entries := fun ns' => if ns' = ns then entries else c.entries ns' }

def invalidate (c : Cache α) (ns : Namespace) (source : String) : Bool × Cache α :=
  (c.contains ns source, c.setEntries ns ((c.entries ns).erase source))

/-- Whether a template has to be compiled again. The source is asked for its last change only when
the window has gone by. -/
def needsRefresh (c : Cache α) (w : Workshop α) (now : UInt64) (ns : Namespace) (h : Handle α) :
    Except Failure Bool × Cache α :=
  match c.windows ns with
  | .disabled => (.ok true, c)
  | .infinite => (.ok false, c)
  | .every milliseconds =>
    let target := Word.add h.createdAt milliseconds
    if now ≤ target then (.ok false, c)
    else
      let c := { c with lookups := c.lookups + 1 }
      match w.lastModified h.source with
      | .error cause => (.error (.staleness (w.displayName h.source) cause), c)
      | .ok modified => (.ok (modified = 0 || target < modified), c)

/-- Compiles a template and keeps it, unless its part of the cache keeps nothing. -/
def compile (c : Cache α) (w : Workshop α) (now : UInt64) (ns : Namespace) (source : String)
    (parameters : Parameters) : Except Failure (Handle α) × Cache α :=
  match w.compile ns source with
  | .error e => (.error e, c)
  | .ok artifact =>
    let handle : Handle α := ⟨source, artifact, now, parameters, c.compiled⟩
    let c := { c with compiled := c.compiled + 1 }
    if c.windows ns = .disabled then (.ok handle, c)
    else (.ok handle, c.setEntries ns ((c.entries ns).insert source handle))

/-- The parameters that a template has for its next compilation: those it had, in the standard part
of the cache. -/
def inherited (ns : Namespace) (previous : Option (Handle α)) : Parameters :=
  match ns, previous with
  | .standard, some handle => handle.parameters
  | _, _ => ∅

def get (c : Cache α) (w : Workshop α) (now : UInt64) (ns : Namespace) (source : String) :
    Except Failure (Handle α) × Cache α :=
  match c.get? ns source with
  | none => c.compile w now ns source ∅
  | some handle =>
    match c.needsRefresh w now ns handle with
    | (.error e, c) => (.error e, c)
    | (.ok false, c) => (.ok handle, c)
    | (.ok true, c) => c.compile w now ns source (inherited ns (some handle))

/-- The compiled template of a source for someone who knows some parameters. All of them are among
those that the template is compiled with, and afterwards all of those are known. -/
def getWith (c : Cache α) (w : Workshop α) (now : UInt64) (source : String) (known : Parameters) :
    Except Failure (Handle α) × Parameters × Cache α :=
  let previous := c.get? .standard source
  let baked := inherited .standard previous
  let compileAnew (c : Cache α) := c.compile w now .standard source (SortedSet.union baked known)
  let (result, c) : Except Failure (Handle α) × Cache α :=
    match previous with
    | none => compileAnew c
    | some handle =>
      if known.keys.all baked.contains then
        match c.needsRefresh w now .standard handle with
        | (.error e, c) => (.error e, c)
        | (.ok false, c) => (.ok handle, c)
        | (.ok true, c) => compileAnew c
      else compileAnew c
  match result with
  | .ok handle => (.ok handle, SortedSet.union known handle.parameters, c)
  | .error e => (.error e, known, c)

end Cache

end ViewState.Template
