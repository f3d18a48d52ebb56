import ViewState.Template.Directory

/-!
A walk over all templates of a directory, a number of times, with a report of what the cache did for
each of them.
-/
namespace ViewState.Template

inductive Status
  | compiled
  | hit
  | recompiled
  | failed
deriving DecidableEq

def Status.name : Status → String
  | compiled => "compiled"
  | hit => "hit"
  | recompiled => "recompiled"
  | failed => "failed"

structure Report where
  pass : Nat
  source : String
  status : Status
  summary : Summary
  error : Option String
deriving DecidableEq

namespace Walk

/-- The cache, and the template last returned for each source. -/
structure State where
  cache : Cache Summary
  previous : SortedMap String (Handle Summary)

/-- What happened to a source, by the template returned for it before and the one returned now. -/
def statusOf (previous : Option (Handle Summary)) (handle : Handle Summary) : Status :=
  match previous with
  | none => .compiled
  | some prior => if prior.serial = handle.serial then .hit else .recompiled

def visit (w : Workshop Summary) (now : UInt64) (pass : Nat) (s : State) (source : String) :
    Except Failure (Report × State) :=
  match s.cache.get w now .standard source with
  | (.ok handle, cache) =>
    .ok (⟨pass, source, statusOf (s.previous.get? source) handle, handle.artifact, none⟩,
      ⟨cache, s.previous.insert source handle⟩)
  | (.error (.construction source' message), cache) =>
    .ok (⟨pass, source, .failed, ⟨0, 0⟩, some (Failure.construction source' message).message⟩,
      { s with cache })
  | (.error e, _) => .error e

def block (w : Workshop Summary) (now : UInt64) (pass : Nat) :
    State → List String → Except Failure (List Report × State)
  | s, [] => .ok ([], s)
  | s, source :: rest => do
    let (report, s) ← visit w now pass s source
    let (reports, s) ← block w now pass s rest
    return (report :: reports, s)

/-- Looks all sources up in each of `left` passes, from the pass with number `pass` on. -/
def passes (w : Workshop Summary) (now : UInt64) (sources : List String) (pass : Nat) :
    State → (left : Nat) → Except Failure (List Report)
  | _, 0 => .ok []
  | s, left + 1 => do
    let (reports, s) ← block w now pass s sources
    return reports ++ (← passes w now sources (pass + 1) s left)

end Walk

/-- Walks over the templates below a directory. A refresh period replaces that of the settings. -/
def walk (files : Files.Tree) (now : UInt64) (lookup : Settings.Lookup) (root : String)
    (refresh : Option Int) (passes : Nat) : Except Failure (List Report) := do
  let windows := match refresh with
    | some seconds => Windows.uniform (.ofSeconds seconds)
    | none => Windows.ofSettings lookup
  let sources ← Directory.sources files root
  if sources.isEmpty then return []
  Walk.passes (Directory.workshop files root) now sources 1 ⟨.new windows, ∅⟩ passes

end ViewState.Template
