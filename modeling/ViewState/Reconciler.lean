import ViewState.Failure
import ViewState.Node

/-!
Pruning of nodes that a partial rebuild did not re-affirm. A level holds marks of a node and of the
nodes that it owns; re-affirming a node takes its mark away, here and on the level around, and
closing the level removes the owned nodes that are still marked. Levels nest.
-/
namespace ViewState

/-- The identifier of a root without a creation id. -/
def rootId : String := "oam.VIEW_ROOT"

inductive Place
  | owner
  | child
  | facet (name : String)
  /-- A child of a facet that only groups nodes. -/
  | grouped (facet : String)
deriving DecidableEq

structure Mark where
  kind : String
  place : Place
deriving DecidableEq

/-- The marks of a level, by creation id. -/
abbrev Level : Type := SortedMap String Mark

namespace Node

def ownId (n : Node) : String := n.creationId.getD rootId

def markAt (place : Place) (n : Node) : Option (String × Mark) :=
  n.creationId.map (·, ⟨n.kind, place⟩)

/-- The marks of a facet: its own if it has a creation id, otherwise those of the nodes that it
groups. -/
def facetMarks (name : String) (facet : Node) : List (String × Mark) :=
  match facet.markAt (.facet name) with
  | some mark => [mark]
  | none => if facet.isWrapper then facet.children.filterMap (markAt (.grouped name)) else []

def marks (n : Node) : List (String × Mark) :=
  (n.ownId, ⟨n.kind, .owner⟩) :: n.facets.flatMap (fun f => facetMarks f.1 f.2) ++
    n.children.filterMap (markAt .child)

end Node

structure Reconciler where
  /-- The open levels, the innermost first. -/
  levels : List Level
  /-- Emptied levels, to be opened again. -/
  spare : List Level

namespace Reconciler

def new : Reconciler := ⟨[], []⟩

def depth (r : Reconciler) : Nat := r.levels.length

def level? (r : Reconciler) : Option Level := r.levels.head?

def openLevel (r : Reconciler) : Reconciler :=
  match r.spare with
  | [] => { r with levels := ∅ :: r.levels }
  | level :: spare => ⟨level :: r.levels, spare⟩

def mark (r : Reconciler) (n : Node) : Except Failure Unit × Reconciler :=
  match r.levels with
  | [] => (.error (.unbalancedLevel 0), r)
  | level :: outer =>
    let marked := n.marks.foldl (fun level m => level.insert m.1 m.2) level
    (.ok (), { r with levels := marked :: outer })

/-- Opens a level with the marks of a node. -/
def begin (r : Reconciler) (n : Node) : Except Failure Unit × Reconciler := r.openLevel.mark n

/-- Takes a mark away from the innermost level, and with it one for the same identifier from the
level around. -/
def takeMark (levels : List Level) (id : String) : Bool × List Level :=
  match levels with
  | [] => (false, [])
  | level :: outer =>
    if level.contains id then
      (true, level.erase id ::
        match outer with
        | [] => []
        | next :: rest => next.erase id :: rest)
    else (false, level :: outer)

/-- Re-affirms a node. Says whether it was marked on the innermost level. -/
def reaffirm (r : Reconciler) (n : Node) : Except Failure Bool × Reconciler :=
  if r.levels.isEmpty then (.error (.unbalancedLevel 0), r)
  else
    let (marked, levels) := takeMark r.levels n.ownId
    (.ok marked, { r with levels })

def isMarked (r : Reconciler) (id : String) : Bool := (r.level?.getD ∅).contains id

def pending (r : Reconciler) : List String := (r.level?.getD ∅).keys

/-- A walk over owned nodes: the open levels, and the identifiers of the nodes removed so far. -/
structure Walk where
  levels : List Level
  removed : List String

/-- Takes away the mark of a node. Says whether the node stays. -/
def Walk.visit (w : Walk) (n : Node) : Bool × Walk :=
  match n.creationId with
  | none => (true, w)
  | some id =>
    let (marked, levels) := takeMark w.levels id
    (!marked, ⟨levels, if marked then w.removed ++ [id] else w.removed⟩)

def Walk.children (w : Walk) : List Node → List Node × Walk
  | [] => ([], w)
  | n :: ns =>
    let (stays, w) := w.visit n
    let (rest, w) := w.children ns
    (if stays then n :: rest else rest, w)

/-- Prunes a facet. One that only groups nodes goes when none of them is left. -/
def Walk.facet (w : Walk) (facet : Node) : Option Node × Walk :=
  if facet.creationId.isSome then
    let (stays, w) := w.visit facet
    (if stays then some facet else none, w)
  else if facet.isWrapper then
    let (children, w) := w.children facet.children
    (if children.isEmpty then none else some { facet with children }, w)
  else (some facet, w)

def Walk.facets (w : Walk) : List (String × Node) → List (String × Node) × Walk
  | [] => ([], w)
  | (name, facet) :: fs =>
    let (kept, w) := w.facet facet
    let (rest, w) := w.facets fs
    (match kept with
      | some facet => (name, facet) :: rest
      | none => rest, w)

/-- Closes the innermost level and removes from a node what is still marked there. Gives the
identifiers of the nodes removed, and the node as it is then. -/
def closeLevel (r : Reconciler) (n : Node) : Except Failure (List String) × Node × Reconciler :=
  if r.levels.isEmpty then (.error (.unbalancedLevel 0), n, r)
  else
    let start : Walk := ⟨(takeMark r.levels n.ownId).2, []⟩
    let (children, w) := start.children n.children
    let (facets, w) := w.facets n.facets
    (.ok w.removed, { n with children, facets }, ⟨w.levels.tail, ∅ :: r.spare⟩)

end Reconciler

end ViewState
