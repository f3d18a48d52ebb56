import ViewState.Proofs.Reconciler.Run

/-!
Levels that are kept for reuse, against levels that are made anew. A reconciler that keeps none is
called alongside one that does. Both hold the same open levels after every call, so nobody who calls
them and looks at what is marked can tell them apart.
-/
namespace ViewState

namespace Reconciler

inductive Reply
  | opened
  | marked (result : Except Failure Unit)
  | reaffirmed (result : Except Failure Bool)
  | closed (result : Except Failure (List String)) (n : Node)

namespace Reply

def error? : Reply → Option Failure
  | opened => none
  | marked (.error e) | reaffirmed (.error e) | closed (.error e) _ => some e
  | marked (.ok _) | reaffirmed (.ok _) | closed (.ok _) _ => none

def node? : Reply → Option Node
  | closed _ n => some n
  | _ => none

end Reply

def Call.node? : Call → Option Node
  | closeLevel n => some n
  | _ => none

def reply (r : Reconciler) : Call → Reply
  | .openLevel => .opened
  | .begin n => .marked (r.begin n).1
  | .mark n => .marked (r.mark n).1
  | .reaffirm n => .reaffirmed (r.reaffirm n).1
  | .closeLevel n => .closed (r.closeLevel n).1 (r.closeLevel n).2.1

/-- All that can be seen of a call: what it gives back, and what is marked after it. -/
structure Sight where
  reply : Reply
  depth : Nat
  pending : List String
  isMarked : String → Bool

def sight (r : Reconciler) (c : Call) : Sight :=
  ⟨r.reply c, (r.after c).depth, (r.after c).pending, (r.after c).isMarked⟩

def sights (r : Reconciler) : List Call → List Sight
  | [] => []
  | c :: calls => r.sight c :: (r.after c).sights calls

/-- A reconciler that makes each level when it is opened and drops it when it is closed. -/
structure Unpooled where
  /-- The open levels, the innermost first. -/
  levels : List Level

namespace Unpooled

def new : Unpooled := ⟨[]⟩

def depth (u : Unpooled) : Nat := u.levels.length

def level (u : Unpooled) : Level := u.levels.head?.getD ∅

def pending (u : Unpooled) : List String := u.level.keys

def isMarked (u : Unpooled) (id : String) : Bool := u.level.contains id

def openLevel (u : Unpooled) : Unpooled := ⟨∅ :: u.levels⟩

def mark (u : Unpooled) (n : Node) : Except Failure Unit × Unpooled :=
  match u.levels with
  | [] => (.error (.unbalancedLevel 0), u)
  | level :: outer =>
    (.ok (), ⟨n.marks.foldl (fun level m => level.insert m.1 m.2) level :: outer⟩)

def reaffirm (u : Unpooled) (n : Node) : Except Failure Bool × Unpooled :=
  match u.levels with
  | [] => (.error (.unbalancedLevel 0), u)
  | level :: outer =>
    let (marked, levels) := takeMark (level :: outer) n.ownId
    (.ok marked, ⟨levels⟩)

def closeLevel (u : Unpooled) (n : Node) : Except Failure (List String) × Node × Unpooled :=
  match u.levels with
  | [] => (.error (.unbalancedLevel 0), n, u)
  | level :: outer =>
    let start : Walk := ⟨(takeMark (level :: outer) n.ownId).2, []⟩
    let (children, w) := start.children n.children
    let (facets, w) := w.facets n.facets
    (.ok w.removed, { n with children, facets }, ⟨w.levels.tail⟩)

def reply (u : Unpooled) : Call → Reply
  | .openLevel => .opened
  | .begin n => .marked (u.openLevel.mark n).1
  | .mark n => .marked (u.mark n).1
  | .reaffirm n => .reaffirmed (u.reaffirm n).1
  | .closeLevel n => .closed (u.closeLevel n).1 (u.closeLevel n).2.1

def after (u : Unpooled) : Call → Unpooled
  | .openLevel => u.openLevel
  | .begin n => (u.openLevel.mark n).2
  | .mark n => (u.mark n).2
  | .reaffirm n => (u.reaffirm n).2
  | .closeLevel n => (u.closeLevel n).2.2

def sight (u : Unpooled) (c : Call) : Sight :=
  ⟨u.reply c, (u.after c).depth, (u.after c).pending, (u.after c).isMarked⟩

def sights (u : Unpooled) : List Call → List Sight
  | [] => []
  | c :: calls => u.sight c :: (u.after c).sights calls

end Unpooled

/-- The open levels are the same, and those kept for reuse are empty. -/
structure Shows (r : Reconciler) (u : Unpooled) : Prop where
  levels : r.levels = u.levels
  pooled : r.Pooled

namespace Shows

variable {r : Reconciler} {u : Unpooled}

theorem openLevel (h : r.Shows u) : r.openLevel.Shows u.openLevel where
  levels := by rw [h.pooled.openLevel.1, h.levels, Unpooled.openLevel]
  pooled := h.pooled.openLevel.2

theorem mark (h : r.Shows u) (n : Node) :
    (r.mark n).1 = (u.mark n).1 ∧ (r.mark n).2.levels = (u.mark n).2.levels := by
  unfold Reconciler.mark Unpooled.mark
  rw [h.levels]
  cases hu : u.levels with
  | nil => exact ⟨rfl, h.levels⟩
  | cons level outer => exact ⟨rfl, rfl⟩

theorem reaffirm (h : r.Shows u) (n : Node) :
    (r.reaffirm n).1 = (u.reaffirm n).1 ∧ (r.reaffirm n).2.levels = (u.reaffirm n).2.levels := by
  unfold Reconciler.reaffirm Unpooled.reaffirm
  rw [h.levels]
  cases hu : u.levels with
  | nil => exact ⟨rfl, h.levels⟩
  | cons level outer => exact ⟨rfl, rfl⟩

theorem closeLevel (h : r.Shows u) (n : Node) :
    (r.closeLevel n).1 = (u.closeLevel n).1 ∧ (r.closeLevel n).2.1 = (u.closeLevel n).2.1 ∧
      (r.closeLevel n).2.2.levels = (u.closeLevel n).2.2.levels := by
  unfold Reconciler.closeLevel Unpooled.closeLevel
  rw [h.levels]
  cases hu : u.levels with
  | nil => exact ⟨rfl, rfl, h.levels⟩
  | cons level outer => exact ⟨rfl, rfl, rfl⟩

theorem reply (h : r.Shows u) (c : Call) : r.reply c = u.reply c := by
  cases c with
  | openLevel => rfl
  | begin n => exact congrArg Reply.marked (h.openLevel.mark n).1
  | mark n => exact congrArg Reply.marked (h.mark n).1
  | reaffirm n => exact congrArg Reply.reaffirmed (h.reaffirm n).1
  | closeLevel n =>
    obtain ⟨hresult, hnode, -⟩ := h.closeLevel n
    rw [Reconciler.reply, Unpooled.reply, hresult, hnode]

theorem after (h : r.Shows u) (c : Call) : (r.after c).Shows (u.after c) where
  levels := by
    cases c with
    | openLevel => exact h.openLevel.levels
    | begin n => exact (h.openLevel.mark n).2
    | mark n => exact (h.mark n).2
    | reaffirm n => exact (h.reaffirm n).2
    | closeLevel n => exact (h.closeLevel n).2.2
  pooled := h.pooled.after c

theorem sight (h : r.Shows u) (c : Call) : r.sight c = u.sight c := by
  have hlevels := (h.after c).levels
  unfold Reconciler.sight Unpooled.sight Reconciler.depth Reconciler.pending Reconciler.isMarked
    Reconciler.level?
  rw [h.reply c, hlevels]
  rfl

theorem sights (h : r.Shows u) (calls : List Call) : r.sights calls = u.sights calls := by
  induction calls generalizing r u with
  | nil => rfl
  | cons c calls ih => rw [Reconciler.sights, Unpooled.sights, h.sight c, ih (h.after c)]

end Shows

/-- A call fails only where no level is open, and leaves all as it is. -/
theorem unchanged_of_error {r : Reconciler} {c : Call} {e : Failure}
    (h : (r.reply c).error? = some e) :
    e = .unbalancedLevel 0 ∧ r.levels = [] ∧ r.after c = r ∧ (r.reply c).node? = c.node? := by
  obtain ⟨levels, spare⟩ := r
  cases levels with
  | nil =>
    cases c with
    | openLevel => cases h
    | begin n => cases spare <;> cases h
    | mark n | reaffirm n | closeLevel n =>
      cases h
      exact ⟨rfl, rfl, rfl, rfl⟩
  | cons level outer =>
    cases c with
    | openLevel | mark n | reaffirm n | closeLevel n => cases h
    | begin n => cases spare <;> cases h

/-- Whatever is called, in whatever order, the reconciler shows what one shows that makes each level
anew. A level that is opened has no marks, wherever it comes from; and a call that fails finds no
open level and changes neither the reconciler nor the node. -/
theorem pooling_invisible :
    (∀ calls : List Call, new.sights calls = Unpooled.new.sights calls) ∧
    (∀ r : Reconciler, r.Reachable →
      r.openLevel.depth = r.depth + 1 ∧ r.openLevel.pending = [] ∧
        ∀ id, r.openLevel.isMarked id = false) ∧
    ∀ (r : Reconciler) (c : Call) (e : Failure), (r.reply c).error? = some e →
      e = .unbalancedLevel 0 ∧ r.depth = 0 ∧ r.after c = r ∧ (r.reply c).node? = c.node? := by
  refine ⟨fun calls => ?_, fun r hr => ?_, fun r c e herror => ?_⟩
  · have hnew : new.Shows Unpooled.new := ⟨rfl, fun _ h => by cases h⟩
    exact hnew.sights calls
  · have hlevels := hr.pooled.openLevel.1
    unfold depth pending isMarked level?
    rw [hlevels]
    exact ⟨rfl, rfl, fun _ => rfl⟩
  · obtain ⟨he, hlevels, hsame, hnode⟩ := unchanged_of_error herror
    exact ⟨he, List.length_eq_zero_iff.2 hlevels, hsame, hnode⟩

/-- A level is closed with a node that owns none of those marked, so their marks are left over. The
next level that is opened has none of them, and closing once more than was opened changes nothing.
-/
theorem pooling_invisible_leftover :
    let page := (Node.ofKind "page").withChild ((Node.ofKind "text").withId "X")
    let other := Node.ofKind "page"
    let calls : List Call := [.begin page, .closeLevel other]
    let r := calls.foldl after new
    r.spare = [∅] ∧ r.openLevel.pending = [] ∧
      (r.reply (.closeLevel page)).error? = some (.unbalancedLevel 0) ∧
      r.after (.closeLevel page) = r := by
  intro page other calls r
  obtain ⟨-, hopened, hfailed⟩ := pooling_invisible
  have herror : (r.reply (.closeLevel page)).error? = some (.unbalancedLevel 0) := by decide
  obtain ⟨-, hpending, -⟩ := hopened r ⟨calls, rfl⟩
  obtain ⟨-, -, hsame, -⟩ := hfailed r _ _ herror
  exact ⟨by rfl, hpending, herror, hsame⟩

end Reconciler

end ViewState
