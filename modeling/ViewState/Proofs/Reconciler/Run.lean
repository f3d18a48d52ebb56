import ViewState.Proofs.SortedMap
import ViewState.Reconciler

/-!
Sessions of a reconciler: calls in any order and with any nodes. Levels kept for reuse are empty, so
a level that is opened holds no marks.
-/
namespace ViewState

namespace Reconciler

inductive Call
  | openLevel
  | begin (n : Node)
  | mark (n : Node)
  | reaffirm (n : Node)
  | closeLevel (n : Node)

def after (r : Reconciler) : Call → Reconciler
  | .openLevel => r.openLevel
  | .begin n => (r.begin n).2
  | .mark n => (r.mark n).2
  | .reaffirm n => (r.reaffirm n).2
  | .closeLevel n => (r.closeLevel n).2.2

/-- A state that a session comes to. -/
def Reachable (r : Reconciler) : Prop := ∃ calls : List Call, calls.foldl after new = r

/-- Levels kept for reuse are empty. -/
def Pooled (r : Reconciler) : Prop := ∀ level ∈ r.spare, level = ∅

variable {r : Reconciler}

/-- A level that is opened is empty, wherever it comes from. -/
theorem Pooled.openLevel (h : r.Pooled) :
    r.openLevel.levels = ∅ :: r.levels ∧ r.openLevel.Pooled := by
  obtain ⟨levels, spare⟩ := r
  cases spare with
  | nil => exact ⟨rfl, h⟩
  | cons level spare =>
    obtain ⟨rfl, hspare⟩ := List.forall_mem_cons.1 h
    exact ⟨rfl, hspare⟩

theorem spare_mark (r : Reconciler) (n : Node) : (r.mark n).2.spare = r.spare := by
  unfold mark
  split <;> rfl

theorem Pooled.begin (h : r.Pooled) (n : Node) : (r.begin n).2.Pooled := by
  unfold Reconciler.begin Pooled
  rw [spare_mark]
  exact h.openLevel.2

theorem Pooled.closeLevel (h : r.Pooled) (n : Node) : (r.closeLevel n).2.2.Pooled := by
  unfold Reconciler.closeLevel
  split
  · exact h
  · exact List.forall_mem_cons.2 ⟨rfl, h⟩

theorem Pooled.after (h : r.Pooled) (c : Call) : (r.after c).Pooled := by
  cases c with
  | openLevel => exact h.openLevel.2
  | begin n => exact h.begin n
  | mark n =>
    show ∀ level ∈ (r.mark n).2.spare, level = ∅
    rwa [spare_mark]
  | reaffirm n =>
    show (r.reaffirm n).2.Pooled
    unfold reaffirm
    split <;> exact h
  | closeLevel n => exact h.closeLevel n

theorem Reachable.pooled (h : r.Reachable) : r.Pooled := by
  obtain ⟨calls, rfl⟩ := h
  suffices hrun : ∀ r : Reconciler, r.Pooled → (calls.foldl Reconciler.after r).Pooled from
    hrun new fun level hlevel => by cases hlevel
  induction calls with
  | nil => exact fun r h => h
  | cons c calls ih => exact fun r h => ih _ (h.after c)

end Reconciler

end ViewState
