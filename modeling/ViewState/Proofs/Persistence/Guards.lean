import Mathlib.Data.List.Induction
import ViewState.Hash.Blake3
import ViewState.Persistence
import ViewState.Proofs.Persistence.RoundTrip

/-!
How long a request reports that a state is being saved. A guard is handed out when saving begins and
is dropped when saving ends, and one flag serves all the guards of a request: the first drop clears
it, also for the guards that are still alive. So it covers the guards exactly as long as they do not
overlap, and a save made while another one encodes leaves the rest of that encoding unflagged.
-/
namespace ViewState

namespace Request

/-- A guard is handed out, or one is dropped. Guards are numbered in the order they are made in. -/
inductive GuardAction
  | make
  | drop (guard : Nat)
deriving DecidableEq

/-- A request, how many guards were made for it, and those that are alive, the newest first. -/
structure Guarded where
  request : Request
  made : Nat
  alive : List Nat
deriving DecidableEq

namespace Guarded

def start (session : String) : Guarded := ⟨Request.new session, 0, []⟩

/-- A guard is dropped once: dropping what is not alive is nothing that can happen. -/
def act (g : Guarded) : GuardAction → Guarded
  | .make => ⟨g.request.beginSaving, g.made + 1, g.made :: g.alive⟩
  | .drop guard =>
    if guard ∈ g.alive then { g with request := g.request.endSaving, alive := g.alive.erase guard }
    else g

def run (session : String) (actions : List GuardAction) : Guarded :=
  actions.foldl act (start session)

/-- The request says that a state is being saved exactly if a guard is alive. -/
def Covers (g : Guarded) : Prop := g.request.saving = true ↔ g.alive ≠ []

instance (g : Guarded) : Decidable g.Covers := inferInstanceAs (Decidable (_ ↔ _))

/-- The action leaves no guard behind that it takes the flag from. -/
def Apart (g : Guarded) (action : GuardAction) : Prop :=
  ∀ guard ∈ g.alive, action = .drop guard → g.alive = [guard]

variable {g : Guarded} {session : String} {actions : List GuardAction} {guard : Nat}

theorem act_drop_of_mem (h : guard ∈ g.alive) :
    g.act (.drop guard) =
      { g with request := g.request.endSaving, alive := g.alive.erase guard } :=
  if_pos h

theorem act_drop_of_not_mem (h : guard ∉ g.alive) : g.act (.drop guard) = g :=
  if_neg h

theorem covers_start : (start session).Covers := by
  simp [Covers, start, Request.new]

theorem covers_make : (g.act .make).Covers := by
  simp [Covers, act, beginSaving]

/-- Only the last guard can be dropped without the flag going too early. -/
theorem covers_drop_iff (h : guard ∈ g.alive) :
    (g.act (.drop guard)).Covers ↔ g.alive = [guard] := by
  have hne : g.alive ≠ [] := List.ne_nil_of_mem h
  simp [Covers, act_drop_of_mem h, endSaving, hne]

theorem covers_act_iff (h : g.Covers) (action : GuardAction) :
    (g.act action).Covers ↔ g.Apart action := by
  cases action with
  | make => simp [covers_make, Apart]
  | drop guard =>
    by_cases hmem : guard ∈ g.alive
    · rw [covers_drop_iff hmem]
      constructor
      · rintro honly _ - ⟨⟩
        exact honly
      · intro hapart
        exact hapart guard hmem rfl
    · rw [act_drop_of_not_mem hmem]
      refine iff_of_true h ?_
      rintro _ hmem' ⟨⟩
      exact absurd hmem' hmem

theorem alive_of_saving_act (action : GuardAction)
    (h : g.request.saving = true → g.alive ≠ []) :
    (g.act action).request.saving = true → (g.act action).alive ≠ [] := by
  cases action with
  | make => simp [act]
  | drop guard =>
    by_cases hmem : guard ∈ g.alive
    · simp [act_drop_of_mem hmem, endSaving]
    · rw [act_drop_of_not_mem hmem]
      exact h

theorem run_concat (action : GuardAction) :
    run session (actions ++ [action]) = (run session actions).act action := by
  simp [run]

theorem alive_of_saving_run :
    (run session actions).request.saving = true → (run session actions).alive ≠ [] := by
  induction actions using List.reverseRecOn with
  | nil => simp [run, start, Request.new]
  | append_singleton actions action ih =>
    rw [run_concat]
    exact alive_of_saving_act action ih

theorem run_take_succ {n : ℕ} {action : GuardAction} (h : actions[n]? = some action) :
    run session (actions.take (n + 1)) = (run session (actions.take n)).act action := by
  rw [List.take_add_one, h, Option.toList_some, run_concat]

/-- The flag covers the guards all along exactly if no two of them overlap when one is dropped. -/
theorem covers_run_iff (session : String) (actions : List GuardAction) :
    (∀ n, (run session (actions.take n)).Covers) ↔
      ∀ n action, actions[n]? = some action → (run session (actions.take n)).Apart action := by
  constructor
  · intro hcovers n action haction
    have hnext := hcovers (n + 1)
    rw [run_take_succ haction] at hnext
    exact (covers_act_iff (hcovers n) action).mp hnext
  · intro hapart n
    induction n with
    | zero => exact covers_start
    | succ n ih =>
      cases haction : actions[n]? with
      | none =>
        have hlength : actions.length ≤ n := List.getElem?_eq_none_iff.mp haction
        rwa [List.take_of_length_le (by omega), ← List.take_of_length_le hlength]
      | some action =>
        rw [run_take_succ haction]
        exact (covers_act_iff ih action).mpr (hapart n action haction)

end Guarded

end Request

abbrev Encoding := Exchange → Except Failure (List UInt8) × Exchange

namespace Persistence

variable {σ : Type}

/-- Saves the bytes of an encoding that can itself save views while it runs. -/
def saveThrough (p : Persistence σ) (encoding : Encoding) (x : Exchange) (view : String) :
    Except Failure Saved × Exchange :=
  let (bytes, x) := encoding { x with request := x.request.beginSaving }
  let (result, x) : Except Failure Saved × Exchange :=
    match bytes with
    | .error e => (.error e, x)
    | .ok bytes =>
      if Envelope.limit < bytes.length then (.error (.tooLarge bytes.length Envelope.limit), x)
      else p.keep x ⟨view, bytes⟩
  (result, { x with request := x.request.endSaving })

def encodingOf (p : Persistence σ) (state : σ) : Encoding :=
  fun x => (p.codec.encode x.request state, x)

theorem save_eq_saveThrough (p : Persistence σ) (x : Exchange) (view : String) (state : σ) :
    p.saveThrough (p.encodingOf state) x view =
      ((p.save x view state).result, (p.save x view state).exchange) :=
  rfl

/-- Of an encoding only counts what it does on the exchange that the save hands to it. -/
theorem saveThrough_congr (p : Persistence σ) {e e' : Encoding} {x : Exchange}
    (h : e { x with request := x.request.beginSaving } =
      e' { x with request := x.request.beginSaving }) (view : String) :
    p.saveThrough e x view = p.saveThrough e' x view := by
  rw [saveThrough, h, saveThrough]

/-- A save takes the flag away, also from one that was up when it began. -/
theorem saving_saveThrough (p : Persistence σ) (encoding : Encoding) (x : Exchange)
    (view : String) : (p.saveThrough encoding x view).2.request.saving = false :=
  rfl

/-- Makes some saves one after another and looks at the flag before the first of them and after
each. -/
def watching (p : Persistence σ) (x : Exchange) : List (Encoding × String) → List Bool × Exchange
  | [] => ([x.request.saving], x)
  | (encoding, view) :: saves =>
    let (flags, y) := p.watching (p.saveThrough encoding x view).2 saves
    (x.request.saving :: flags, y)

theorem flags_watching (p : Persistence σ) (x : Exchange) (saves : List (Encoding × String)) :
    (p.watching x saves).1 = x.request.saving :: List.replicate saves.length false := by
  induction saves generalizing x with
  | nil => rfl
  | cons save saves ih =>
    have hflags := ih (p.saveThrough save.1 x save.2).2
    rw [saving_saveThrough] at hflags
    rw [watching, List.length_cons, List.replicate_succ]
    exact congrArg (x.request.saving :: ·) hflags

open Request (GuardAction Guarded)

/-- The flag of a request is never up without a guard. It covers the guards all along exactly if
every guard is dropped as the last one that is alive; an encoding that saves views itself sees the
flag up before the first of these saves, and down after each of them. -/
theorem flag_covers_guards_iff (session : String) (actions : List GuardAction) (p : Persistence σ)
    (x : Exchange) (view : String) (saves : List (Encoding × String))
    (finish : List Bool → Encoding) :
    ((Guarded.run session actions).request.saving = true →
        (Guarded.run session actions).alive ≠ []) ∧
      ((∀ n, (Guarded.run session (actions.take n)).Covers) ↔
        ∀ n action, actions[n]? = some action →
          (Guarded.run session (actions.take n)).Apart action) ∧
      p.saveThrough (fun y => finish (p.watching y saves).1 (p.watching y saves).2) x view =
        p.saveThrough
          (fun y => finish (true :: List.replicate saves.length false) (p.watching y saves).2)
          x view := by
  refine ⟨Guarded.alive_of_saving_run, Guarded.covers_run_iff session actions, ?_⟩
  apply saveThrough_congr
  rw [flags_watching]
  rfl

/-- Dropping the second of two guards takes the flag from the first one, and a tree that is saved
while another state is encoded leaves the encoding without the flag. -/
theorem flag_lost_to_second_guard :
    (Guarded.run "session-1" [.make, .make, .drop 1]).alive = [0] ∧
      ¬ (Guarded.run "session-1" [.make, .make, .drop 1]).Covers ∧
      (let p := trees Blake3.hash .standard
       let x : Exchange :=
         ⟨.memory .empty, (Request.new "session-1").beginSaving, .ofLookup fun _ => none⟩
       (p.watching x [(p.encodingOf (.ofKind "text"), "/part.xhtml")]).1 = [true, false]) := by
  refine ⟨by decide, by decide, ?_⟩
  intro p x
  exact p.flags_watching x _

end Persistence

end ViewState
