import Mathlib.Data.List.DropRight
import Mathlib.Data.List.Induction
import ViewState.Proofs.Identifier.Nesting
import ViewState.Proofs.Identifier.Substitution

/-!
What a journal holds, told from the history of its allocator alone. A journal is switched to
recording, to replaying or off; between two switches only the unique identifiers of the outermost
level matter to it. Whatever the journal does, the counters go on as they would without one, so all
else that is handed out is theirs.
-/
namespace ViewState.Identifier.Allocator

inductive Reply
  | answer (a : Answer)
  | nothing
  | taken (ids : Option (List String))

def reply (a : Allocator) : Action → Reply
  | .call c => .answer (a.perform c).1
  | .startRecording | .replay _ => .nothing
  | .takeRecorded => .taken a.takeRecorded.1

/-- An action with its reply, and whether no section and no metadata region was open. -/
structure Entry where
  action : Action
  outermost : Bool
  reply : Reply

def entry (a : Allocator) (action : Action) : Entry :=
  ⟨action, a.depth = 0 ∧ a.inMetadata = false, a.reply action⟩

def history (a : Allocator) : List Action → List Entry
  | [] => []
  | action :: actions => a.entry action :: (a.act action).history actions

theorem history_append_singleton (a : Allocator) (actions : List Action) (action : Action) :
    a.history (actions ++ [action]) = a.history actions ++ [(a.run actions).entry action] := by
  induction actions generalizing a with
  | nil => rfl
  | cons first actions ih => exact congrArg (a.entry first :: ·) (ih (a.act first))

theorem run_append_singleton (a : Allocator) (actions : List Action) (action : Action) :
    a.run (actions ++ [action]) = (a.run actions).act action :=
  List.foldl_append

inductive Switch
  | record
  | replay (ids : List String)
  | stop

def Switch.journal : Switch → Journal
  | record => .recording []
  | replay ids => .replaying ids
  | stop => .off

namespace Entry

/-- A recording can be stopped only while there is one: then what it holds is taken. -/
def switch? (e : Entry) : Option Switch :=
  match e.action, e.reply with
  | .startRecording, _ => some .record
  | .replay ids, _ => some (.replay ids)
  | .takeRecorded, .taken (some _) => some .stop
  | _, _ => none

/-- The identifier that was handed out by an ordinary call at the outermost level. -/
def outermost? (e : Entry) : Option String :=
  match e.action, e.outermost, e.reply with
  | .call .next, true, .answer answer => answer.toOption.join
  | _, _, _ => none

end Entry

def lastSwitch (history : List Entry) : Option Switch := history.reverse.findSome? Entry.switch?

/-- The identifiers handed out by ordinary calls at the outermost level since then. -/
def sinceSwitch (history : List Entry) : List String :=
  (history.rtakeWhile fun e => e.switch?.isNone).filterMap Entry.outermost?

/-- The identifiers that are replayed, those already used up included. -/
def replayed (history : List Entry) : List String :=
  match lastSwitch history with
  | some (.replay ids) => ids
  | _ => []

section Append

variable (history : List Entry) {e : Entry}

theorem lastSwitch_append_of_switch {s : Switch} (h : e.switch? = some s) :
    lastSwitch (history ++ [e]) = some s := by
  simp [lastSwitch, h]

theorem sinceSwitch_append_of_switch {s : Switch} (h : e.switch? = some s) :
    sinceSwitch (history ++ [e]) = [] := by
  simp [sinceSwitch, h]

theorem lastSwitch_append_of_none (h : e.switch? = none) :
    lastSwitch (history ++ [e]) = lastSwitch history := by
  simp [lastSwitch, h]

theorem sinceSwitch_append_of_none (h : e.switch? = none) :
    sinceSwitch (history ++ [e]) = sinceSwitch history ++ e.outermost?.toList := by
  cases hid : e.outermost? <;> simp [sinceSwitch, h, hid]

end Append

/-- The journal that a history leaves. -/
def account (history : List Entry) : Journal :=
  match lastSwitch history with
  | some .record => .recording (sinceSwitch history)
  | some (.replay ids) => .replaying (ids.drop (sinceSwitch history).length)
  | _ => .off

theorem account_append_of_switch (history : List Entry) {e : Entry} {s : Switch}
    (h : e.switch? = some s) : account (history ++ [e]) = s.journal := by
  unfold account
  rw [lastSwitch_append_of_switch history h, sinceSwitch_append_of_switch history h]
  cases s <;> rfl

theorem account_append_of_none (history : List Entry) {e : Entry} (h : e.switch? = none)
    (hid : e.outermost? = none) : account (history ++ [e]) = account history := by
  unfold account
  rw [lastSwitch_append_of_none history h, sinceSwitch_append_of_none history h, hid]
  simp

/-- An identifier of the outermost level is written down, or uses up one of those to be replayed. -/
theorem account_append_of_outermost (history : List Entry) {e : Entry} (h : e.switch? = none)
    {id : String} (hid : e.outermost? = some ((account history).give id)) :
    account (history ++ [e]) = (account history).advance id := by
  have hlast := lastSwitch_append_of_none history h
  have hsince := sinceSwitch_append_of_none history h
  rw [hid] at hsince
  unfold account at hsince ⊢
  rw [hlast, hsince]
  cases lastSwitch history with
  | none => rfl
  | some s =>
    cases s with
    | record => rfl
    | stop => rfl
    | replay ids =>
      simp only [Option.toList_some, List.length_append, List.length_singleton, ← List.drop_drop]
      cases ids.drop (sinceSwitch history).length <;> rfl

theorem give_account (history : List Entry) (id : String) :
    (account history).give id = (replayed history)[(sinceSwitch history).length]?.getD id := by
  unfold account replayed
  cases lastSwitch history with
  | none => rfl
  | some s =>
    cases s with
    | record => rfl
    | stop => rfl
    | replay ids =>
      rw [← List.head?_drop]
      dsimp only
      cases ids.drop (sinceSwitch history).length <;> rfl

def Action.call? : Action → Option Call
  | .call c => some c
  | _ => none

theorem atJournalScope_iff (a : Allocator) :
    a.atJournalScope ↔ a.depth = 0 ∧ a.inMetadata = false := by
  simp [atJournalScope, depth, inMetadata]

theorem outermost?_next {a : Allocator} (hscope : a.atJournalScope = true) :
    (a.entry (.call .next)).outermost? = some a.next.1 := by
  have hopen : decide (a.depth = 0 ∧ a.inMetadata = false) = true :=
    decide_eq_true (a.atJournalScope_iff.1 hscope)
  simp only [entry, hopen]
  rfl

theorem outermost?_call {a : Allocator} {c : Call} (hc : ¬ (c = .next ∧ a.atJournalScope)) :
    (a.entry (.call c)).outermost? = none := by
  cases c with
  | next =>
    have hopen : decide (a.depth = 0 ∧ a.inMetadata = false) = false :=
      decide_eq_false fun h => hc ⟨rfl, a.atJournalScope_iff.2 h⟩
    simp only [entry, hopen]
    rfl
  | _ => rfl

theorem takeRecorded_eq (a : Allocator) :
    a.takeRecorded = (a.recorded, if a.recorded.isSome then a.withJournal .off else a) := by
  unfold takeRecorded recorded
  cases a.journal <;> rfl

/-- Taking a recording is a switch only if there is one. -/
theorem switch?_takeRecorded (a : Allocator) :
    (a.entry .takeRecorded).switch? = a.recorded.map fun _ => .stop := by
  simp only [entry, reply, takeRecorded_eq]
  cases a.recorded <;> rfl

section Act

variable {plain : Allocator} (hoff : plain.journal = .off) (history : List Entry)

include hoff in
/-- A call moves the counters as it would without a journal, and the account by what it hands out.
-/
theorem act_call (c : Call) :
    let a := plain.withJournal (account history)
    a.act (.call c) =
      (plain.perform c).2.withJournal (account (history ++ [a.entry (.call c)])) := by
  intro a
  have hperform : a.perform c = _ := perform_withJournal_of_off hoff (account history) c
  show (a.perform c).2 = _
  by_cases hc : c = .next ∧ plain.atJournalScope
  · rw [if_pos hc] at hperform
    obtain ⟨rfl, hscope⟩ := hc
    have hnext : a.next = _ := next_withJournal_of_off hoff (account history)
    have hid : (a.entry (.call .next)).outermost? = some ((account history).give plain.next.1) := by
      rw [outermost?_next (a := a) hscope, hnext, if_pos hscope]
    rw [account_append_of_outermost history rfl hid, hperform]
  · rw [if_neg hc] at hperform
    have hid : (a.entry (.call c)).outermost? = none := outermost?_call hc
    rw [account_append_of_none history rfl hid, hperform]

theorem act_takeRecorded :
    let a := plain.withJournal (account history)
    a.act .takeRecorded = plain.withJournal (account (history ++ [a.entry .takeRecorded])) := by
  intro a
  show a.takeRecorded.2 = _
  have hswitch := a.switch?_takeRecorded
  rw [takeRecorded_eq]
  cases hrecorded : a.recorded with
  | none =>
    rw [hrecorded] at hswitch
    rw [account_append_of_none history hswitch rfl]
    rfl
  | some ids =>
    rw [hrecorded] at hswitch
    rw [account_append_of_switch history hswitch]
    rfl

end Act

theorem journal_after_of_off {a : Allocator} (h : a.journal = .off) (calls : List Call) :
    (a.after calls).journal = .off := by
  induction calls generalizing a with
  | nil => exact h
  | cons c calls ih => exact ih (journal_perform_of_off h c)

/-- Whatever was done, the counters are where the calls alone bring them, and the journal holds what
the history accounts for. -/
theorem run_eq (table : Option Table) (actions : List Action) :
    (new table).run actions =
      ((new table).after (actions.filterMap Action.call?)).withJournal
        (account ((new table).history actions)) := by
  -- A history grows at its end, so the induction takes the last action off.
  induction actions using List.reverseRecOn with
  | nil => rfl
  | append_singleton actions action ih =>
    have hoff : ((new table).after (actions.filterMap Action.call?)).journal = .off :=
      journal_after_of_off rfl _
    rw [run_append_singleton, history_append_singleton, List.filterMap_append, ih]
    cases action with
    | call c =>
      rw [act_call hoff]
      exact congrArg (Allocator.withJournal · _) (after_append _ _ [c]).symm
    | startRecording =>
      rw [account_append_of_switch _ (s := .record) rfl, after_append]
      rfl
    | replay ids =>
      rw [account_append_of_switch _ (s := .replay ids) rfl, after_append]
      rfl
    | takeRecorded =>
      rw [act_takeRecorded, after_append]
      rfl

section Account

variable (a : Allocator) (history : List Entry)

theorem recorded_account :
    (a.withJournal (account history)).recorded =
      match lastSwitch history with
      | some .record => some (sinceSwitch history)
      | _ => none := by
  unfold recorded account
  rw [journal_withJournal]
  rcases lastSwitch history with _ | _ | _ | _ <;> rfl

theorem replayRemaining_account :
    (a.withJournal (account history)).replayRemaining =
      (replayed history).length - (sinceSwitch history).length := by
  unfold replayRemaining account replayed
  rw [journal_withJournal]
  rcases lastSwitch history with _ | _ | ids | _
  · exact (Nat.zero_sub _).symm
  · exact (Nat.zero_sub _).symm
  · exact List.length_drop
  · exact (Nat.zero_sub _).symm

end Account

/-- At every point of every run, what is recorded is what ordinary calls at the outermost level have
handed out since the recording was started, if this was the last that the journal was told; and this
is what would be taken. While a list is replayed, such a call hands out the next identifier of the
list, as long as it lasts. All else is answered as by an allocator for which the same calls were
made and whose journal was never switched on. -/
theorem journal_accounted (table : Option Table) (actions : List Action) :
    let a := (new table).run actions
    let history := (new table).history actions
    let plain := (new table).after (actions.filterMap Action.call?)
    a.recorded =
        (match lastSwitch history with
        | some .record => some (sinceSwitch history)
        | _ => none) ∧
      a.takeRecorded.1 = a.recorded ∧
      a.replayRemaining = (replayed history).length - (sinceSwitch history).length ∧
      ∀ c, (a.perform c).1 =
        if c = .next ∧ a.depth = 0 ∧ a.inMetadata = false then
          .ok (some ((replayed history)[(sinceSwitch history).length]?.getD plain.next.1))
        else (plain.perform c).1 := by
  intro a history plain
  have hoff : plain.journal = .off := journal_after_of_off rfl _
  have hrun : a = plain.withJournal (account history) := run_eq table actions
  have hscope : plain.atJournalScope ↔ a.depth = 0 ∧ a.inMetadata = false := by
    rw [hrun]
    exact plain.atJournalScope_iff
  refine ⟨?_, congrArg Prod.fst a.takeRecorded_eq, ?_, fun c => ?_⟩
  · rw [hrun]
    exact recorded_account plain history
  · rw [hrun]
    exact replayRemaining_account plain history
  · have hperform : a.perform c = _ := hrun ▸ perform_withJournal_of_off hoff _ c
    rw [hperform, give_account, apply_ite Prod.fst]
    simp only [hscope]

/-- A replay that has run out is still one: there is nothing to be taken, and the counters go on. -/
example :
    let a := (new none).run [.replay ["kept"], .call .next, .call .next, .takeRecorded]
    a.recorded = none ∧ a.replayRemaining = 0 ∧ a.next.1 = "j_id3" := by
  decide +kernel

end ViewState.Identifier.Allocator
