import ViewState.Proofs.Identifier.Run

/-!
Recording and replaying a pass. A journal acts on the unique identifiers of the outermost level
only, and a pass that replays what it would hand out anyway goes on as it would without a journal.
-/
namespace ViewState.Identifier

namespace Journal

/-- The journal gives this identifier if it gives one at all. -/
def Agrees (id : String) : Journal → Prop
  | replaying (id' :: _) => id' = id
  | _ => True

def advance (j : Journal) (id : String) : Journal :=
  match j with
  | recording ids => recording (ids ++ [id])
  | replaying (_ :: left) => replaying left
  | j => j

/-- The journal gives these identifiers, as far as it gives any. -/
def Follows (j : Journal) : List String → Prop
  | [] => True
  | id :: ids => j.Agrees id ∧ (j.advance id).Follows ids

theorem follows_recording (ids given : List String) : (recording ids).Follows given := by
  induction given generalizing ids with
  | nil => trivial
  | cons id given ih => exact ⟨trivial, ih _⟩

theorem advance_recording (ids given : List String) :
    given.foldl advance (recording ids) = recording (ids ++ given) := by
  induction given generalizing ids with
  | nil => simp
  | cons id given ih =>
    rw [List.foldl_cons, advance, ih, List.append_assoc, List.singleton_append]

theorem follows_replaying_nil (given : List String) : (replaying []).Follows given := by
  induction given with
  | nil => trivial
  | cons id given ih => exact ⟨trivial, ih⟩

/-- A replayed list that runs out leaves what comes then to the counters. -/
theorem follows_replaying (given later : List String) :
    (replaying given).Follows (given ++ later) := by
  induction given with
  | nil => exact follows_replaying_nil later
  | cons id given ih => exact ⟨rfl, ih⟩

theorem advance_replaying (given : List String) :
    given.foldl advance (replaying given) = replaying [] := by
  induction given with
  | nil => rfl
  | cons id given ih => exact ih

end Journal

namespace Allocator

theorem next_of_not_scope {a : Allocator} (h : a.atJournalScope = false) : a.next = a.count := by
  simp [next, h]

theorem next_of_off {a : Allocator} (h : a.journal = .off) : a.next = a.count := by
  simp [next, h]

theorem next_of_agrees {a : Allocator} {j : Journal} (hscope : a.atJournalScope = true)
    (hagrees : j.Agrees a.count.1) :
    (a.withJournal j).next = (a.count.1, a.count.2.withJournal (j.advance a.count.1)) := by
  unfold next
  rw [atJournalScope_withJournal, if_pos hscope, journal_withJournal]
  cases j with
  | off => exact count_withJournal a .off
  | recording ids =>
    simp only [count_withJournal]
    rfl
  | replaying left =>
    cases left with
    | nil => exact count_withJournal a (.replaying [])
    | cons id left =>
      obtain rfl : id = a.count.1 := hagrees
      have hregions : a.inMetadata = false := by
        simp only [atJournalScope, decide_eq_true_eq] at hscope
        simp [inMetadata, hscope.2]
      have hskip : a.count.2 =
          { a with normal := { a.normal with unique := a.normal.unique.skip } } := by
        simp [count, active, setActive, hregions, Counter.next]
      rw [hskip]
      rfl

def outermost (a : Allocator) : List Call → List String
  | [] => []
  | c :: calls =>
    (if c = .next ∧ a.atJournalScope then [a.next.1] else []) ++ (a.perform c).2.outermost calls

theorem perform_of_agrees {a : Allocator} (ha : a.journal = .off) {c : Call} {j : Journal}
    (hagrees : c = .next ∧ a.atJournalScope → j.Agrees a.next.1) :
    (a.withJournal j).perform c = ((a.perform c).1, (a.perform c).2.withJournal
      (if c = .next ∧ a.atJournalScope then j.advance a.next.1 else j)) := by
  by_cases hc : c = .next
  · subst hc
    rw [next_of_off ha] at hagrees ⊢
    by_cases hscope : a.atJournalScope = true
    · simp [perform, next_of_agrees hscope (hagrees ⟨rfl, hscope⟩), next_of_off ha, hscope]
    · have hnext := next_of_not_scope (a := a.withJournal j) (by simpa using hscope)
      simp [perform, hnext, next_of_off ha, count_withJournal, hscope]
  · rw [perform_withJournal a j hc]
    simp [hc]

theorem journal_perform_of_off {a : Allocator} (ha : a.journal = .off) (c : Call) :
    (a.perform c).2.journal = .off := by
  have h := perform_of_agrees ha (c := c) (j := .off) fun _ => trivial
  have hself : a.withJournal .off = a := ha ▸ rfl
  rw [hself] at h
  rw [h]
  simp [Journal.advance]

/-- A pass without a journal, and the same pass with a journal that gives what it would hand out. -/
theorem run_of_follows {a : Allocator} (ha : a.journal = .off) {j : Journal} {calls : List Call}
    (hfollows : j.Follows (a.outermost calls)) :
    (a.withJournal j).events calls = a.events calls ∧
      (a.withJournal j).after calls =
        (a.after calls).withJournal ((a.outermost calls).foldl Journal.advance j) := by
  induction calls generalizing a j with
  | nil => exact ⟨rfl, rfl⟩
  | cons c calls ih =>
    have hoff := journal_perform_of_off ha c
    by_cases hc : c = .next ∧ a.atJournalScope
    · rw [outermost, if_pos hc] at hfollows ⊢
      have hstep := perform_of_agrees ha (c := c) fun _ => hfollows.1
      rw [if_pos hc] at hstep
      rw [events, after, hstep]
      obtain ⟨hevents, hafter⟩ := ih hoff hfollows.2
      exact ⟨by rw [hevents]; rfl, hafter⟩
    · rw [outermost, if_neg hc] at hfollows ⊢
      have hstep := perform_of_agrees ha (c := c) (j := j) fun h => absurd h hc
      rw [if_neg hc] at hstep
      rw [events, after, hstep]
      obtain ⟨hevents, hafter⟩ := ih hoff hfollows
      exact ⟨by rw [hevents]; rfl, hafter⟩

theorem outermost_append (a : Allocator) (calls later : List Call) :
    a.outermost (calls ++ later) = a.outermost calls ++ (a.after calls).outermost later := by
  induction calls generalizing a with
  | nil => rfl
  | cons c calls ih => rw [List.cons_append, outermost, outermost, ih, after, List.append_assoc]

/-- A pass over a script that replays what was recorded over the same script, from the same state,
answers every call as a pass without a journal does, also when it goes on behind the script; and it
uses up the recording. -/
theorem replay_recorded (a : Allocator) (script later : List Call) :
    ∃ ids, (a.startRecording.after script).takeRecorded.1 = some ids ∧
      (a.replay ids).answers (script ++ later) =
        ({ a with journal := .off } : Allocator).answers (script ++ later) ∧
      ((a.replay ids).after script).replayRemaining = 0 := by
  generalize hplain : ({ a with journal := .off } : Allocator) = plain
  have hoff : plain.journal = .off := hplain ▸ rfl
  have hrecording : a.startRecording = plain.withJournal (.recording []) := hplain ▸ rfl
  have hreplaying : a.replay (plain.outermost script) =
      plain.withJournal (.replaying (plain.outermost script)) := hplain ▸ rfl
  refine ⟨plain.outermost script, ?_, ?_, ?_⟩
  · have hrecord := run_of_follows hoff (Journal.follows_recording [] (plain.outermost script))
    rw [hrecording, hrecord.2, Journal.advance_recording]
    rfl
  · have hfollows := Journal.follows_replaying (plain.outermost script)
      ((plain.after script).outermost later)
    rw [← outermost_append] at hfollows
    rw [hreplaying, answers, answers, (run_of_follows hoff hfollows).1]
  · have hfollows := Journal.follows_replaying (plain.outermost script) []
    rw [List.append_nil] at hfollows
    rw [hreplaying, (run_of_follows hoff hfollows).2, Journal.advance_replaying]
    rfl

end Allocator

end ViewState.Identifier
