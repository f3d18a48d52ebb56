import ViewState.Identifier.Allocator

/-!
Passes of an allocator: calls in any order, closings of what is not open included, and what each of
them answers.
-/
namespace ViewState.Identifier.Allocator

inductive Call
  | next
  | nextComponent
  | openSection
  | closeSection
  | enterMetadata
  | leaveMetadata
deriving DecidableEq

abbrev Answer : Type := Except Failure (Option String)

def perform (a : Allocator) : Call → Answer × Allocator
  | .next => (.ok (some a.next.1), a.next.2)
  | .nextComponent => (.ok (some a.nextComponent.1), a.nextComponent.2)
  | .openSection => (.ok (some a.openSection.1), a.openSection.2)
  | .closeSection => (a.closeSection.1.map fun _ => none, a.closeSection.2)
  | .enterMetadata => (.ok none, a.enterMetadata)
  | .leaveMetadata => (a.leaveMetadata.1.map fun _ => none, a.leaveMetadata.2)

def after (a : Allocator) : List Call → Allocator
  | [] => a
  | c :: calls => (a.perform c).2.after calls

/-- A call with its answer, and whether it was made inside a metadata region. -/
structure Event where
  call : Call
  inside : Bool
  answer : Answer

def events (a : Allocator) : List Call → List Event
  | [] => []
  | c :: calls => ⟨c, a.inMetadata, (a.perform c).1⟩ :: (a.perform c).2.events calls

def answers (a : Allocator) (calls : List Call) : List Answer := (a.events calls).map Event.answer

namespace Event

/-- The unique identifier that was handed out, be it an ordinary one or the boundary of a section.
-/
def unique? (e : Event) : Option String :=
  match e.call with
  | .next | .openSection => e.answer.toOption.join
  | _ => none

def component? (e : Event) : Option String :=
  match e.call with
  | .nextComponent => e.answer.toOption.join
  | _ => none

end Event

def withJournal (a : Allocator) (j : Journal) : Allocator := { a with journal := j }

section WithJournal

variable (a : Allocator) (j : Journal)

@[simp] theorem inMetadata_withJournal : (a.withJournal j).inMetadata = a.inMetadata := rfl

@[simp] theorem atJournalScope_withJournal :
    (a.withJournal j).atJournalScope = a.atJournalScope := rfl

@[simp] theorem journal_withJournal : (a.withJournal j).journal = j := rfl

@[simp] theorem active_withJournal : (a.withJournal j).active = a.active := rfl

@[simp] theorem setActive_withJournal (c : Counters) :
    (a.withJournal j).setActive c = (a.setActive c).withJournal j := by
  unfold setActive
  rw [inMetadata_withJournal]
  split <;> rfl

theorem count_withJournal : (a.withJournal j).count = (a.count.1, a.count.2.withJournal j) := by
  simp [count]

theorem withJournal_count : a.count.2.withJournal a.journal = a.count.2 :=
  (congrArg Prod.snd (count_withJournal a a.journal)).symm

theorem closeSection_withJournal :
    (a.withJournal j).closeSection = (a.closeSection.1, a.closeSection.2.withJournal j) := by
  unfold closeSection
  rw [active_withJournal]
  by_cases hlevel : a.level = 0
  · simp [hlevel, withJournal]
  · cases a.active.close? with
    | none => simp [hlevel, withJournal]
    | some counters =>
      simp only [setActive_withJournal]
      simp [hlevel, withJournal]

theorem leaveMetadata_withJournal :
    (a.withJournal j).leaveMetadata = (a.leaveMetadata.1, a.leaveMetadata.2.withJournal j) := by
  by_cases hregions : a.regions = 0 <;> simp [leaveMetadata, hregions, withJournal]

/-- The journal has no part in any other call than that for the next unique identifier. -/
theorem perform_withJournal {c : Call} (hc : c ≠ .next) :
    (a.withJournal j).perform c = ((a.perform c).1, (a.perform c).2.withJournal j) := by
  cases c with
  | next => exact absurd rfl hc
  | nextComponent => simp [perform, nextComponent]
  | openSection =>
    simp only [perform, openSection, active_withJournal, setActive_withJournal]
    rfl
  | closeSection => simp [perform, closeSection_withJournal]
  | enterMetadata => rfl
  | leaveMetadata => simp [perform, leaveMetadata_withJournal]

end WithJournal

theorem journal_perform (a : Allocator) {c : Call} (hc : c ≠ .next) :
    (a.perform c).2.journal = a.journal :=
  congrArg (fun r => r.2.journal) (perform_withJournal a a.journal hc)

end ViewState.Identifier.Allocator
