import ViewState.Proofs.Identifier.Accounting

/-!
A table of identifiers shows in nothing that is handed out. Its entries are what would be spelled
out in their place, whatever stem and size it has; so a counter, or an allocator, with a table and
the same one without it stay alike through every call.
-/
namespace ViewState.Identifier

namespace Counter

def plain (c : Counter) : Counter := { c with table := none }

/-- The entries of the table are what would be spelled out. -/
def Faithful (c : Counter) : Prop := ∀ t ∈ c.table, t.Faithful

@[simp] theorem table_skip (c : Counter) : c.skip.table = c.table := by
  unfold skip
  cases c.nested <;> rfl

@[simp] theorem skip_plain (c : Counter) : c.plain.skip = c.skip.plain := by
  unfold skip plain
  cases c.nested <;> rfl

theorem faithful_plain (c : Counter) : c.plain.Faithful := fun _ h => by cases h

section Faithful

variable {c c' : Counter}

theorem Faithful.skip (h : c.Faithful) : c.skip.Faithful := by
  unfold Faithful
  rwa [table_skip]

theorem Faithful.openSection (h : c.Faithful) : c.openSection.2.Faithful := h.skip

theorem Faithful.close? (h : c.Faithful) (hclose : c.close? = some c') : c'.Faithful := by
  unfold Counter.close? at hclose
  split at hclose
  · cases hclose
  · cases hclose
    exact h

theorem current_plain (h : c.Faithful) : c.plain.current = c.current :=
  (current_eq_section c.faithful_plain).trans (current_eq_section h).symm

theorem next_plain (h : c.Faithful) : c.plain.next = (c.next.1, c.next.2.plain) := by
  unfold next
  rw [skip_plain, current_plain h.skip]

theorem openSection_plain (h : c.Faithful) :
    c.plain.openSection = (c.openSection.1, c.openSection.2.plain) := by
  unfold openSection
  rw [next_plain h]
  rfl

theorem close?_plain (c : Counter) : c.plain.close? = c.close?.map plain := by
  unfold close? plain
  cases c.nested <;> rfl

end Faithful

inductive Call
  | next
  | skip
  | openSection
  | closeSection

def perform (c : Counter) : Call → Except Failure (Option String) × Counter
  | .next => (.ok (some c.next.1), c.next.2)
  | .skip => (.ok none, c.skip)
  | .openSection => (.ok (some c.openSection.1), c.openSection.2)
  | .closeSection => (c.closeSection.1.map fun _ => none, c.closeSection.2)

def answers (c : Counter) : List Call → List (Except Failure (Option String))
  | [] => []
  | call :: calls => (c.perform call).1 :: (c.perform call).2.answers calls

theorem perform_plain {c : Counter} (h : c.Faithful) (call : Call) :
    c.plain.perform call = ((c.perform call).1, (c.perform call).2.plain) := by
  cases call with
  | next => simp only [perform, next_plain h]
  | skip => simp only [perform, skip_plain]
  | openSection => simp only [perform, openSection_plain h]
  | closeSection =>
    simp only [perform, closeSection, close?_plain]
    cases c.close? <;> rfl

theorem Faithful.perform {c : Counter} (h : c.Faithful) (call : Call) :
    (c.perform call).2.Faithful := by
  cases call with
  | next => exact h.skip
  | skip => exact h.skip
  | openSection => exact h.openSection
  | closeSection =>
    unfold Counter.perform closeSection
    cases hclose : c.close? with
    | none => exact h
    | some closed => exact h.close? hclose

theorem answers_plain {c : Counter} (h : c.Faithful) (calls : List Call) :
    c.plain.answers calls = c.answers calls := by
  induction calls generalizing c with
  | nil => rfl
  | cons call calls ih =>
    unfold answers
    rw [perform_plain h, ih (h.perform call)]

end Counter

namespace Counters

def plain (c : Counters) : Counters := ⟨c.unique.plain, c.component.plain⟩

structure Faithful (c : Counters) : Prop where
  unique : c.unique.Faithful
  component : c.component.Faithful

variable {c c' : Counters}

theorem Faithful.openSection (h : c.Faithful) : c.openSection.2.Faithful :=
  ⟨h.unique.openSection, h.component.openSection⟩

theorem Faithful.close? (h : c.Faithful) (hclose : c.close? = some c') : c'.Faithful :=
  ⟨h.unique.close? (close?_counter hclose .unique),
    h.component.close? (close?_counter hclose .component)⟩

theorem openSection_plain (h : c.Faithful) :
    c.plain.openSection = (c.openSection.1, c.openSection.2.plain) := by
  simp only [openSection, plain, Counter.openSection_plain h.unique,
    Counter.openSection_plain h.component]

theorem close?_plain (c : Counters) : c.plain.close? = c.close?.map plain := by
  unfold close? plain
  rw [Counter.close?_plain, Counter.close?_plain]
  cases c.unique.close? with
  | none => rfl
  | some unique => cases c.component.close? <;> rfl

theorem faithful_metadata : Counters.metadata.Faithful :=
  ⟨fun _ h => (by cases h), fun _ h => (by cases h)⟩

end Counters

namespace Allocator

def plain (a : Allocator) : Allocator :=
  { a with normal := a.normal.plain, metadata := a.metadata.map Counters.plain }

structure Faithful (a : Allocator) : Prop where
  normal : a.normal.Faithful
  metadata : ∀ c ∈ a.metadata, c.Faithful

variable {a : Allocator}

theorem inMetadata_plain (a : Allocator) : a.plain.inMetadata = a.inMetadata := rfl

theorem active_plain (a : Allocator) : a.plain.active = a.active.plain := by
  unfold active
  rw [inMetadata_plain]
  split
  · show (a.metadata.map Counters.plain).getD .metadata = (a.metadata.getD .metadata).plain
    cases a.metadata <;> rfl
  · rfl

theorem setActive_plain (a : Allocator) (c : Counters) :
    a.plain.setActive c.plain = (a.setActive c).plain := by
  unfold setActive
  rw [inMetadata_plain]
  split <;> rfl

theorem Faithful.metadata_getD (h : a.Faithful) : (a.metadata.getD .metadata).Faithful := by
  cases hmetadata : a.metadata with
  | none => exact Counters.faithful_metadata
  | some c => exact h.metadata c hmetadata

theorem Faithful.active (h : a.Faithful) : a.active.Faithful := by
  unfold Allocator.active
  split
  · exact h.metadata_getD
  · exact h.normal

theorem Faithful.setActive (h : a.Faithful) {c : Counters} (hc : c.Faithful) :
    (a.setActive c).Faithful := by
  unfold Allocator.setActive
  split
  · exact ⟨h.normal, fun c' hc' => by cases hc'; exact hc⟩
  · exact ⟨hc, h.metadata⟩

theorem count_plain (h : a.Faithful) : a.plain.count = (a.count.1, a.count.2.plain) := by
  have hnext := Counter.next_plain h.active.unique
  simp only [count, active_plain, Counters.plain, hnext]
  exact congrArg (Prod.mk _) (a.setActive_plain { a.active with unique := a.active.unique.next.2 })

theorem nextComponent_plain (h : a.Faithful) :
    a.plain.nextComponent = (a.nextComponent.1, a.nextComponent.2.plain) := by
  have hnext := Counter.next_plain h.active.component
  simp only [nextComponent, active_plain, Counters.plain, hnext]
  exact congrArg (Prod.mk _)
    (a.setActive_plain { a.active with component := a.active.component.next.2 })

theorem openSection_plain (h : a.Faithful) :
    a.plain.openSection = (a.openSection.1, a.openSection.2.plain) := by
  simp only [openSection, active_plain, Counters.openSection_plain h.active, setActive_plain]
  rfl

theorem closeSection_plain (a : Allocator) :
    a.plain.closeSection = (a.closeSection.1, a.closeSection.2.plain) := by
  unfold closeSection
  rw [active_plain, Counters.close?_plain]
  show (if a.level = 0 then _ else _) = _
  by_cases hlevel : a.level = 0
  · rw [if_pos hlevel, if_pos hlevel]
  · rw [if_neg hlevel, if_neg hlevel]
    cases a.active.close? with
    | none => rfl
    | some closed =>
      simp only [Option.map_some, setActive_plain]
      rfl

theorem leaveMetadata_plain (a : Allocator) :
    a.plain.leaveMetadata = (a.leaveMetadata.1, a.leaveMetadata.2.plain) := by
  unfold leaveMetadata
  show (if a.regions = 0 then _ else _) = _
  split <;> rfl

theorem enterMetadata_plain (a : Allocator) : a.plain.enterMetadata = a.enterMetadata.plain := by
  unfold enterMetadata plain
  cases a.metadata <;> rfl

theorem next_plain (h : a.Faithful) : a.plain.next = (a.next.1, a.next.2.plain) := by
  have hscope : a.plain.atJournalScope = a.atJournalScope := rfl
  have hjournal : a.plain.journal = a.journal := rfl
  rw [next_eq, next_eq, count_plain h, hscope, hjournal]
  split <;> rfl

theorem perform_plain (h : a.Faithful) (c : Call) :
    a.plain.perform c = ((a.perform c).1, (a.perform c).2.plain) := by
  cases c with
  | next => simp only [perform, next_plain h]
  | nextComponent => simp only [perform, nextComponent_plain h]
  | openSection => simp only [perform, openSection_plain h]
  | closeSection => simp only [perform, closeSection_plain]
  | enterMetadata => simp only [perform, enterMetadata_plain]
  | leaveMetadata => simp only [perform, leaveMetadata_plain]

theorem Faithful.count (h : a.Faithful) : a.count.2.Faithful :=
  h.setActive ⟨h.active.unique.skip, h.active.component⟩

theorem Faithful.withJournal (h : a.Faithful) (j : Journal) : (a.withJournal j).Faithful :=
  ⟨h.normal, h.metadata⟩

theorem Faithful.perform (h : a.Faithful) (c : Call) : (a.perform c).2.Faithful := by
  cases c with
  | next =>
    show a.next.2.Faithful
    rw [next_eq]
    split
    · exact h.count.withJournal _
    · exact h.count
  | nextComponent => exact h.setActive ⟨h.active.unique, h.active.component.skip⟩
  | openSection =>
    have hopened := h.setActive h.active.openSection
    exact ⟨hopened.normal, hopened.metadata⟩
  | closeSection =>
    show a.closeSection.2.Faithful
    unfold closeSection
    split
    · exact h
    · split
      · exact h
      · next closed hclose =>
        have hclosed := h.setActive (h.active.close? hclose)
        exact ⟨hclosed.normal, hclosed.metadata⟩
  | enterMetadata =>
    refine ⟨h.normal, fun c hc => ?_⟩
    cases hc
    exact h.metadata_getD
  | leaveMetadata =>
    show a.leaveMetadata.2.Faithful
    unfold leaveMetadata
    split
    · exact h
    · exact ⟨h.normal, h.metadata⟩

theorem reply_plain (h : a.Faithful) (action : Action) : a.plain.reply action = a.reply action := by
  cases action with
  | call c => simp only [reply, perform_plain h]
  | startRecording => rfl
  | replay ids => rfl
  | takeRecorded =>
    simp only [reply, takeRecorded_eq]
    rfl

theorem act_plain (h : a.Faithful) (action : Action) :
    a.plain.act action = (a.act action).plain := by
  cases action with
  | call c => simp only [act, perform_plain h]
  | startRecording => rfl
  | replay ids => rfl
  | takeRecorded =>
    have hrecorded : a.plain.recorded = a.recorded := rfl
    simp only [act, takeRecorded_eq, hrecorded]
    split <;> rfl

theorem Faithful.act (h : a.Faithful) (action : Action) : (a.act action).Faithful := by
  cases action with
  | call c => exact h.perform c
  | startRecording => exact h.withJournal _
  | replay ids => exact h.withJournal _
  | takeRecorded =>
    simp only [Allocator.act, takeRecorded_eq]
    split
    · exact h.withJournal _
    · exact h

theorem script_plain (h : a.Faithful) (actions : List Action) :
    a.plain.history actions = a.history actions ∧ a.plain.run actions = (a.run actions).plain := by
  induction actions generalizing a with
  | nil => exact ⟨rfl, rfl⟩
  | cons action actions ih =>
    obtain ⟨hhistory, hrun⟩ := ih (h.act action)
    have hentry : a.plain.entry action = a.entry action :=
      congrArg (Entry.mk action _) (reply_plain h action)
    rw [history, hentry, act_plain h, hhistory, run, List.foldl_cons, act_plain h]
    exact ⟨rfl, hrun⟩

end Allocator

/-- A counter with a table of any stem and size answers every sequence of calls as the counter
without one. So an allocator with such a table replies to every script, changes of the journal
included, as the allocator without one, and it can be told from it by nothing that may be asked of
it afterwards. -/
theorem table_invisible (stem stem' : String) (size : Nat) :
    (∀ calls, (Counter.ofStem stem (some (.ofSize stem' size))).answers calls =
      (Counter.ofStem stem none).answers calls) ∧
    ∀ actions,
      let tabled := Allocator.new (some (.ofSize stem' size))
      let plain := Allocator.new none
      tabled.history actions = plain.history actions ∧
        (tabled.run actions).recorded = (plain.run actions).recorded ∧
        (tabled.run actions).replayRemaining = (plain.run actions).replayRemaining ∧
        (tabled.run actions).depth = (plain.run actions).depth ∧
        (tabled.run actions).inMetadata = (plain.run actions).inMetadata := by
  have hcounter (stem : String) : (Counter.ofStem stem (some (.ofSize stem' size))).Faithful := by
    rintro t ht
    cases ht
    exact Table.faithful_ofSize stem' size
  refine ⟨fun calls => (Counter.answers_plain (hcounter stem) calls).symm, fun actions => ?_⟩
  intro tabled plain
  have hunique : (Counter.ofStem "j_id" none).Faithful := fun _ h => by cases h
  have htabled : tabled.Faithful :=
    ⟨⟨hunique, hcounter componentStem⟩, fun c hc => by cases hc⟩
  have hplain : tabled.plain = plain := rfl
  obtain ⟨hhistory, hrun⟩ := Allocator.script_plain htabled actions
  rw [← hplain, hhistory, hrun]
  exact ⟨rfl, rfl, rfl, rfl, rfl⟩

end ViewState.Identifier
