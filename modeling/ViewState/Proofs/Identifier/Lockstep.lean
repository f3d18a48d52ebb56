import ViewState.Proofs.Identifier.Isolation

/-!
The counters of an allocator in lockstep. The unique and the component counter of either side have
as many sections open, and the number of open sections is the sum over both sides. So a section is
closed in both counters in use or, if none is open there, in neither, also when one counter is
closed after the other; and whatever fails changes nothing.
-/
namespace ViewState.Identifier

def Counter.outer (c : Counter) : Counter := { c with nested := c.nested.tail }

theorem Counter.close?_eq (c : Counter) :
    c.close? = if c.depth = 0 then none else some c.outer := by
  unfold close? depth outer
  cases c.nested <;> rfl

namespace Counters

def outer (c : Counters) : Counters := ⟨c.unique.outer, c.component.outer⟩

theorem Paired.close?_eq {c : Counters} (h : c.Paired) :
    c.close? = if c.depth = 0 then none else some c.outer := by
  unfold Counters.close?
  rw [Counter.close?_eq, Counter.close?_eq, show c.component.depth = c.depth from h,
    show c.unique.depth = c.depth from rfl]
  by_cases hdepth : c.depth = 0
  · rw [if_pos hdepth, if_pos hdepth, if_pos hdepth]
    rfl
  · rw [if_neg hdepth, if_neg hdepth, if_neg hdepth]
    rfl

end Counters

namespace Allocator

inductive Action
  | call (c : Call)
  | startRecording
  | replay (ids : List String)
  | takeRecorded

def act (a : Allocator) : Action → Allocator
  | .call c => (a.perform c).2
  | .startRecording => a.startRecording
  | .replay ids => a.replay ids
  | .takeRecorded => a.takeRecorded.2

def run (a : Allocator) (actions : List Action) : Allocator := actions.foldl act a

/-- What holds of every allocator: its sections are counted, and a metadata region is open only if
there are counters for it. -/
structure Sound (a : Allocator) : Prop extends a.Balanced where
  provided : a.inMetadata → a.metadata.isSome

variable {a : Allocator}

theorem isSome_setActive (h : a.metadata.isSome) (c : Counters) :
    (a.setActive c).metadata.isSome := by
  unfold setActive
  split
  · rfl
  · exact h

theorem isSome_perform (h : a.metadata.isSome) (c : Call) :
    (a.perform c).2.metadata.isSome := by
  cases c with
  | next =>
    show a.next.2.metadata.isSome
    rw [next_eq]
    split <;> exact isSome_setActive h _
  | nextComponent => exact isSome_setActive h _
  | openSection => exact isSome_setActive h _
  | closeSection =>
    show a.closeSection.2.metadata.isSome
    unfold closeSection
    split
    · exact h
    · split
      · exact h
      · exact isSome_setActive h _
  | enterMetadata => rfl
  | leaveMetadata =>
    show a.leaveMetadata.2.metadata.isSome
    unfold leaveMetadata
    split <;> exact h

theorem Sound.perform (h : a.Sound) (c : Call) : (a.perform c).2.Sound where
  toBalanced := h.toBalanced.perform c
  provided hregion := by
    by_cases hc : c.counts
    · have hregions := regions_perform a hc
      exact isSome_perform (h.provided (by simpa [inMetadata, hregions] using hregion)) c
    · cases c with
      | enterMetadata => rfl
      | leaveMetadata =>
        by_cases hregions : a.regions = 0
        · simp [Allocator.perform, leaveMetadata, inMetadata, hregions] at hregion
        · exact isSome_perform (h.provided (by simp [inMetadata]; omega)) .leaveMetadata
      | _ => exact absurd rfl hc

theorem Sound.withJournal (h : a.Sound) (j : Journal) : (a.withJournal j).Sound :=
  ⟨⟨h.paired, h.level_eq⟩, h.provided⟩

theorem Sound.act (h : a.Sound) (action : Action) : (a.act action).Sound := by
  cases action with
  | call c => exact h.perform c
  | startRecording => exact h.withJournal _
  | replay ids => exact h.withJournal _
  | takeRecorded =>
    show a.takeRecorded.2.Sound
    unfold Allocator.takeRecorded
    split
    · exact h.withJournal _
    · exact h

theorem Sound.run (h : a.Sound) (actions : List Action) : (a.run actions).Sound := by
  induction actions generalizing a with
  | nil => exact h
  | cons action actions ih => exact ih (h.act action)

theorem sound_new (table : Option Table) : (new table).Sound where
  toBalanced := balanced_new table .off
  provided h := by cases h

/-- Closes a section of the unique counter in use and then one of the component counter. What was
done before a failure stays done. -/
def closeInTurn (a : Allocator) : Except Failure Unit × Allocator :=
  if a.level = 0 then (.error (.unbalancedSection 0), a)
  else
    let (closed, unique) := a.active.unique.closeSection
    let half := a.setActive { a.active with unique }
    match closed with
    | .error _ => (.error (.unbalancedSection a.level), half)
    | .ok () =>
      let (closed, component) := half.active.component.closeSection
      let whole := half.setActive { half.active with component }
      match closed with
      | .error _ => (.error (.unbalancedSection a.level), whole)
      | .ok () => (.ok (), { whole with level := a.level - 1 })

theorem inMetadata_setActive (a : Allocator) (c : Counters) :
    (a.setActive c).inMetadata = a.inMetadata := by
  rw [inMetadata, regions_setActive]
  rfl

theorem active_setActive (a : Allocator) (c : Counters) : (a.setActive c).active = c := by
  rw [active_eq, counters_setActive, if_pos (inMetadata_setActive a c)]

theorem setActive_setActive (a : Allocator) (c d : Counters) :
    (a.setActive c).setActive d = a.setActive d := by
  have hregion := inMetadata_setActive a c
  unfold setActive at hregion ⊢
  split <;> simp_all

theorem Sound.setActive_active (h : a.Sound) : a.setActive a.active = a := by
  unfold setActive active
  split
  · next hregion =>
    obtain ⟨c, hc⟩ := Option.isSome_iff_exists.1 (h.provided hregion)
    rw [hc, Option.getD_some, ← hc]
  · rfl

theorem Balanced.closeSection_eq_outer (h : a.Balanced) :
    a.closeSection =
      if a.active.depth = 0 then (.error (.unbalancedSection a.level), a)
      else (.ok (), { a.setActive a.active.outer with level := a.level - 1 }) := by
  have hclose := Counters.Paired.close?_eq (c := a.active) (h.paired a.inMetadata)
  rw [h.closeSection_eq, hclose]
  by_cases hdepth : a.active.depth = 0
  · rw [if_pos hdepth, if_pos hdepth]
  · rw [if_neg hdepth, if_neg hdepth]

theorem Sound.closeInTurn_eq (h : a.Sound) : a.closeInTurn = a.closeSection := by
  have hle := h.depth_active_le
  have hunique : a.active.unique.depth = a.active.depth := rfl
  have hcomponent : a.active.component.depth = a.active.depth := h.paired a.inMetadata
  rw [h.closeSection_eq_outer]
  unfold closeInTurn Counter.closeSection
  simp only [Counter.close?_eq, active_setActive, setActive_setActive, hunique, hcomponent]
  by_cases hdepth : a.active.depth = 0
  · simp only [if_pos hdepth, h.setActive_active]
    split
    · next hlevel => rw [hlevel]
    · rfl
  · have hlevel : a.level ≠ 0 := by omega
    simp only [if_neg hdepth, if_neg hlevel]
    rfl

theorem perform_of_error {c : Call} {e : Failure} (h : (a.perform c).1 = .error e) :
    (a.perform c).2 = a := by
  cases c with
  | closeSection =>
    simp only [perform, closeSection] at h ⊢
    split
    · rfl
    · next hlevel =>
      rw [if_neg hlevel] at h
      cases hclose : a.active.close? with
      | none => rfl
      | some closed =>
        rw [hclose] at h
        cases h
  | leaveMetadata =>
    simp only [perform, leaveMetadata] at h ⊢
    split
    · rfl
    · next hregions =>
      rw [if_neg hregions] at h
      cases h
  | _ => cases h

/-- Whatever was done with an allocator, its unique and component counters have the same number of
open sections on either side, and its depth is the sum over both sides. A section is closed exactly
if the counters in use have one open, and then in both of them, with nothing else changed; closing
the counters one after the other comes to the same. Calls that fail change nothing. -/
theorem sections_in_lockstep (table : Option Table) (actions : List Action) :
    let a := (new table).run actions
    (∀ inside, (a.counters inside).component.depth = (a.counters inside).unique.depth) ∧
      a.depth = (a.counters false).unique.depth + (a.counters true).unique.depth ∧
      a.closeSection =
        (if a.active.depth = 0 then (.error (.unbalancedSection a.level), a)
        else (.ok (), { a.setActive a.active.outer with level := a.level - 1 })) ∧
      a.closeInTurn = a.closeSection ∧
      ∀ c e, (a.perform c).1 = .error e → (a.perform c).2 = a := by
  intro a
  have h : a.Sound := (sound_new table).run actions
  exact ⟨h.paired, h.level_eq, h.closeSection_eq_outer, h.closeInTurn_eq,
    fun _ _ => perform_of_error⟩

/-- A section that was opened inside of a metadata region is not closed from outside. -/
example :
    let a := (new none).run [.call .enterMetadata, .call .openSection, .call .leaveMetadata]
    a.depth = 1 ∧ a.closeSection.1 = .error (.unbalancedSection 1) :=
  ⟨rfl, rfl⟩

end Allocator

end ViewState.Identifier
