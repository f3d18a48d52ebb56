import ViewState.Proofs.Identifier.Distinct
import ViewState.Proofs.Identifier.Replay

/-!
The calls of a pass inside metadata regions and those outside do not see each other. Each side is a
lane of its own, with its own counters; the only things that the sides share are the number of open
sections, which is the sum over both, and the journal, which acts outside and only if no section is
open. So the journal is the one way from the inside to the outside, and it is shut as long as no
region is left with a section open.
-/
namespace ViewState.Identifier

namespace Counter

@[simp] theorem depth_skip (c : Counter) : c.skip.depth = c.depth := by
  unfold skip depth
  cases c.nested <;> rfl

@[simp] theorem depth_openSection (c : Counter) : c.openSection.2.depth = c.depth + 1 :=
  congrArg (· + 1) c.depth_skip

theorem close?_eq_none_iff {c : Counter} : c.close? = none ↔ c.depth = 0 := by
  unfold close? depth
  cases c.nested <;> simp

theorem depth_of_close? {c c' : Counter} (h : c.close? = some c') : c'.depth + 1 = c.depth := by
  unfold close? at h
  unfold depth
  cases hnested : c.nested with
  | nil =>
    rw [hnested] at h
    cases h
  | cons s rest =>
    rw [hnested] at h
    cases h
    rfl

end Counter

namespace Counters

def depth (c : Counters) : Nat := c.unique.depth

/-- Both counters have the same number of open sections. -/
def Paired (c : Counters) : Prop := c.component.depth = c.depth

variable {c c' : Counters}

theorem close?_eq_none_iff (h : c.Paired) : c.close? = none ↔ c.depth = 0 := by
  unfold close?
  cases hunique : c.unique.close? with
  | none => simpa [depth] using Counter.close?_eq_none_iff.1 hunique
  | some unique =>
    have hopen : c.depth ≠ 0 := by
      intro hzero
      rw [Counter.close?_eq_none_iff.2 hzero] at hunique
      cases hunique
    cases hcomponent : c.component.close? with
    | none => exact absurd (h ▸ Counter.close?_eq_none_iff.1 hcomponent) hopen
    | some component => simp [hopen]

theorem depth_of_close? (h : c.close? = some c') : c'.depth + 1 = c.depth :=
  Counter.depth_of_close? (close?_counter h .unique)

theorem Paired.close? (hpaired : c.Paired) (h : c.close? = some c') : c'.Paired := by
  have hunique := Counter.depth_of_close? (close?_counter h .unique)
  have hcomponent := Counter.depth_of_close? (close?_counter h .component)
  unfold Paired depth at *
  simp only [counter] at hunique hcomponent
  omega

/-- What the counters in use give for a call, and what becomes of them. A failure gives nothing. -/
def perform (c : Counters) : Allocator.Call → Option (Option String) × Counters
  | .next => (some (some c.unique.next.1), { c with unique := c.unique.next.2 })
  | .nextComponent => (some (some c.component.next.1), { c with component := c.component.next.2 })
  | .openSection => (some (some c.openSection.1), c.openSection.2)
  | .closeSection =>
    match c.close? with
    | none => (none, c)
    | some closed => (some none, closed)
  | .enterMetadata | .leaveMetadata => (some none, c)

theorem Paired.perform (h : c.Paired) (call : Allocator.Call) : (c.perform call).2.Paired := by
  cases call with
  | next => exact h.trans c.unique.depth_skip.symm
  | nextComponent => exact c.component.depth_skip.trans h
  | openSection =>
    show c.component.openSection.2.depth = c.unique.openSection.2.depth
    rw [Counter.depth_openSection, Counter.depth_openSection, show c.component.depth = _ from h]
    rfl
  | closeSection =>
    unfold Counters.perform
    cases hclose : c.close? with
    | none => exact h
    | some closed => exact h.close? hclose
  | enterMetadata => exact h
  | leaveMetadata => exact h

end Counters

namespace Journal

def give (id : String) : Journal → String
  | replaying (id' :: _) => id'
  | _ => id

@[simp] theorem give_off (id : String) : off.give id = id := rfl

@[simp] theorem advance_off (id : String) : off.advance id = .off := rfl

end Journal

/-- Counters on their own with a journal of their own. -/
structure Lane where
  counters : Counters
  journal : Journal

namespace Lane

/-- The journal acts on the next unique identifier if no section is open. -/
def perform (l : Lane) (c : Allocator.Call) : Option (Option String) × Lane :=
  if c = .next ∧ l.counters.depth = 0 then
    (some (some (l.journal.give l.counters.unique.next.1)),
      ⟨(l.counters.perform c).2, l.journal.advance l.counters.unique.next.1⟩)
  else ((l.counters.perform c).1, ⟨(l.counters.perform c).2, l.journal⟩)

theorem perform_of_off {l : Lane} (h : l.journal = .off) (c : Allocator.Call) :
    l.perform c = ((l.counters.perform c).1, ⟨(l.counters.perform c).2, .off⟩) := by
  by_cases hc : c = .next ∧ l.counters.depth = 0
  · rw [perform, if_pos hc, hc.1, h]
    rfl
  · rw [perform, if_neg hc, h]

theorem perform_of_ne (l : Lane) {c : Allocator.Call} (hc : c ≠ .next) :
    l.perform c = ((l.counters.perform c).1, ⟨(l.counters.perform c).2, l.journal⟩) := by
  simp [perform, hc]

def after (l : Lane) : List Allocator.Call → Lane
  | [] => l
  | c :: calls => (l.perform c).2.after calls

def answers (l : Lane) : List Allocator.Call → List (Option (Option String))
  | [] => []
  | c :: calls => (l.perform c).1 :: (l.perform c).2.answers calls

end Lane

namespace Allocator

def Call.counts : Call → Bool
  | .enterMetadata | .leaveMetadata => false
  | _ => true

/-- The calls on the counters that a pass makes inside, or outside, of metadata regions. -/
def side (inside : Bool) (a : Allocator) (calls : List Call) : List Event :=
  (a.events calls).filter fun e => e.inside = inside ∧ e.call.counts

def made (inside : Bool) (a : Allocator) (calls : List Call) : List Call :=
  (a.side inside calls).map Event.call

/-- What these calls hand out; of a call that fails only that it does. -/
def observed (inside : Bool) (a : Allocator) (calls : List Call) : List (Option (Option String)) :=
  (a.side inside calls).map fun e => e.answer.toOption

def lane (a : Allocator) (inside : Bool) : Lane :=
  ⟨a.counters inside, if inside then .off else a.journal⟩

def openInside (a : Allocator) : Nat := (a.counters true).depth

/-- Whenever a pass leaves the last metadata region, no section opened in it is open. -/
def Tidy (a : Allocator) : List Call → Prop
  | [] => True
  | c :: calls =>
    (c = .leaveMetadata → a.regions = 1 → a.openInside = 0) ∧ (a.perform c).2.Tidy calls

instance decidableTidy : (a : Allocator) → (calls : List Call) → Decidable (a.Tidy calls)
  | _, [] => .isTrue trivial
  | a, c :: calls =>
    have := decidableTidy (a.perform c).2 calls
    inferInstanceAs (Decidable (_ ∧ _))

/-- All open sections are counted once, inside or outside of metadata regions. -/
structure Balanced (a : Allocator) : Prop where
  paired : ∀ inside, (a.counters inside).Paired
  level_eq : a.level = (a.counters false).depth + (a.counters true).depth

theorem balanced_new (table : Option Table) (j : Journal) :
    ((new table).withJournal j).Balanced where
  paired inside := by cases inside <;> rfl
  level_eq := rfl

variable {a : Allocator}

/-- A journal changes which unique identifier is handed out, and is the only thing that is changed
with it. -/
theorem next_eq (a : Allocator) :
    a.next =
      if a.atJournalScope then
        (a.journal.give a.count.1, a.count.2.withJournal (a.journal.advance a.count.1))
      else a.count := by
  have hsame := withJournal_count a
  unfold next
  split
  · next hscope =>
    cases hjournal : a.journal with
    | off =>
      rw [hjournal] at hsame
      exact Prod.ext rfl hsame.symm
    | recording ids => rfl
    | replaying left =>
      cases left with
      | nil =>
        rw [hjournal] at hsame
        exact Prod.ext rfl hsame.symm
      | cons id left =>
        have hregion : a.inMetadata = false := by
          simp only [atJournalScope, decide_eq_true_eq] at hscope
          simp [inMetadata, hscope.2]
        have hcount : a.count.2 =
            { a with normal := { a.normal with unique := a.normal.unique.skip } } := by
          simp [count, active, setActive, hregion, Counter.next]
        rw [hcount]
        rfl
  · rfl

theorem counters_next (a : Allocator) (inside : Bool) :
    a.next.2.counters inside = a.count.2.counters inside := by
  rw [next_eq]
  split <;> rfl

theorem regions_setActive (a : Allocator) (c : Counters) : (a.setActive c).regions = a.regions := by
  unfold setActive
  split <;> rfl

theorem level_setActive (a : Allocator) (c : Counters) : (a.setActive c).level = a.level := by
  unfold setActive
  split <;> rfl

theorem regions_next (a : Allocator) : a.next.2.regions = a.regions := by
  rw [next_eq]
  split <;> exact regions_setActive a _

theorem level_next (a : Allocator) : a.next.2.level = a.level := by
  rw [next_eq]
  split <;> exact level_setActive a _

theorem regions_perform (a : Allocator) {c : Call} (hc : c.counts) :
    (a.perform c).2.regions = a.regions := by
  cases c with
  | next => exact regions_next a
  | nextComponent => exact regions_setActive a _
  | openSection => exact regions_setActive a _
  | closeSection =>
    simp only [perform, closeSection]
    split
    · rfl
    · split
      · rfl
      · exact regions_setActive a _
  | enterMetadata => cases hc
  | leaveMetadata => cases hc

theorem Balanced.depth_active_le (h : a.Balanced) : a.active.depth ≤ a.level := by
  rw [h.level_eq, active_eq]
  cases a.inMetadata <;> omega

theorem Balanced.closeSection_eq (h : a.Balanced) :
    a.closeSection =
      match a.active.close? with
      | none => (.error (.unbalancedSection a.level), a)
      | some closed => (.ok (), { a.setActive closed with level := a.level - 1 }) := by
  have hle := h.depth_active_le
  unfold closeSection
  split
  · next hlevel =>
    have hnone : a.active.close? = none := by
      rw [Counters.close?_eq_none_iff (c := a.active) (h.paired a.inMetadata)]
      exact Nat.le_zero.1 (hlevel ▸ hle)
    rw [hnone, hlevel]
  · rfl

/-- A call moves the counters in use as they would move on their own, and no others. -/
theorem Balanced.counters_perform (h : a.Balanced) (c : Call) (inside : Bool) :
    (a.perform c).2.counters inside =
      if inside = a.inMetadata then (a.active.perform c).2 else a.counters inside := by
  have hidle : a.counters inside =
      if inside = a.inMetadata then a.active else a.counters inside := by
    split
    · next hinside => rw [hinside, active_eq]
    · rfl
  cases c with
  | next => exact (counters_next a inside).trans (counters_setActive a _ inside)
  | nextComponent => exact counters_setActive a _ inside
  | openSection => exact counters_setActive a _ inside
  | closeSection =>
    simp only [perform, h.closeSection_eq, Counters.perform]
    cases a.active.close? with
    | none => exact hidle
    | some closed => exact counters_setActive a closed inside
  | enterMetadata =>
    refine Eq.trans ?_ hidle
    cases inside <;> rfl
  | leaveMetadata => exact (counters_leaveMetadata a inside).trans hidle

theorem Balanced.level_perform (h : a.Balanced) (c : Call) :
    (a.perform c).2.level + a.active.depth = a.level + (a.active.perform c).2.depth := by
  cases c with
  | next =>
    show a.next.2.level + _ = _ + a.active.unique.skip.depth
    rw [level_next, Counter.depth_skip]
    rfl
  | nextComponent => exact congrArg (· + a.active.depth) (level_setActive a _)
  | openSection =>
    show a.level + 1 + _ = _ + a.active.unique.openSection.2.depth
    rw [Counter.depth_openSection, Counters.depth]
    omega
  | closeSection =>
    have hle := h.depth_active_le
    simp only [perform, h.closeSection_eq, Counters.perform]
    cases hclose : a.active.close? with
    | none => rfl
    | some closed =>
      have hdepth := Counters.depth_of_close? hclose
      show a.level - 1 + a.active.depth = a.level + closed.depth
      omega
  | enterMetadata => rfl
  | leaveMetadata =>
    show a.leaveMetadata.2.level + _ = _
    unfold leaveMetadata
    split <;> rfl

theorem Balanced.perform (h : a.Balanced) (c : Call) : (a.perform c).2.Balanced where
  paired inside := by
    rw [h.counters_perform]
    split
    · exact (h.paired a.inMetadata).perform c
    · exact h.paired inside
  level_eq := by
    have hlevel := h.level_perform c
    have hsum := h.level_eq
    rw [h.counters_perform, h.counters_perform]
    rw [active_eq] at hlevel ⊢
    cases hregion : a.inMetadata <;> simp only [hregion] at hlevel ⊢ <;> simp <;> omega

theorem Balanced.answer_perform (h : a.Balanced) {c : Call} (hc : c.counts) (hne : c ≠ .next) :
    (a.perform c).1.toOption = (a.active.perform c).1 := by
  cases c with
  | next => exact absurd rfl hne
  | nextComponent => rfl
  | openSection => rfl
  | closeSection =>
    simp only [Allocator.perform, h.closeSection_eq, Counters.perform]
    cases a.active.close? <;> rfl
  | enterMetadata => cases hc
  | leaveMetadata => cases hc

/-- Outside of metadata regions the journal acts if no section is open there, provided that none is
open inside. -/
theorem Balanced.next_eq (h : a.Balanced) (hregion : a.inMetadata = false)
    (hclosed : a.openInside = 0) :
    a.next =
      if (a.counters false).depth = 0 then
        (a.journal.give a.count.1, a.count.2.withJournal (a.journal.advance a.count.1))
      else a.count := by
  have hregions : a.regions = 0 := by simpa [inMetadata] using hregion
  have hlevel : a.level = (a.counters false).depth := by
    rw [h.level_eq, show (a.counters true).depth = 0 from hclosed, Nat.add_zero]
  rw [Allocator.next_eq, atJournalScope, hregions, hlevel]
  simp

theorem lane_count (a : Allocator) (inside : Bool) (j : Journal) :
    (a.count.2.withJournal j).lane inside =
      ⟨if inside = a.inMetadata then (a.active.perform .next).2 else a.counters inside,
        if inside then .off else j⟩ := by
  rw [lane, ← counters_setActive]
  rfl

theorem lane_next_of_count (hnext : a.next = a.count)
    (hoff : (a.lane a.inMetadata).journal = .off) :
    (a.perform .next).1.toOption = ((a.lane a.inMetadata).perform .next).1 ∧
      (a.perform .next).2.lane a.inMetadata = ((a.lane a.inMetadata).perform .next).2 := by
  have hperform : a.perform .next = (.ok (some a.count.1), a.count.2) := by
    rw [Allocator.perform, hnext]
  rw [hperform, Lane.perform_of_off hoff]
  refine ⟨rfl, ?_⟩
  rw [← withJournal_count, lane_count, if_pos rfl]
  exact congrArg _ hoff

theorem Balanced.lane_next (h : a.Balanced) (hregion : a.inMetadata = false)
    (hclosed : a.openInside = 0) :
    (a.perform .next).1.toOption = ((a.lane false).perform .next).1 ∧
      (a.perform .next).2.lane false = ((a.lane false).perform .next).2 := by
  have hactive : a.active = a.counters false := by rw [active_eq, hregion]
  have hlane (j : Journal) : (a.count.2.withJournal j).lane false =
      ⟨((a.counters false).perform .next).2, j⟩ := by
    rw [lane_count, if_pos hregion.symm, hactive]
    rfl
  have hid : a.count.1 = (a.lane false).counters.unique.next.1 := by
    show a.active.unique.next.1 = (a.counters false).unique.next.1
    rw [hactive]
  rw [Allocator.perform, h.next_eq hregion hclosed, Lane.perform]
  by_cases hdepth : (a.counters false).depth = 0
  · rw [if_pos hdepth, if_pos ⟨rfl, hdepth⟩, ← hid]
    exact ⟨rfl, hlane _⟩
  · rw [if_neg hdepth, if_neg fun hc => hdepth hc.2]
    refine ⟨congrArg (some ∘ some) hid, ?_⟩
    rw [← withJournal_count, hlane]
    rfl

/-- A call on the counters is answered as the lane of its side would answer it, and becomes of that
lane what the call makes of it. -/
theorem Balanced.lane_perform (h : a.Balanced) {c : Call} (hc : c.counts)
    (hscope : a.inMetadata = true ∨ a.journal = .off ∨ a.openInside = 0) :
    (a.perform c).1.toOption = ((a.lane a.inMetadata).perform c).1 ∧
      (a.perform c).2.lane a.inMetadata = ((a.lane a.inMetadata).perform c).2 := by
  by_cases hne : c = .next
  · subst hne
    cases hregion : a.inMetadata with
    | true =>
      have hnext : a.next = a.count := by
        have : a.regions ≠ 0 := by
          simp only [inMetadata, decide_eq_true_eq] at hregion
          omega
        exact next_of_not_scope (by simp [atJournalScope, this])
      exact hregion ▸ lane_next_of_count hnext (by simp [lane, hregion])
    | false =>
      rcases hscope with htrue | hoff | hclosed
      · rw [hregion] at htrue
        cases htrue
      · exact hregion ▸ lane_next_of_count (next_of_off hoff) (by simp [lane, hoff])
      · exact h.lane_next hregion hclosed
  · rw [Lane.perform_of_ne _ hne]
    refine ⟨h.answer_perform hc hne, ?_⟩
    rw [lane, h.counters_perform, if_pos rfl, journal_perform a hne]
    rfl

theorem Balanced.lane_other (h : a.Balanced) {c : Call} {inside : Bool}
    (hother : a.inMetadata = inside → ¬ c.counts) :
    (a.perform c).2.lane inside = a.lane inside := by
  have hcounters : (a.perform c).2.counters inside = a.counters inside := by
    rw [h.counters_perform]
    split
    · next hinside =>
      subst hinside
      have hc := hother rfl
      cases c <;> first | rfl | exact absurd rfl hc
    · rfl
  have hjournal : inside = false → (a.perform c).2.journal = a.journal := by
    rintro rfl
    by_cases hne : c = .next
    · subst hne
      have hregion : a.inMetadata ≠ false := fun hregion => hother hregion rfl
      have hregions : a.regions ≠ 0 := by simpa [inMetadata] using hregion
      show a.next.2.journal = a.journal
      rw [next_of_not_scope (by simp [atJournalScope, hregions])]
      rw [← withJournal_count]
      rfl
    · exact journal_perform a hne
  rw [lane, lane, hcounters]
  cases inside with
  | true => rfl
  | false => rw [hjournal rfl]

/-- What keeps the journal from acting by what happens inside of metadata regions: there is none, or
it looks the other way, or regions are left as they were entered. -/
def Separate (inside : Bool) (a : Allocator) (calls : List Call) : Prop :=
  inside = true ∨ a.journal = .off ∨ (a.Tidy calls ∧ (a.inMetadata = false → a.openInside = 0))

theorem Separate.tail {inside : Bool} {c : Call} {calls : List Call} (h : a.Balanced)
    (hseparate : a.Separate inside (c :: calls)) : (a.perform c).2.Separate inside calls := by
  rcases hseparate with htrue | hoff | ⟨⟨hleave, htidy⟩, hclosed⟩
  · exact .inl htrue
  · exact .inr (.inl (journal_perform_of_off hoff c))
  refine .inr (.inr ⟨htidy, fun hregion => ?_⟩)
  have hcounters := h.counters_perform c true
  by_cases hc : c.counts
  · have houtside : a.inMetadata = false := by
      rw [inMetadata, regions_perform a hc] at hregion
      exact hregion
    rw [houtside, if_neg (by decide)] at hcounters
    rw [openInside, hcounters]
    exact hclosed houtside
  · have hidle : (a.perform c).2.openInside = a.openInside := by
      have hactive : (a.active.perform c).2 = a.active := by
        cases c <;> first | rfl | exact absurd rfl hc
      rw [openInside, hcounters, hactive, active_eq]
      split
      · next hinside => rw [← hinside]; rfl
      · rfl
    rw [hidle]
    cases c with
    | enterMetadata => simp [perform, enterMetadata, inMetadata] at hregion
    | leaveMetadata =>
      by_cases hregions : a.regions = 0
      · exact hclosed (by simp [inMetadata, hregions])
      · have hlast : ¬ 0 < a.leaveMetadata.2.regions := of_decide_eq_false hregion
        rw [leaveMetadata, if_neg hregions] at hlast
        dsimp only at hlast
        exact hleave rfl (by omega)
    | _ => exact absurd rfl hc

theorem side_cons_of_on {inside : Bool} {c : Call} (hon : a.inMetadata = inside ∧ c.counts)
    (calls : List Call) :
    a.side inside (c :: calls) =
      ⟨c, a.inMetadata, (a.perform c).1⟩ :: (a.perform c).2.side inside calls :=
  List.filter_cons_of_pos (by simpa using hon)

theorem side_cons_of_other {inside : Bool} {c : Call}
    (hother : ¬ (a.inMetadata = inside ∧ c.counts)) (calls : List Call) :
    a.side inside (c :: calls) = (a.perform c).2.side inside calls :=
  List.filter_cons_of_neg (by simpa using hother)

/-- A pass answers the calls of one side as the lane of this side does by itself. -/
theorem Balanced.observed_eq (h : a.Balanced) {inside : Bool} {calls : List Call}
    (hseparate : a.Separate inside calls) :
    a.observed inside calls = (a.lane inside).answers (a.made inside calls) ∧
      (a.after calls).lane inside = (a.lane inside).after (a.made inside calls) := by
  induction calls generalizing a with
  | nil => exact ⟨rfl, rfl⟩
  | cons c calls ih =>
    obtain ⟨hobserved, hafter⟩ := ih (h.perform c) (hseparate.tail h)
    by_cases hon : a.inMetadata = inside ∧ c.counts
    · rw [observed, made, side_cons_of_on hon, after]
      obtain ⟨rfl, hc⟩ := hon
      have hscope : a.inMetadata = true ∨ a.journal = .off ∨ a.openInside = 0 := by
        rcases hseparate with htrue | hoff | ⟨-, hclosed⟩
        · exact .inl htrue
        · exact .inr (.inl hoff)
        · cases hregion : a.inMetadata with
          | true => exact .inl rfl
          | false => exact .inr (.inr (hclosed hregion))
      obtain ⟨hanswer, hlane⟩ := h.lane_perform hc hscope
      rw [hlane] at hobserved hafter
      exact ⟨congr (congrArg _ hanswer) hobserved, hafter⟩
    · rw [observed, made, side_cons_of_other hon, after]
      rw [h.lane_other fun hinside hc => hon ⟨hinside, hc⟩] at hobserved hafter
      exact ⟨hobserved, hafter⟩

/-- What a pass of a new allocator hands out, and which closings fail, is fixed on either side of
the border of metadata regions by the calls made on this side. With a journal this holds, and the
journal is fixed by the calls outside, if no region is left while a section opened in it is open. -/
theorem isolated (table : Option Table) (j : Journal) {calls calls' : List Call}
    (h : j = .off ∨ (((new table).withJournal j).Tidy calls ∧
      ((new table).withJournal j).Tidy calls'))
    (inside : Bool)
    (hmade : ((new table).withJournal j).made inside calls =
      ((new table).withJournal j).made inside calls') :
    ((new table).withJournal j).observed inside calls =
        ((new table).withJournal j).observed inside calls' ∧
      (inside = false → (((new table).withJournal j).after calls).journal =
        (((new table).withJournal j).after calls').journal) := by
  have hbalanced := balanced_new table j
  generalize ha : (new table).withJournal j = a at *
  have hjournal : a.journal = j := ha ▸ rfl
  have hclosed : a.inMetadata = false → a.openInside = 0 := fun _ => ha ▸ rfl
  have hseparate : a.Separate inside calls ∧ a.Separate inside calls' := by
    rcases h with hoff | ⟨htidy, htidy'⟩
    · exact ⟨.inr (.inl (hjournal.trans hoff)), .inr (.inl (hjournal.trans hoff))⟩
    · exact ⟨.inr (.inr ⟨htidy, hclosed⟩), .inr (.inr ⟨htidy', hclosed⟩)⟩
  obtain ⟨hobserved, hafter⟩ := hbalanced.observed_eq hseparate.1
  obtain ⟨hobserved', hafter'⟩ := hbalanced.observed_eq hseparate.2
  refine ⟨by rw [hobserved, hobserved', hmade], ?_⟩
  rintro rfl
  rw [hmade] at hafter
  exact congrArg Lane.journal (hafter.trans hafter'.symm)

/-- Two recorded passes that differ inside of metadata regions, where one of them opens a section
and tries to close one too many; and two passes without a journal, of which one leaves a section
open at the border of a region and cannot close it outside. -/
theorem isolated_crossed :
    let recording := (new none).withJournal (.recording [])
    let calls : List Call := [.next, .openSection, .enterMetadata, .openSection, .next,
      .closeSection, .closeSection, .leaveMetadata, .closeSection, .next]
    let calls' : List Call := [.enterMetadata, .leaveMetadata, .next, .openSection, .closeSection,
      .next]
    let plain := (new none).withJournal .off
    let crossed : List Call := [.enterMetadata, .openSection, .leaveMetadata, .closeSection, .next]
    (recording.Tidy calls ∧ recording.Tidy calls' ∧
      recording.made false calls = recording.made false calls' ∧
      recording.observed false calls = recording.observed false calls' ∧
      (recording.after calls).journal = (recording.after calls').journal) ∧
    plain.made false crossed = plain.made false [.closeSection, .next] ∧
      plain.observed false crossed = plain.observed false [.closeSection, .next] := by
  intro recording calls calls' plain crossed
  have htidy : recording.Tidy calls := by decide
  have htidy' : recording.Tidy calls' := by decide
  have hmade : recording.made false calls = recording.made false calls' := by decide
  obtain ⟨hobserved, hjournal⟩ :=
    isolated none (.recording []) (.inr ⟨htidy, htidy'⟩) false hmade
  have hcrossed : plain.made false crossed = plain.made false [.closeSection, .next] := by decide
  exact ⟨⟨htidy, htidy', hmade, hobserved, hjournal rfl⟩, hcrossed,
    (isolated none .off (.inl rfl) false hcrossed).1⟩

/-- A section that is left open inside keeps the journal from acting outside. -/
example :
    ((new none).startRecording.after
      [.enterMetadata, .openSection, .leaveMetadata, .next]).recorded =
        some [] ∧
      ((new none).startRecording.after [.next]).recorded = some ["j_id1"] := by
  decide +kernel

end Allocator

end ViewState.Identifier
