import ViewState.Composition
import ViewState.Proofs.Identifier.Lockstep

/-!
Composite components of a rebuild pass, whatever else is done with the stacks and the allocator.
Leaving a composite takes one entry off the stack and closes one section, or it fails and does
neither. What is bracketed well between an enter and a leave goes unnoticed by both.
-/
namespace ViewState

open Identifier (Allocator)

namespace Identifier

theorem Counters.depth_outer (c : Counters) : c.outer.depth = c.depth - 1 :=
  List.length_tail

namespace Allocator

/-- As many sections are open on either side, and as many metadata regions. -/
structure SameNesting (a a' : Allocator) : Prop where
  regions_eq : a'.regions = a.regions
  depth_eq : ∀ inside, (a'.counters inside).depth = (a.counters inside).depth

/-- What an action hands out; changes of the journal hand out nothing and do not fail. -/
def answer (a : Allocator) : Action → Answer
  | .call c => (a.perform c).1
  | .startRecording | .replay _ | .takeRecorded => .ok none

/-- The action opens and closes nothing. -/
def Action.plain : Action → Bool
  | .call .next | .call .nextComponent => true
  | .call _ => false
  | .startRecording | .replay _ | .takeRecorded => true

variable {a a' a'' : Allocator}

theorem answer_of_plain {action : Action} (h : action.plain) :
    ∃ out, a.answer action = .ok out := by
  cases action with
  | call c => cases c <;> first | exact ⟨_, rfl⟩ | cases h
  | startRecording => exact ⟨none, rfl⟩
  | replay ids => exact ⟨none, rfl⟩
  | takeRecorded => exact ⟨none, rfl⟩

namespace SameNesting

theorem refl (a : Allocator) : SameNesting a a := ⟨rfl, fun _ => rfl⟩

theorem trans (h : SameNesting a a') (h' : SameNesting a' a'') : SameNesting a a'' :=
  ⟨h'.regions_eq.trans h.regions_eq, fun inside => (h'.depth_eq inside).trans (h.depth_eq inside)⟩

theorem inMetadata_eq (h : SameNesting a a') : a'.inMetadata = a.inMetadata := by
  rw [inMetadata, h.regions_eq]
  rfl

theorem level_eq (h : SameNesting a a') (hbalanced : a.Balanced) (hbalanced' : a'.Balanced) :
    a'.level = a.level := by
  rw [hbalanced.level_eq, hbalanced'.level_eq, h.depth_eq, h.depth_eq]

end SameNesting

theorem Balanced.sameNesting_act (h : a.Balanced) {action : Action} (hplain : action.plain) :
    SameNesting a (a.act action) := by
  have hcounted {c : Call} (hc : c.counts)
      (hdepth : (a.active.perform c).2.depth = a.active.depth) :
      SameNesting a (a.perform c).2 := by
    refine ⟨regions_perform a hc, fun inside => ?_⟩
    rw [h.counters_perform]
    split
    · next hinside => rw [hdepth, hinside, active_eq]
    · rfl
  cases action with
  | call c =>
    cases c with
    | next => exact hcounted rfl (Counter.depth_skip _)
    | nextComponent => exact hcounted rfl rfl
    | openSection => cases hplain
    | closeSection => cases hplain
    | enterMetadata => cases hplain
    | leaveMetadata => cases hplain
  | startRecording => exact ⟨rfl, fun _ => rfl⟩
  | replay ids => exact ⟨rfl, fun _ => rfl⟩
  | takeRecorded =>
    show SameNesting a a.takeRecorded.2
    unfold takeRecorded
    split
    · exact ⟨rfl, fun _ => rfl⟩
    · exact .refl a

/-- A section is closed behind what leaves as much open as it found. -/
theorem SameNesting.closeSection (h : SameNesting a.openSection.2 a') (hbalanced : a'.Balanced) :
    a'.closeSection.1 = .ok () ∧ SameNesting a a'.closeSection.2 := by
  have hregion : a'.inMetadata = a.inMetadata := h.inMetadata_eq.trans (inMetadata_setActive a _)
  have hopened (inside : Bool) : (a'.counters inside).depth =
      (if inside = a.inMetadata then a.active.openSection.2 else a.counters inside).depth := by
    rw [h.depth_eq inside]
    exact congrArg Counters.depth (counters_setActive a _ inside)
  have hactive : a'.active.depth = a.active.depth + 1 := by
    rw [active_eq, hopened, if_pos hregion]
    exact Counter.depth_openSection _
  rw [hbalanced.closeSection_eq_outer, if_neg (by omega)]
  refine ⟨rfl, ?_, fun inside => ?_⟩
  · exact (regions_setActive a' _).trans (h.regions_eq.trans (regions_setActive a _))
  · show ((a'.setActive a'.active.outer).counters inside).depth = _
    rw [counters_setActive, hregion]
    split
    · next hinside =>
      rw [Counters.depth_outer, hactive, hinside, ← active_eq]
      rfl
    · next hinside => rw [hopened, if_neg hinside]

theorem SameNesting.leaveMetadata (h : SameNesting a.enterMetadata a') :
    a'.leaveMetadata.1 = .ok () ∧ SameNesting a a'.leaveMetadata.2 := by
  have hregions : a'.regions = a.regions + 1 := h.regions_eq
  unfold Allocator.leaveMetadata
  rw [if_neg (by omega)]
  refine ⟨rfl, ?_, fun inside => ?_⟩
  · show a'.regions - 1 = a.regions
    omega
  · have hdepth := h.depth_eq inside
    cases inside <;> exact hdepth

end Allocator

end Identifier

namespace Composition

open Identifier.Allocator (Action SameNesting)

inductive Move
  | enter (component : String)
  | leave
  | ids (action : Action)
  | push (region : Region) (item : String)
  | pop (region : Region)

def perform (c : Composition) : Move → Except Failure (Option String) × Composition
  | .enter component => (.ok (some (c.enter component).1), (c.enter component).2)
  | .leave => (c.leave.1.map some, c.leave.2)
  | .ids action => (c.ids.answer action, { c with ids := c.ids.act action })
  | .push region item => (.ok none, c.push region item)
  | .pop region => (.ok (c.pop region).1, (c.pop region).2)

def run (c : Composition) (moves : List Move) : Composition :=
  moves.foldl (fun c m => (c.perform m).2) c

def Succeeds (c : Composition) : List Move → Prop
  | [] => True
  | m :: moves => (∃ out, (c.perform m).1 = .ok out) ∧ (c.perform m).2.Succeeds moves

variable {c c' c'' : Composition}

theorem run_append (moves later : List Move) :
    c.run (moves ++ later) = (c.run moves).run later :=
  List.foldl_append

theorem succeeds_append {moves later : List Move} :
    c.Succeeds (moves ++ later) ↔ c.Succeeds moves ∧ (c.run moves).Succeeds later := by
  induction moves generalizing c with
  | nil => simp [Succeeds, run]
  | cons m moves ih => simp only [List.cons_append, Succeeds, ih, and_assoc]; rfl

theorem ids_pop (c : Composition) (region : Region) : (c.pop region).2.ids = c.ids := by
  unfold pop
  cases c.opened region <;> rfl

theorem sound_leave (h : c.ids.Sound) : c.leave.2.ids.Sound := by
  have hclosed : c.ids.closeSection.2.Sound := h.perform .closeSection
  unfold leave
  cases c.opened .composite with
  | nil => exact h
  | cons component rest =>
    generalize c.ids.closeSection = r at hclosed
    obtain ⟨closed, ids⟩ := r
    cases closed with
    | error e => exact h
    | ok => exact hclosed

theorem sound_perform (h : c.ids.Sound) (m : Move) : (c.perform m).2.ids.Sound := by
  cases m with
  | enter component => exact h.perform .openSection
  | leave => exact sound_leave h
  | ids action => exact h.act action
  | push region item => exact h
  | pop region =>
    show (c.pop region).2.ids.Sound
    rwa [ids_pop]

theorem sound_run (h : c.ids.Sound) (moves : List Move) : (c.run moves).ids.Sound := by
  induction moves generalizing c with
  | nil => exact h
  | cons m moves ih => exact ih (sound_perform h m)

theorem leave_eq (h : c.ids.Sound) :
    c.leave =
      match c.opened .composite with
      | [] => (.error (.unbalancedSection c.ids.depth), c)
      | component :: rest =>
        if c.ids.active.depth = 0 then (.error (.unbalancedSection c.ids.depth), c)
        else (.ok component, { c.setStack .composite rest with
          ids := { c.ids.setActive c.ids.active.outer with level := c.ids.depth - 1 } }) := by
  unfold leave
  rw [h.closeSection_eq_outer]
  cases c.opened .composite with
  | nil => rfl
  | cons component rest =>
    by_cases hdepth : c.ids.active.depth = 0
    · simp only [if_pos hdepth]
      rfl
    · simp only [if_neg hdepth]
      rfl

/-- Leaves a composite step by step: the section first, of the one counter and then of the other,
and the stack after it. What was done before a failure stays done. -/
def leaveInTurn (c : Composition) : Except Failure String × Composition :=
  if (c.opened .composite).isEmpty then (.error (.unbalancedSection c.ids.depth), c)
  else
    let (closed, ids) := c.ids.closeInTurn
    let c := { c with ids }
    match closed with
    | .error e => (.error e, c)
    | .ok () =>
      match c.pop .composite with
      | (some component, c) => (.ok component, c)
      | (none, c) => (.error (.unbalancedSection 0), c)

theorem leaveInTurn_eq (h : c.ids.Sound) : c.leaveInTurn = c.leave := by
  -- no failure comes between the two counters, and none after the section is closed
  unfold leaveInTurn leave pop
  rw [h.closeInTurn_eq, h.closeSection_eq_outer]
  cases hopened : c.opened .composite with
  | nil => rfl
  | cons component rest =>
    by_cases hdepth : c.ids.active.depth = 0
    · simp only [if_pos hdepth]
      rfl
    · simp only [if_neg hdepth, hopened]
      rfl

inductive Bracket
  | composite (component : String)
  | idSection
  | metadata
  | entry (region : Region) (item : String)

def Bracket.opening : Bracket → Move
  | composite component => .enter component
  | idSection => .ids (.call .openSection)
  | metadata => .ids (.call .enterMetadata)
  | entry region item => .push region item

def Bracket.closing : Bracket → Move
  | composite _ => .leave
  | idSection => .ids (.call .closeSection)
  | metadata => .ids (.call .leaveMetadata)
  | entry region _ => .pop region

/-- Each move closes what the last one opened that is not closed yet, or opens, or does neither. -/
inductive Bracketed : List Move → Prop
  | done : Bracketed []
  | plain {action : Action} (hplain : action.plain) {rest : List Move} (hrest : Bracketed rest) :
      Bracketed (.ids action :: rest)
  | within (b : Bracket) {inner rest : List Move} (hinner : Bracketed inner)
      (hrest : Bracketed rest) : Bracketed (b.opening :: (inner ++ b.closing :: rest))

/-- The stacks are the same again, and as much is open. -/
structure Kept (c c' : Composition) : Prop where
  opened_eq : c'.opened = c.opened
  nesting : SameNesting c.ids c'.ids
  sound : c'.ids.Sound

theorem Kept.refl (h : c.ids.Sound) : Kept c c := ⟨rfl, .refl _, h⟩

theorem Kept.trans (h : Kept c c') (h' : Kept c' c'') : Kept c c'' :=
  ⟨h'.opened_eq.trans h.opened_eq, h.nesting.trans h'.nesting, h'.sound⟩

theorem opened_pop {region : Region} {item : String} (h : c'.opened = (c.push region item).opened) :
    (c'.pop region).1 = some item ∧ (c'.pop region).2.opened = c.opened := by
  have htop : c'.opened region = item :: c.opened region := by
    rw [h]
    exact if_pos rfl
  unfold pop
  rw [htop]
  refine ⟨rfl, ?_⟩
  funext region'
  show (if region' = region then _ else c'.opened region') = _
  split
  · next heq => rw [heq]
  · next hne =>
    rw [h]
    exact if_neg hne

theorem leave_of_closed {component : String} {ids : Allocator}
    (hclose : c.ids.closeSection = (.ok (), ids)) (htop : (c.pop .composite).1 = some component) :
    c.leave = (.ok component, { (c.pop .composite).2 with ids }) := by
  unfold leave
  unfold pop at htop ⊢
  cases hopened : c.opened .composite with
  | nil =>
    rw [hopened] at htop
    cases htop
  | cons top rest =>
    rw [hopened] at htop
    cases htop
    rw [hclose]

theorem Kept.leave {component : String} (h : Kept (c.enter component).2 c') :
    c'.leave.1 = .ok component ∧ Kept c c'.leave.2 := by
  obtain ⟨hclosed, hnesting⟩ := h.nesting.closeSection h.sound.toBalanced
  have hsound : c'.ids.closeSection.2.Sound := h.sound.perform .closeSection
  have hpushed : c'.opened = (c.push .composite component).opened := h.opened_eq
  obtain ⟨htop, hrest⟩ := opened_pop hpushed
  rw [leave_of_closed (Prod.ext hclosed rfl) htop]
  exact ⟨rfl, hrest, hnesting, hsound⟩

theorem Bracket.opens (b : Bracket) (c : Composition) :
    ∃ out, (c.perform b.opening).1 = .ok out := by
  cases b <;> exact ⟨_, rfl⟩

theorem Kept.close (b : Bracket) (h : Kept (c.perform b.opening).2 c') :
    (∃ out, (c'.perform b.closing).1 = .ok out) ∧ Kept c (c'.perform b.closing).2 := by
  cases b with
  | composite component =>
    obtain ⟨hitem, hkept⟩ := Kept.leave h
    exact ⟨⟨some component, congrArg (Except.map some) hitem⟩, hkept⟩
  | idSection =>
    obtain ⟨hclosed, hnesting⟩ := h.nesting.closeSection h.sound.toBalanced
    have hanswer := congrArg (Except.map fun _ => (none : Option String)) hclosed
    exact ⟨⟨none, hanswer⟩, h.opened_eq, hnesting, h.sound.perform .closeSection⟩
  | metadata =>
    obtain ⟨hleft, hnesting⟩ := h.nesting.leaveMetadata
    have hanswer := congrArg (Except.map fun _ => (none : Option String)) hleft
    exact ⟨⟨none, hanswer⟩, h.opened_eq, hnesting, h.sound.perform .leaveMetadata⟩
  | entry region item =>
    obtain ⟨-, hopened⟩ := opened_pop h.opened_eq
    have hids : (c'.pop region).2.ids = c'.ids := ids_pop c' region
    exact ⟨⟨_, rfl⟩, hopened, hids ▸ h.nesting, hids ▸ h.sound⟩

/-- None of the moves between matching brackets fails, and all that they open they close. -/
theorem Bracketed.kept {moves : List Move} (h : Bracketed moves) (hsound : c.ids.Sound) :
    c.Succeeds moves ∧ Kept c (c.run moves) := by
  induction h generalizing c with
  | done => exact ⟨trivial, .refl hsound⟩
  | @plain action hplain rest _ ih =>
    have hkept : Kept c (c.perform (.ids action)).2 :=
      ⟨rfl, hsound.toBalanced.sameNesting_act hplain, hsound.act action⟩
    obtain ⟨hsucceeds, hrest⟩ := ih hkept.sound
    exact ⟨⟨Allocator.answer_of_plain hplain, hsucceeds⟩, hkept.trans hrest⟩
  | @within b inner rest _ _ ihinner ihrest =>
    obtain ⟨hsucceeds, hinside⟩ := ihinner (sound_perform hsound b.opening)
    obtain ⟨hclosed, hkept⟩ := Kept.close b hinside
    obtain ⟨hsucceeds', hrest⟩ := ihrest hkept.sound
    -- the inside keeps what the opening move left, so the closing one finds that on top
    refine ⟨⟨b.opens c, succeeds_append.2 ⟨hsucceeds, hclosed, hsucceeds'⟩⟩, ?_⟩
    show Kept c ((c.perform b.opening).2.run (inner ++ b.closing :: rest))
    rw [run_append]
    exact hkept.trans hrest

/-- Whatever was done in a pass, leaving a composite takes one entry off the stack and closes one
section of the counters in use, or it fails and changes nothing; and it comes to the same to close
the section first and to take the entry after it. A leave behind moves that are bracketed well gives
the composite that was entered before them, and the stacks and the open sections as they were. -/
theorem leave_all_or_nothing (table : Option Identifier.Table) (actions : List Action)
    (moves : List Move) :
    let c := (new ((Allocator.new table).run actions)).run moves
    c.leave =
        (match c.opened .composite with
        | [] => (.error (.unbalancedSection c.ids.depth), c)
        | component :: rest =>
          if c.ids.active.depth = 0 then (.error (.unbalancedSection c.ids.depth), c)
          else (.ok component, { c.setStack .composite rest with
            ids := { c.ids.setActive c.ids.active.outer with level := c.ids.depth - 1 } })) ∧
      c.leaveInTurn = c.leave ∧
      ∀ component body, Bracketed body →
        let entered := (c.enter component).2
        let left := (entered.run body).leave
        entered.Succeeds body ∧ left.1 = .ok component ∧ left.2.opened = c.opened ∧
          left.2.ids.depth = c.ids.depth ∧ SameNesting c.ids left.2.ids := by
  intro c
  have hsound : c.ids.Sound := sound_run ((Allocator.sound_new table).run actions) moves
  refine ⟨leave_eq hsound, leaveInTurn_eq hsound, fun component body hbody => ?_⟩
  obtain ⟨hsucceeds, hinside⟩ := hbody.kept (sound_perform hsound (.enter component))
  obtain ⟨hitem, hkept⟩ := Kept.leave hinside
  exact ⟨hsucceeds, hitem, hkept.opened_eq,
    hkept.nesting.level_eq hsound.toBalanced hkept.sound.toBalanced, hkept.nesting⟩

/-- A composite around a metadata region with another composite in it, inside of a section that was
opened without any. -/
theorem leave_all_or_nothing_around_region :
    let c := (new ((Allocator.new none).run [.startRecording])).run
      [.ids (.call .openSection), .push .composite "outer"]
    let body : List Move := [.ids (.call .enterMetadata), .enter "inner", .ids (.call .next),
      .leave, .ids (.call .leaveMetadata)]
    let left := ((c.enter "cc").2.run body).leave
    Bracketed body ∧ left.1 = .ok "cc" ∧ left.2.opened .composite = ["outer"] ∧
      left.2.ids.depth = 1 := by
  intro c body left
  have hbody : Bracketed body :=
    .within .metadata (.within (.composite "inner") (.plain rfl .done) .done) .done
  obtain ⟨-, hitem, hopened, hdepth, -⟩ := (leave_all_or_nothing none [.startRecording]
    [.ids (.call .openSection), .push .composite "outer"]).2.2 "cc" body hbody
  refine ⟨hbody, hitem, ?_, hdepth⟩
  rw [hopened]
  rfl

/-- A composite that was entered inside of a metadata region is not left from outside. -/
example :
    let c := (new (.new none)).run
      [.ids (.call .enterMetadata), .enter "cc", .ids (.call .leaveMetadata)]
    c.leave.1 = .error (.unbalancedSection 1) ∧ c.leave.2.opened .composite = ["cc"] :=
  ⟨rfl, rfl⟩

end Composition

end ViewState
