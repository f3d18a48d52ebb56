import ViewState.Proofs.Identifier.Lockstep

/-!
What is done inside a section stays inside. A body closes all sections and regions that it opens;
within a section it only counts on in the innermost sections of the counters, and the journal has no
part in it. When the section is closed, nothing is left of that but what was counted inside of
metadata regions.
-/
namespace ViewState.Identifier

/-- The same counter after counting on in its innermost section. -/
inductive Counter.Counted : Counter → Counter → Prop
  | refl (c : Counter) : Counted c c
  | skip {c c' : Counter} (h : Counted c c') : Counted c c'.skip

namespace Counter.Counted

variable {c c' c'' : Counter}

theorem trans (h : Counted c c') (h' : Counted c' c'') : Counted c c'' := by
  induction h' with
  | refl => exact h
  | skip _ ih => exact ih.skip

theorem depth_eq (h : Counted c c') : c'.depth = c.depth := by
  induction h with
  | refl => rfl
  | skip _ ih => rw [depth_skip, ih]

theorem outer_eq (h : Counted c c') (hopen : c.depth ≠ 0) : c'.outer = c.outer := by
  induction h with
  | refl => rfl
  | @skip c' h ih =>
    have hopen' : c'.nested ≠ [] := by
      intro hnil
      exact hopen (h.depth_eq ▸ congrArg List.length hnil)
    obtain ⟨s, around, hnested⟩ := List.exists_cons_of_ne_nil hopen'
    rw [← ih, Counter.skip, hnested]
    simp [outer, hnested]

theorem close? (h : Counted c.openSection.2 c') : c'.close? = some c.skip := by
  have hopen : c.openSection.2.depth ≠ 0 := by
    rw [depth_openSection]
    exact Nat.succ_ne_zero _
  rw [close?_eq, h.depth_eq, if_neg hopen, h.outer_eq hopen]
  rfl

end Counter.Counted

def Counters.skip (c : Counters) : Counters := ⟨c.unique.skip, c.component.skip⟩

structure Counters.Counted (c c' : Counters) : Prop where
  unique : c.unique.Counted c'.unique
  component : c.component.Counted c'.component

namespace Counters.Counted

variable {c c' c'' : Counters}

theorem refl (c : Counters) : Counted c c := ⟨.refl _, .refl _⟩

theorem skip (c : Counters) : Counted c c.skip := ⟨.skip (.refl _), .skip (.refl _)⟩

theorem trans (h : Counted c c') (h' : Counted c' c'') : Counted c c'' :=
  ⟨h.unique.trans h'.unique, h.component.trans h'.component⟩

theorem close? (h : Counted c.openSection.2 c') : c'.close? = some c.skip := by
  unfold Counters.close?
  rw [h.unique.close?, h.component.close?]
  rfl

end Counters.Counted

namespace Allocator

/-- Calls that close each section and each metadata region that they open. -/
inductive Body
  | done
  | next (rest : Body)
  | nextComponent (rest : Body)
  | inSection (inner rest : Body)
  | inRegion (inner rest : Body)

def Body.calls : Body → List Call
  | done => []
  | next rest => .next :: rest.calls
  | nextComponent rest => .nextComponent :: rest.calls
  | inSection inner rest => .openSection :: (inner.calls ++ .closeSection :: rest.calls)
  | inRegion inner rest => .enterMetadata :: (inner.calls ++ .leaveMetadata :: rest.calls)

theorem after_append (a : Allocator) (calls later : List Call) :
    a.after (calls ++ later) = (a.after calls).after later := by
  induction calls generalizing a with
  | nil => rfl
  | cons c calls ih => exact ih _

theorem events_append (a : Allocator) (calls later : List Call) :
    a.events (calls ++ later) = a.events calls ++ (a.after calls).events later := by
  induction calls generalizing a with
  | nil => rfl
  | cons c calls ih => exact congrArg (_ :: ·) (ih _)

/-- A body was run through: all that has changed is what was counted in the innermost sections, on
the other side of the border of metadata regions only if the body crosses it. -/
structure Contained (crosses : Prop) (a a' : Allocator) : Prop where
  level_eq : a'.level = a.level
  regions_eq : a'.regions = a.regions
  journal_eq : a'.journal = a.journal
  counted : ∀ inside, (a.counters inside).Counted (a'.counters inside)
  normal_eq : a.inMetadata → a'.normal = a.normal
  metadata_eq : a.inMetadata = false → ¬ crosses → a'.metadata = a.metadata

variable {a a' a'' : Allocator} {crosses crosses' : Prop}

namespace Contained

theorem refl (a : Allocator) : Contained crosses a a :=
  ⟨rfl, rfl, rfl, fun _ => .refl _, fun _ => rfl, fun _ _ => rfl⟩

theorem inMetadata_eq (h : Contained crosses a a') : a'.inMetadata = a.inMetadata := by
  rw [inMetadata, h.regions_eq]
  rfl

theorem trans (h : Contained crosses a a') (h' : Contained crosses' a' a'') :
    Contained (crosses ∨ crosses') a a'' where
  level_eq := h'.level_eq.trans h.level_eq
  regions_eq := h'.regions_eq.trans h.regions_eq
  journal_eq := h'.journal_eq.trans h.journal_eq
  counted inside := (h.counted inside).trans (h'.counted inside)
  normal_eq hregion := (h'.normal_eq (h.inMetadata_eq ▸ hregion)).trans (h.normal_eq hregion)
  metadata_eq hregion hcrosses :=
    (h'.metadata_eq (h.inMetadata_eq ▸ hregion) fun hc => hcrosses (.inr hc)).trans
      (h.metadata_eq hregion fun hc => hcrosses (.inl hc))

theorem mono (h : Contained crosses a a') (himp : crosses → crosses') :
    Contained crosses' a a' :=
  { h with
    metadata_eq := fun hregion hcrosses => h.metadata_eq hregion fun hc => hcrosses (himp hc) }

end Contained

theorem normal_setActive (h : a.inMetadata) (c : Counters) : (a.setActive c).normal = a.normal := by
  rw [setActive, if_pos h]

theorem metadata_setActive (h : a.inMetadata = false) (c : Counters) :
    (a.setActive c).metadata = a.metadata := by
  rw [setActive, h]
  rfl

theorem journal_setActive (a : Allocator) (c : Counters) : (a.setActive c).journal = a.journal := by
  unfold setActive
  split <;> rfl

theorem contained_setActive {c : Counters} (h : a.active.Counted c) :
    Contained crosses a (a.setActive c) where
  level_eq := level_setActive a c
  regions_eq := regions_setActive a c
  journal_eq := journal_setActive a c
  counted inside := by
    rw [counters_setActive]
    split
    · next hinside => rwa [hinside, ← active_eq]
    · exact .refl _
  normal_eq hregion := normal_setActive hregion c
  metadata_eq hregion _ := metadata_setActive hregion c

/-- Inside of a section the journal has no part in what is counted. -/
theorem contained_next (hlevel : 0 < a.level) : Contained crosses a a.next.2 := by
  have hscope : a.atJournalScope = false := by
    simp [atJournalScope]
    omega
  rw [next_of_not_scope hscope]
  exact contained_setActive ⟨.skip (.refl _), .refl _⟩

theorem contained_nextComponent (a : Allocator) : Contained crosses a a.nextComponent.2 :=
  contained_setActive ⟨.refl _, .skip (.refl _)⟩

theorem counters_openSection (a : Allocator) (inside : Bool) :
    a.openSection.2.counters inside =
      if inside = a.inMetadata then a.active.openSection.2 else a.counters inside :=
  counters_setActive a _ inside

section Section

variable (h : Contained crosses a.openSection.2 a')
include h

theorem Contained.inMetadata_opened : a'.inMetadata = a.inMetadata :=
  h.inMetadata_eq.trans (inMetadata_setActive a _)

/-- A section that holds a body can be closed, and its boundary is all that was counted. -/
theorem Contained.closeSection_eq :
    a'.closeSection = (.ok (), { a'.setActive a.active.skip with level := a.level }) := by
  have hlevel : a'.level = a.level + 1 := h.level_eq
  have hactive : a.active.openSection.2.Counted a'.active := by
    have hcounted := h.counted a'.inMetadata
    rwa [counters_openSection, if_pos h.inMetadata_opened, ← active_eq] at hcounted
  unfold closeSection
  rw [if_neg (by omega), hactive.close?, hlevel]
  rfl

theorem Contained.closed :
    Contained crosses a { a'.setActive a.active.skip with level := a.level } where
  level_eq := rfl
  regions_eq := (regions_setActive a' _).trans (h.regions_eq.trans (regions_setActive a _))
  journal_eq := (journal_setActive a' _).trans (h.journal_eq.trans (journal_setActive a _))
  counted inside := by
    show (a.counters inside).Counted ((a'.setActive a.active.skip).counters inside)
    have hcounted := h.counted inside
    rw [counters_openSection] at hcounted
    rw [counters_setActive, h.inMetadata_opened]
    by_cases hinside : inside = a.inMetadata
    · rw [if_pos hinside, hinside, ← active_eq]
      exact .skip _
    · rwa [if_neg hinside] at hcounted ⊢
  normal_eq hregion := by
    have hopened : a.openSection.2.inMetadata := (inMetadata_setActive a _).trans hregion
    calc (a'.setActive a.active.skip).normal = a'.normal :=
          normal_setActive (h.inMetadata_opened.trans hregion) _
      _ = a.openSection.2.normal := h.normal_eq hopened
      _ = a.normal := normal_setActive hregion _
  metadata_eq hregion hcrosses := by
    have hopened : a.openSection.2.inMetadata = false := (inMetadata_setActive a _).trans hregion
    calc (a'.setActive a.active.skip).metadata = a'.metadata :=
          metadata_setActive (h.inMetadata_opened.trans hregion) _
      _ = a.openSection.2.metadata := h.metadata_eq hopened hcrosses
      _ = a.metadata := metadata_setActive hregion _

end Section

section Region

variable (h : Contained crosses a.enterMetadata a')
include h

theorem Contained.leaveMetadata_eq :
    a'.leaveMetadata = (.ok (), { a' with regions := a.regions }) := by
  have hregions : a'.regions = a.regions + 1 := h.regions_eq
  rw [leaveMetadata, if_neg (by omega), hregions]
  rfl

theorem Contained.left : Contained True a { a' with regions := a.regions } where
  level_eq := h.level_eq
  regions_eq := rfl
  journal_eq := h.journal_eq
  counted inside := by
    have hcounted := h.counted inside
    cases inside <;> exact hcounted
  normal_eq _ := h.normal_eq (by simp [enterMetadata, inMetadata])
  metadata_eq _ hcrosses := absurd trivial hcrosses

end Region

def Succeeds (a : Allocator) (calls : List Call) : Prop :=
  ∀ e ∈ a.events calls, ∃ id, e.answer = .ok id

theorem succeeds_cons {c : Call} {calls : List Call} :
    a.Succeeds (c :: calls) ↔
      (∃ id, (a.perform c).1 = .ok id) ∧ (a.perform c).2.Succeeds calls :=
  List.forall_mem_cons

theorem succeeds_append {calls later : List Call} :
    a.Succeeds (calls ++ later) ↔ a.Succeeds calls ∧ (a.after calls).Succeeds later := by
  unfold Succeeds
  rw [events_append]
  exact List.forall_mem_append

section Enclosed

variable {opening closing : Call} {inner rest : List Call} {closed : Allocator}
  (hclose : ((a.perform opening).2.after inner).perform closing = (.ok none, closed))
include hclose

theorem after_enclosed :
    a.after (opening :: (inner ++ closing :: rest)) = closed.after rest := by
  rw [after, after_append, after, hclose]

theorem succeeds_enclosed (hopen : ∃ id, (a.perform opening).1 = .ok id)
    (hinner : (a.perform opening).2.Succeeds inner) (hrest : closed.Succeeds rest) :
    a.Succeeds (opening :: (inner ++ closing :: rest)) := by
  refine succeeds_cons.2 ⟨hopen, succeeds_append.2 ⟨hinner, succeeds_cons.2 ?_⟩⟩
  rw [hclose]
  exact ⟨⟨none, rfl⟩, hrest⟩

end Enclosed

theorem Contained.perform_closeSection (h : Contained crosses a.openSection.2 a') :
    a'.perform .closeSection =
      (.ok none, { a'.setActive a.active.skip with level := a.level }) := by
  rw [perform, h.closeSection_eq]
  rfl

theorem Contained.perform_leaveMetadata (h : Contained crosses a.enterMetadata a') :
    a'.perform .leaveMetadata = (.ok none, { a' with regions := a.regions }) := by
  rw [perform, h.leaveMetadata_eq]
  rfl

/-- Inside of a section a body is contained, and all its calls succeed. -/
theorem Body.contained (body : Body) (hlevel : 0 < a.level) :
    Contained (.enterMetadata ∈ body.calls) a (a.after body.calls) ∧ a.Succeeds body.calls := by
  induction body generalizing a with
  | done => exact ⟨.refl a, fun _ he => by cases he⟩
  | next rest ih =>
    have hnext : Contained False a a.next.2 := contained_next hlevel
    obtain ⟨hrest, hsucceeds⟩ := ih (hnext.level_eq.symm ▸ hlevel)
    refine ⟨(hnext.trans hrest).mono ?_, succeeds_cons.2 ⟨⟨_, rfl⟩, hsucceeds⟩⟩
    simp [Body.calls]
  | nextComponent rest ih =>
    have hnext : Contained False a a.nextComponent.2 := contained_nextComponent a
    obtain ⟨hrest, hsucceeds⟩ := ih (hnext.level_eq.symm ▸ hlevel)
    refine ⟨(hnext.trans hrest).mono ?_, succeeds_cons.2 ⟨⟨_, rfl⟩, hsucceeds⟩⟩
    simp [Body.calls]
  | inSection inner rest ihinner ihrest =>
    obtain ⟨hinner, hsucceeds⟩ := ihinner (a := a.openSection.2) (Nat.succ_pos _)
    have hclose : ((a.perform .openSection).2.after inner.calls).perform .closeSection = _ :=
      hinner.perform_closeSection
    obtain ⟨hrest, hsucceeds'⟩ := ihrest (a := { (a.openSection.2.after inner.calls).setActive
      a.active.skip with level := a.level }) hlevel
    rw [Body.calls, after_enclosed hclose]
    refine ⟨(hinner.closed.trans hrest).mono ?_,
      succeeds_enclosed hclose ⟨_, rfl⟩ hsucceeds hsucceeds'⟩
    simp
  | inRegion inner rest ihinner ihrest =>
    obtain ⟨hinner, hsucceeds⟩ := ihinner (a := a.enterMetadata) hlevel
    have hleave : ((a.perform .enterMetadata).2.after inner.calls).perform .leaveMetadata = _ :=
      hinner.perform_leaveMetadata
    have hleft := hinner.left
    obtain ⟨hrest, hsucceeds'⟩ := ihrest (hleft.level_eq.symm ▸ hlevel)
    rw [Body.calls, after_enclosed hleave]
    refine ⟨(hleft.trans hrest).mono ?_,
      succeeds_enclosed hleave ⟨_, rfl⟩ hsucceeds hsucceeds'⟩
    simp

/-- When the counters in use are replaced, no more is left of a body than the metadata counters, and
these only if it crosses the border of metadata regions. -/
theorem Contained.setActive_eq (h : Contained crosses a a') (c : Counters) :
    a'.setActive c = { a.setActive c with metadata := (a'.setActive c).metadata } ∧
      (a.inMetadata ∨ ¬ crosses → a'.setActive c = a.setActive c) := by
  have hregion' := h.inMetadata_eq
  have hlevel := h.level_eq
  have hregions := h.regions_eq
  have hjournal := h.journal_eq
  cases hregion : a.inMetadata with
  | true =>
    have hnormal := h.normal_eq hregion
    have hsame : a'.setActive c = a.setActive c := by
      simp [setActive, hregion', hregion, hnormal, hlevel, hregions, hjournal]
    exact ⟨by rw [hsame], fun _ => hsame⟩
  | false =>
    have hmetadata := h.metadata_eq hregion
    refine ⟨?_, fun hcrosses => ?_⟩
    · simp [setActive, hregion', hregion, hlevel, hregions, hjournal]
    · have hsame := hmetadata (hcrosses.resolve_left Bool.false_ne_true)
      simp [setActive, hregion', hregion, hsame, hlevel, hregions, hjournal]

theorem Contained.counted_setActive (h : Contained crosses a a') (c : Counters) (inside : Bool) :
    ((a.setActive c).counters inside).Counted ((a'.setActive c).counters inside) := by
  rw [counters_setActive, counters_setActive, h.inMetadata_eq]
  split
  · exact .refl c
  · exact h.counted inside

/-- Whatever is done in a section is gone when the section is closed, be it recorded, replayed or
neither: the allocator is then as if nothing had been done there. Only if metadata regions are
entered from outside of any do their counters go on, in their innermost sections. No call fails, and
the section has the same boundary. -/
theorem section_contained (a : Allocator) (body : Body) :
    let calls := .openSection :: (body.calls ++ [.closeSection])
    let plain := a.after [.openSection, .closeSection]
    let filled := a.after calls
    filled = { plain with metadata := filled.metadata } ∧
      (a.inMetadata ∨ .enterMetadata ∉ body.calls → filled = plain) ∧
      (plain.counters true).Counted (filled.counters true) ∧
      a.Succeeds calls ∧
      (a.answers calls).head? = (a.answers [.openSection, .closeSection]).head? := by
  intro calls plain filled
  obtain ⟨hbody, hsucceeds⟩ := body.contained (a := a.openSection.2) (Nat.succ_pos _)
  have hclose : ((a.perform .openSection).2.after body.calls).perform .closeSection = _ :=
    hbody.perform_closeSection
  have hnothing : Contained False a.openSection.2 a.openSection.2 := .refl _
  have hfilled : filled = { (a.openSection.2.after body.calls).setActive a.active.skip with
      level := a.level } := after_enclosed hclose
  have hplain : plain = { a.openSection.2.setActive a.active.skip with level := a.level } :=
    congrArg Prod.snd hnothing.perform_closeSection
  obtain ⟨hframe, hsame⟩ := hbody.setActive_eq a.active.skip
  rw [hfilled, hplain]
  refine ⟨?_, ?_, ?_, ?_, rfl⟩
  · exact congrArg (fun b : Allocator => { b with level := a.level }) hframe
  · intro hcrosses
    have hopened := hcrosses.imp_left (inMetadata_setActive a a.active.openSection.2).trans
    exact congrArg (fun b : Allocator => { b with level := a.level }) (hsame hopened)
  · exact hbody.counted_setActive a.active.skip true
  · exact succeeds_enclosed hclose ⟨_, rfl⟩ hsucceeds fun _ he => by cases he

/-- A metadata region inside of the section uses up an identifier of the metadata counters. -/
example :
    let body : Body := .inRegion (.next .done) .done
    ((new none).after (.openSection :: (body.calls ++ [.closeSection, .enterMetadata]))).next.1 =
        "__md_2" ∧
      ((new none).after [.openSection, .closeSection, .enterMetadata]).next.1 = "__md_1" := by
  decide +kernel

end Allocator

end ViewState.Identifier
