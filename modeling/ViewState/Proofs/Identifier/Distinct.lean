import ViewState.Proofs.Identifier.Counter
import ViewState.Proofs.Identifier.Run

/-!
No identifier is handed out twice in a pass. Each call is a step of the four counters of an
allocator, and each of the counters has its own family of identifiers.
-/
namespace ViewState.Identifier

inductive Kind
  | unique
  | component
deriving DecidableEq

def Counters.counter (c : Counters) : Kind → Counter
  | .unique => c.unique
  | .component => c.component

theorem Counters.close?_counter {c c' : Counters} (h : c.close? = some c') (kind : Kind) :
    (c.counter kind).close? = some (c'.counter kind) := by
  unfold close? at h
  obtain ⟨unique, hunique, h⟩ := Option.bind_eq_some_iff.1 h
  obtain ⟨component, hcomponent, h⟩ := Option.bind_eq_some_iff.1 h
  cases h
  cases kind with
  | unique => exact hunique
  | component => exact hcomponent

def stemOf (inside : Bool) (kind : Kind) : String :=
  match inside, kind with
  | false, .unique => "j_id"
  | false, .component => componentStem
  | true, _ => "__md_"

theorem stem_stemOf (inside : Bool) (kind : Kind) : Stem (stemOf inside kind) := by
  cases inside with
  | true => exact stem_underscore "__md"
  | false =>
    cases kind with
    | unique => exact stem_of_getLast? (c := 'd') (by decide) (by decide)
    | component => exact stem_underscore ""

/-- An identifier tells its stem. -/
theorem stemOf_eq_of_spell {inside inside' : Bool} {kind kind' : Kind} {p q : List Nat}
    (hp : p ≠ []) (hq : q ≠ [])
    (h : spell (stemOf inside kind) p = spell (stemOf inside' kind') q) :
    stemOf inside kind = stemOf inside' kind' := by
  obtain ⟨m, outer, rfl⟩ := List.exists_cons_of_ne_nil hp
  obtain ⟨n, outer', rfl⟩ := List.exists_cons_of_ne_nil hq
  obtain ⟨c, cs, hc, hspell⟩ := exists_digit_of_spell (stemOf inside kind) m outer
  obtain ⟨c', cs', hc', hspell'⟩ := exists_digit_of_spell (stemOf inside' kind') n outer'
  have hlist := (hspell.symm.trans (congrArg String.toList h)).trans hspell'
  have hunderscore : ¬ Text.Decimal.IsDigit '_' := by decide
  cases inside <;> cases kind <;> cases inside' <;> cases kind' <;>
    simp_all [stemOf, componentStem]

namespace Allocator

def counters (a : Allocator) (inside : Bool) : Counters :=
  if inside then a.metadata.getD .metadata else a.normal

theorem active_eq (a : Allocator) : a.active = a.counters a.inMetadata := rfl

theorem counters_setActive (a : Allocator) (c : Counters) (inside : Bool) :
    (a.setActive c).counters inside = if inside = a.inMetadata then c else a.counters inside := by
  unfold setActive
  cases hregion : a.inMetadata <;> cases inside <;> rfl

/-- The journal does not replay. -/
def Counting (a : Allocator) : Prop := ∀ ids, a.journal ≠ .replaying ids

theorem next_of_counting {a : Allocator} (h : a.Counting) :
    ∃ j, (∀ ids, j ≠ .replaying ids) ∧ a.next = (a.count.1, a.count.2.withJournal j) := by
  have hsame : a.count = (a.count.1, a.count.2.withJournal a.journal) :=
    count_withJournal a a.journal
  unfold next
  split
  · cases hjournal : a.journal with
    | off => exact ⟨a.journal, h, hsame⟩
    | recording ids => exact ⟨.recording (ids ++ [a.count.1]), by simp, rfl⟩
    | replaying ids => exact absurd hjournal (h ids)
  · exact ⟨a.journal, h, hsame⟩

theorem Counting.perform {a : Allocator} (h : a.Counting) (c : Call) :
    (a.perform c).2.Counting := by
  by_cases hc : c = .next
  · subst hc
    obtain ⟨j, hj, hnext⟩ := next_of_counting h
    intro ids
    show a.next.2.journal ≠ _
    rw [hnext]
    exact hj ids
  · intro ids
    rw [journal_perform a hc]
    exact h ids

end Allocator

def Allocator.Event.given (e : Allocator.Event) : Kind → Option String
  | .unique => e.unique?
  | .component => e.component?

namespace Allocator

/-- The two counters in use make a step, in which they hand out `out`, and the others stay. -/
def Steps (a : Allocator) (out : Kind → Option String) (a' : Allocator) : Prop :=
  ∀ inside kind, Counter.Step ((a.counters inside).counter kind)
    (if inside = a.inMetadata then out kind else none) ((a'.counters inside).counter kind)

section Steps

variable {a a' : Allocator}

theorem steps_of_same (h : ∀ inside, a'.counters inside = a.counters inside) :
    a.Steps (fun _ => none) a' := by
  intro inside kind
  rw [h, ite_self]
  exact .idle _

theorem steps_of_setActive {moved : Counters} {out : Kind → Option String}
    (hstep : ∀ kind, Counter.Step (a.active.counter kind) (out kind) (moved.counter kind))
    (h : ∀ inside, a'.counters inside = (a.setActive moved).counters inside) :
    a.Steps out a' := by
  intro inside kind
  rw [h, counters_setActive]
  by_cases hinside : inside = a.inMetadata
  · rw [if_pos hinside, if_pos hinside, hinside, ← active_eq]
    exact hstep kind
  · rw [if_neg hinside, if_neg hinside]
    exact .idle _

theorem steps_count (a : Allocator) :
    a.Steps (fun | .unique => some a.count.1 | .component => none) a.count.2 := by
  refine steps_of_setActive ?_ fun _ => rfl
  rintro (_ | _)
  · exact .next _
  · exact .idle _

theorem steps_nextComponent (a : Allocator) :
    a.Steps (fun | .unique => none | .component => some a.nextComponent.1) a.nextComponent.2 := by
  refine steps_of_setActive ?_ fun _ => rfl
  rintro (_ | _)
  · exact .idle _
  · exact .next _

theorem steps_openSection (a : Allocator) :
    a.Steps (fun kind => some (a.active.counter kind).openSection.1) a.openSection.2 := by
  refine steps_of_setActive ?_ fun _ => rfl
  rintro (_ | _)
  · exact .opened _
  · exact .opened _

theorem steps_closeSection (a : Allocator) : a.Steps (fun _ => none) a.closeSection.2 := by
  unfold closeSection
  split
  · exact steps_of_same fun _ => rfl
  · split
    · exact steps_of_same fun _ => rfl
    · next moved hmoved =>
      exact steps_of_setActive (fun kind => .closed (Counters.close?_counter hmoved kind))
        fun _ => rfl

theorem counters_leaveMetadata (a : Allocator) (inside : Bool) :
    a.leaveMetadata.2.counters inside = a.counters inside := by
  unfold leaveMetadata
  split <;> rfl

end Steps

/-- A call is a step of the counters in use, and what it hands out of a kind comes from the counter
of that kind. -/
theorem steps_perform {a : Allocator} (h : a.Counting) (c : Call) :
    ∃ out, a.Steps out (a.perform c).2 ∧
      ∀ inside kind id, Event.given ⟨c, inside, (a.perform c).1⟩ kind = some id →
        out kind = some id := by
  cases c with
  | next =>
    obtain ⟨j, -, hnext⟩ := next_of_counting h
    have hid : a.next.1 = a.count.1 := by rw [hnext]
    have hcounters (inside : Bool) : a.next.2.counters inside = a.count.2.counters inside := by
      rw [hnext]
      rfl
    refine ⟨_, fun inside kind => hcounters inside ▸ a.steps_count inside kind, ?_⟩
    rintro inside (_ | _) id hgiven
    · rw [← hgiven]
      exact congrArg some hid.symm
    · cases hgiven
  | nextComponent =>
    refine ⟨_, a.steps_nextComponent, ?_⟩
    rintro inside (_ | _) id hgiven
    · cases hgiven
    · exact hgiven
  | openSection =>
    refine ⟨_, a.steps_openSection, ?_⟩
    rintro inside (_ | _) id hgiven
    · exact hgiven
    · cases hgiven
  | closeSection =>
    refine ⟨_, a.steps_closeSection, ?_⟩
    rintro inside (_ | _) id hgiven <;> cases hgiven
  | enterMetadata =>
    refine ⟨_, steps_of_same fun inside => ?_, ?_⟩
    · cases inside <;> rfl
    · rintro inside (_ | _) id hgiven <;> cases hgiven
  | leaveMetadata =>
    refine ⟨_, steps_of_same a.counters_leaveMetadata, ?_⟩
    rintro inside (_ | _) id hgiven <;> cases hgiven

def place (a : Allocator) (inside : Bool) (kind : Kind) : List Nat :=
  ((a.counters inside).counter kind).place

theorem place_ne_nil (a : Allocator) (inside : Bool) (kind : Kind) : a.place inside kind ≠ [] :=
  Counter.place_ne_nil _

/-- Identifiers are counted rather than replayed, and the numbers last for some more calls. -/
structure Ready (a : Allocator) (calls : Nat) : Prop where
  counting : a.Counting
  regular : ∀ inside kind, ((a.counters inside).counter kind).Regular (stemOf inside kind)
  room : ∀ inside kind, ∀ n ∈ a.place inside kind, n + calls < UInt64.size

section Ready

variable {a : Allocator} {k : Nat} {calls : List Call}

theorem Ready.step (h : a.Ready (k + 1)) (c : Call) (inside : Bool) (kind : Kind) :
    ((((a.perform c).2.counters inside).counter kind).Regular (stemOf inside kind)) ∧
      ∃ named, Advance (a.place inside kind) named ((a.perform c).2.place inside kind) ∧
        ∀ id, Event.given ⟨c, inside, (a.perform c).1⟩ kind = some id → inside = a.inMetadata →
          ∃ r, named = some r ∧ id = spell (stemOf inside kind) r := by
  obtain ⟨out, hsteps, hgiven⟩ := steps_perform h.counting c
  have hcounter := hsteps inside kind
  have hregular := h.regular inside kind
  have hroom : ∀ n ∈ a.place inside kind, n + 1 < UInt64.size := by
    intro n hn
    have := h.room inside kind n hn
    omega
  refine ⟨hcounter.regular hregular, ?_⟩
  obtain ⟨named, hadvance, hnamed⟩ := hcounter.advance hregular hroom
  refine ⟨named, hadvance, fun id hid hinside => ?_⟩
  rw [if_pos hinside, hgiven inside kind id hid] at hnamed
  obtain ⟨r, hr, hspell⟩ := Option.map_eq_some_iff.1 hnamed.symm
  exact ⟨r, hr, hspell.symm⟩

theorem Ready.perform (h : a.Ready (k + 1)) (c : Call) : (a.perform c).2.Ready k := by
  refine ⟨h.counting.perform c, fun inside kind => (h.step c inside kind).1, ?_⟩
  intro inside kind n hn
  obtain ⟨-, named, hadvance, -⟩ := h.step c inside kind
  obtain ⟨m, hm, hle⟩ := hadvance.exists_le (a.place_ne_nil inside kind) hn
  have := h.room inside kind m hm
  omega

theorem Ready.ahead (h : a.Ready calls.length) {e : Event} (he : e ∈ a.events calls) {kind : Kind}
    {id : String} (hid : e.given kind = some id) :
    ∃ r, r ≠ [] ∧ id = spell (stemOf e.inside kind) r ∧
      Ahead (successor (a.place e.inside kind)) r := by
  induction calls generalizing a with
  | nil => cases he
  | cons c calls ih =>
    rcases List.mem_cons.1 he with rfl | he
    · obtain ⟨-, named, hadvance, hnamed⟩ := h.step c a.inMetadata kind
      obtain ⟨r, hr, hspell⟩ := hnamed id hid rfl
      have hplace := a.place_ne_nil a.inMetadata kind
      obtain ⟨rfl, -⟩ := hadvance.named_eq hplace hr
      exact ⟨_, successor_ne_nil hplace, hspell, .inl rfl⟩
    · obtain ⟨r, hne, hspell, hahead⟩ := ih (h.perform c) he
      obtain ⟨-, named, hadvance, -⟩ := h.step c e.inside kind
      exact ⟨r, hne, hspell, (hadvance.ahead (a.place_ne_nil e.inside kind)).trans hahead⟩

/-- An identifier that is handed out twice belongs to one family. -/
theorem Ready.stemOf_eq (h : a.Ready calls.length) {e e' : Event} (he : e ∈ a.events calls)
    (he' : e' ∈ a.events calls) {kind kind' : Kind} {id : String} (hid : e.given kind = some id)
    (hid' : e'.given kind' = some id) : stemOf e.inside kind = stemOf e'.inside kind' := by
  obtain ⟨r, hne, hspell, -⟩ := h.ahead he hid
  obtain ⟨r', hne', hspell', -⟩ := h.ahead he' hid'
  exact stemOf_eq_of_spell hne hne' (hspell.symm.trans hspell')

theorem Ready.pairwise (h : a.Ready calls.length) (kind : Kind) :
    (a.events calls).Pairwise fun e e' =>
      ∀ id, e.given kind = some id → ∀ id', e'.given kind = some id' → id ≠ id' := by
  induction calls generalizing a with
  | nil => exact .nil
  | cons c calls ih =>
    refine List.pairwise_cons.2 ⟨?_, ih (h.perform c)⟩
    rintro e' he' id hid _ hid' rfl
    -- an equal identifier later on would have the same stem, and its place would lie ahead
    have hinside : a.inMetadata = e'.inside := by
      have hstem : stemOf a.inMetadata kind = stemOf e'.inside kind :=
        h.stemOf_eq List.mem_cons_self (List.mem_cons_of_mem _ he') hid hid'
      revert hstem
      cases a.inMetadata <;> cases e'.inside <;> cases kind <;> decide
    obtain ⟨-, named, hadvance, hnamed⟩ := h.step c a.inMetadata kind
    obtain ⟨r, hr, hspell⟩ := hnamed id hid rfl
    have hplace := a.place_ne_nil a.inMetadata kind
    obtain ⟨hnext, hpassed⟩ := hadvance.named_eq hplace hr
    have hne : r ≠ [] := hnext ▸ successor_ne_nil hplace
    obtain ⟨r', hne', hspell', hahead⟩ := (h.perform c).ahead he' hid'
    rw [← hinside] at hspell' hahead
    obtain rfl := spell_inj (stem_stemOf _ _) hne hne' (hspell.symm.trans hspell')
    exact Precedes.irrefl r (hpassed.trans_ahead hahead)

end Ready

/-- An allocator as it is made, with a table of any stem and size or without one, and set to record
or not. -/
def Fresh (a : Allocator) : Prop :=
  ∃ table, (∀ t ∈ table, ∃ stem size, t = Table.ofSize stem size) ∧
    (a = new table ∨ a = (new table).startRecording)

theorem Fresh.ready {a : Allocator} (h : a.Fresh) {calls : Nat} (hcalls : calls < UInt64.size) :
    a.Ready calls := by
  obtain ⟨table, htable, ha⟩ := h
  have hfaithful : ∀ t ∈ table, t.Faithful := by
    intro t ht
    obtain ⟨stem, size, rfl⟩ := htable t ht
    exact Table.faithful_ofSize stem size
  have hcounters (inside : Bool) :
      a.counters inside = if inside then .metadata else .normal table := by
    rcases ha with rfl | rfl <;> rfl
  have hnone : ∀ t ∈ (none : Option Table), t.Faithful := by simp
  constructor
  · rcases ha with rfl | rfl <;> intro ids <;> simp [new, startRecording]
  · intro inside kind
    rw [hcounters]
    cases inside <;> cases kind
    · exact Counter.regular_ofStem _ hnone
    · exact Counter.regular_ofStem _ hfaithful
    · exact Counter.regular_ofStem _ hnone
    · exact Counter.regular_ofStem _ hnone
  · intro inside kind n hn
    have hzero : a.place inside kind = [0] := by
      unfold place
      rw [hcounters]
      cases inside <;> cases kind <;> rfl
    rw [hzero, List.mem_singleton] at hn
    omega

/-- In a pass of a new allocator, whatever is opened, closed or entered in whatever order, no unique
identifier is handed out twice, no component identifier is handed out twice, and outside of metadata
regions no identifier is handed out as both. -/
theorem ids_distinct {a : Allocator} (ha : a.Fresh) {calls : List Call}
    (hcalls : calls.length < UInt64.size - 1) :
    ((a.events calls).filterMap Event.unique?).Nodup ∧
      ((a.events calls).filterMap Event.component?).Nodup ∧
      ∀ e ∈ a.events calls, ∀ e' ∈ a.events calls, ¬ (e.inside ∧ e'.inside) →
        ∀ id, e.component? = some id → e'.unique? ≠ some id := by
  have hready : a.Ready calls.length := ha.ready (by omega)
  refine ⟨List.pairwise_filterMap.2 (hready.pairwise .unique),
    List.pairwise_filterMap.2 (hready.pairwise .component), ?_⟩
  intro e he e' he' houtside id hid hid'
  have hstem : stemOf e.inside .component = stemOf e'.inside .unique :=
    hready.stemOf_eq he he' hid hid'
  revert hstem houtside
  cases e.inside <;> cases e'.inside <;> decide

/-- Sections and a metadata region that are closed in crossed order, or not at all. -/
theorem ids_distinct_crossed :
    let a := (new (some (.ofSize componentStem 1))).startRecording
    let calls : List Call := [.nextComponent, .enterMetadata, .openSection, .leaveMetadata,
      .closeSection, .next, .openSection, .nextComponent, .enterMetadata, .next, .closeSection,
      .closeSection, .nextComponent, .leaveMetadata, .closeSection, .nextComponent, .next]
    a.Fresh ∧ calls.length < UInt64.size - 1 ∧
      ((a.events calls).filterMap Event.unique?).Nodup ∧
      ((a.events calls).filterMap Event.component?).Nodup ∧
      ∀ e ∈ a.events calls, ∀ e' ∈ a.events calls, ¬ (e.inside ∧ e'.inside) →
        ∀ id, e.component? = some id → e'.unique? ≠ some id := by
  intro a calls
  have hfresh : a.Fresh := by
    refine ⟨some (.ofSize componentStem 1), ?_, .inr rfl⟩
    rintro t ht
    cases ht
    exact ⟨componentStem, 1, rfl⟩
  have hcalls : calls.length < UInt64.size - 1 := by decide
  exact ⟨hfresh, hcalls, ids_distinct hfresh hcalls⟩

end Allocator

end ViewState.Identifier
