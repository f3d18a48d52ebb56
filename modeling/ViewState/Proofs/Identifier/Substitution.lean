import ViewState.Proofs.Identifier.Isolation

/-!
Passes that replay what another pass recorded. Replayed identifiers stand in the places of those
that the counters would give at the outermost level, and the counters go on as if nothing had been
replayed. So such a pass hands out no identifier twice exactly if no replayed identifier is one that
the counters give at some other place.
-/
namespace ViewState.Identifier

namespace Journal

/-- What is handed out for identifiers of the counters, each given with whether the journal has to
do with it. -/
def fill (j : Journal) : List (Bool × String) → List String
  | [] => []
  | (true, id) :: places => j.give id :: (j.advance id).fill places
  | (false, id) :: places => id :: j.fill places

theorem fill_off (places : List (Bool × String)) : off.fill places = places.map Prod.snd := by
  induction places with
  | nil => rfl
  | cons p places ih =>
    obtain ⟨_ | _, id⟩ := p
    · exact congrArg (id :: ·) ih
    · exact congrArg (id :: ·) ih

/-- The identifiers that a journal of any length stands in for. -/
def stood (places : List (Bool × String)) : List String := (places.filter Prod.fst).map Prod.snd

theorem fill_append_counted (j : Journal) (ids : List String) (places : List (Bool × String)) :
    j.fill (ids.map (false, ·) ++ places) = ids ++ j.fill places := by
  induction ids with
  | nil => rfl
  | cons id ids ih => exact congrArg (id :: ·) ih

theorem stood_append (places places' : List (Bool × String)) :
    stood (places ++ places') = stood places ++ stood places' := by
  simp [stood]

theorem stood_counted (ids : List String) : stood (ids.map (false, ·)) = [] := by
  simp [stood]

/-- The identifiers that are left to the counters by a journal with `n` identifiers. -/
def counted : Nat → List (Bool × String) → List String
  | _, [] => []
  | 0, (true, id) :: places => id :: counted 0 places
  | n + 1, (true, _) :: places => counted n places
  | n, (false, id) :: places => id :: counted n places

theorem perm_map_snd (n : Nat) (places : List (Bool × String)) :
    (places.map Prod.snd).Perm ((stood places).take n ++ counted n places) := by
  induction places generalizing n with
  | nil => simp [stood, counted]
  | cons p places ih =>
    obtain ⟨_ | _, id⟩ := p
    · exact ((ih n).cons id).trans List.perm_middle.symm
    · cases n with
      | zero => exact (ih 0).cons id
      | succ n => exact (ih n).cons id

theorem perm_fill (ids : List String) (places : List (Bool × String)) :
    ((replaying ids).fill places).Perm
      (ids.take (stood places).length ++ counted ids.length places) := by
  induction places generalizing ids with
  | nil => simp [fill, stood, counted]
  | cons p places ih =>
    obtain ⟨_ | _, id⟩ := p
    · exact ((ih ids).cons id).trans List.perm_middle.symm
    · cases ids with
      | nil =>
        have hrest := ih []
        rw [List.take_nil, List.nil_append] at hrest ⊢
        exact hrest.cons id
      | cons given ids => exact (ih ids).cons given

/-- Nothing is handed out twice exactly if the identifiers replayed differ, and those that the
counters give as well are among the ones that are stood in for. -/
theorem nodup_fill_iff (ids : List String) {places : List (Bool × String)}
    (hplaces : (places.map Prod.snd).Nodup) :
    ((replaying ids).fill places).Nodup ↔
      (ids.take (stood places).length).Nodup ∧
        ∀ id ∈ ids.take (stood places).length, id ∈ places.map Prod.snd →
          id ∈ (stood places).take ids.length := by
  have hperm := perm_map_snd ids.length places
  rw [hperm.nodup_iff, List.nodup_append] at hplaces
  obtain ⟨-, hcounted, hapart⟩ := hplaces
  rw [(perm_fill ids places).nodup_iff, List.nodup_append]
  constructor
  · rintro ⟨hids, -, hne⟩
    refine ⟨hids, fun id hid hmem => ?_⟩
    rcases List.mem_append.1 (hperm.mem_iff.1 hmem) with hstood | hmem
    · exact hstood
    · exact absurd rfl (hne id hid id hmem)
  · rintro ⟨hids, hin⟩
    refine ⟨hids, hcounted, ?_⟩
    rintro id hid _ hmem rfl
    have hstood := hin id hid (hperm.mem_iff.2 (List.mem_append_right _ hmem))
    exact hapart id hstood id hmem rfl

/-- Nothing is handed out twice if what is replayed is what it stands in for, as far as both go. -/
theorem nodup_fill {ids : List String} {places : List (Bool × String)}
    (hplaces : (places.map Prod.snd).Nodup)
    (hagree : ids <+: stood places ∨ stood places <+: ids) :
    ((replaying ids).fill places).Nodup := by
  have htake : ids.take (stood places).length = (stood places).take ids.length := by
    rcases hagree with hprefix | hprefix
    · rw [List.take_of_length_le hprefix.length_le, ← List.prefix_iff_eq_take.1 hprefix]
    · rw [List.take_of_length_le hprefix.length_le, ← List.prefix_iff_eq_take.1 hprefix]
  have hstood : (stood places).Nodup := hplaces.sublist (List.filter_sublist.map Prod.snd)
  rw [nodup_fill_iff ids hplaces, htake]
  exact ⟨hstood.sublist (List.take_sublist _ _), fun id hid _ => hid⟩

end Journal

namespace Allocator

def outside (a : Allocator) (calls : List Call) : List String :=
  ((a.events calls).filter fun e => !e.inside).filterMap Event.unique?

def given (a : Allocator) (c : Call) : List String :=
  if a.inMetadata then [] else (Event.unique? ⟨c, false, (a.perform c).1⟩).toList

/-- What is handed out outside of metadata regions, each identifier with whether a journal has to do
with it. -/
def places (a : Allocator) : List Call → List (Bool × String)
  | [] => []
  | c :: calls =>
    (if c = .next ∧ a.atJournalScope then [(true, a.next.1)] else (a.given c).map (false, ·)) ++
      (a.perform c).2.places calls

theorem outside_cons (a : Allocator) (c : Call) (calls : List Call) :
    a.outside (c :: calls) = a.given c ++ (a.perform c).2.outside calls := by
  unfold outside given
  rw [events]
  cases hregion : a.inMetadata with
  | true => rfl
  | false =>
    rw [List.filter_cons_of_pos (by rfl), List.filterMap_cons]
    cases Event.unique? ⟨c, false, (a.perform c).1⟩ <;> rfl

theorem given_next {a : Allocator} (h : a.atJournalScope = true) : a.given .next = [a.next.1] := by
  simp only [atJournalScope, decide_eq_true_eq] at h
  have hregion : a.inMetadata = false := by simp [inMetadata, h.2]
  rw [given, hregion]
  rfl

/-- A journal that is added hands out its own identifier at the outermost level, and the counters go
on alike. -/
theorem next_withJournal_of_off {a : Allocator} (ha : a.journal = .off) (j : Journal) :
    (a.withJournal j).next =
      if a.atJournalScope then (j.give a.next.1, a.next.2.withJournal (j.advance a.next.1))
      else (a.next.1, a.next.2.withJournal j) := by
  rw [next_eq, count_withJournal, next_of_off ha]
  rfl

theorem perform_withJournal_of_off {a : Allocator} (ha : a.journal = .off) (j : Journal)
    (c : Call) :
    (a.withJournal j).perform c =
      if c = .next ∧ a.atJournalScope then
        (.ok (some (j.give a.next.1)), (a.perform c).2.withJournal (j.advance a.next.1))
      else ((a.perform c).1, (a.perform c).2.withJournal j) := by
  by_cases hc : c = .next
  · subst hc
    have hnext := next_withJournal_of_off ha j
    by_cases hscope : a.atJournalScope = true
    · rw [if_pos hscope] at hnext
      rw [if_pos ⟨rfl, hscope⟩, perform, hnext]
      rfl
    · rw [if_neg hscope] at hnext
      rw [if_neg fun h => hscope h.2, perform, hnext]
      rfl
  · rw [perform_withJournal a j hc, if_neg fun h => hc h.1]

theorem given_withJournal {a : Allocator} (ha : a.journal = .off) (j : Journal) {c : Call}
    (hc : ¬ (c = .next ∧ a.atJournalScope)) : (a.withJournal j).given c = a.given c := by
  rw [given, perform_withJournal_of_off ha, if_neg hc]
  rfl

theorem outside_withJournal {a : Allocator} (ha : a.journal = .off) (j : Journal)
    (calls : List Call) : (a.withJournal j).outside calls = j.fill (a.places calls) := by
  induction calls generalizing a j with
  | nil => rfl
  | cons c calls ih =>
    have hoff := journal_perform_of_off ha c
    have hperform := perform_withJournal_of_off ha j c
    rw [outside_cons, places]
    by_cases hc : c = .next ∧ a.atJournalScope
    · rw [if_pos hc] at hperform ⊢
      obtain ⟨rfl, hscope⟩ := hc
      rw [given_next (a := a.withJournal j) hscope, next_withJournal_of_off ha, if_pos hscope,
        hperform, ih hoff]
      rfl
    · rw [if_neg hc] at hperform ⊢
      rw [given_withJournal ha j hc, hperform, ih hoff, Journal.fill_append_counted]

theorem stood_places (a : Allocator) (calls : List Call) :
    Journal.stood (a.places calls) = a.outermost calls := by
  induction calls generalizing a with
  | nil => rfl
  | cons c calls ih =>
    rw [outermost, ← ih, places, Journal.stood_append]
    by_cases hc : c = .next ∧ a.atJournalScope
    · rw [if_pos hc, if_pos hc]
      rfl
    · rw [if_neg hc, if_neg hc, Journal.stood_counted]

theorem map_places {a : Allocator} (ha : a.journal = .off) (calls : List Call) :
    (a.places calls).map Prod.snd = a.outside calls := by
  have hsame : a.withJournal .off = a := ha ▸ rfl
  rw [← Journal.fill_off, ← outside_withJournal ha, hsame]

/-- What is recorded is what a pass without a journal hands out at the outermost level. -/
theorem takeRecorded_startRecording (a : Allocator) (script : List Call) :
    (a.startRecording.after script).takeRecorded.1 =
      some ((a.withJournal .off).outermost script) := by
  have hrun := run_of_follows (a := a.withJournal .off) rfl
    (Journal.follows_recording [] ((a.withJournal .off).outermost script))
  have hstart : a.startRecording = (a.withJournal .off).withJournal (.recording []) := rfl
  rw [hstart, hrun.2, Journal.advance_recording]
  rfl

theorem Ready.nodup_outside {a : Allocator} {calls : List Call} (h : a.Ready calls.length) :
    (a.outside calls).Nodup :=
  List.pairwise_filterMap.2 ((h.pairwise .unique).filter _)

theorem Fresh.withJournal_off {a : Allocator} (h : a.Fresh) : (a.withJournal .off).Fresh := by
  obtain ⟨table, htable, ha⟩ := h
  refine ⟨table, htable, .inl ?_⟩
  rcases ha with rfl | rfl <;> rfl

/-- Whatever was recorded, a pass of a new allocator that replays it hands out no unique identifier
twice outside of metadata regions exactly if those that it takes from the journal differ, and each
of them that the counters give in this pass as well belongs to the outermost calls that the journal
stands in for. This is so if the pass would hand out at the outermost level what was recorded, as
far as both go. -/
theorem replay_distinct_iff (a : Allocator) (recorded : List Call) {b : Allocator} (hb : b.Fresh)
    {calls : List Call} (hcalls : calls.length < UInt64.size - 1) :
    ∃ ids, (a.startRecording.after recorded).takeRecorded.1 = some ids ∧
      let plain := b.withJournal .off
      let stood := plain.outermost calls
      (((b.replay ids).outside calls).Nodup ↔
        (ids.take stood.length).Nodup ∧
          ∀ id ∈ ids.take stood.length, id ∈ plain.outside calls → id ∈ stood.take ids.length) ∧
      (ids <+: stood ∨ stood <+: ids → ((b.replay ids).outside calls).Nodup) := by
  refine ⟨_, takeRecorded_startRecording a recorded, ?_⟩
  intro plain stood
  generalize (a.withJournal .off).outermost recorded = ids
  have hready : plain.Ready calls.length := hb.withJournal_off.ready (by omega)
  have hplaces : ((plain.places calls).map Prod.snd).Nodup := by
    rw [map_places rfl]
    exact hready.nodup_outside
  have hfill : (b.replay ids).outside calls = (Journal.replaying ids).fill (plain.places calls) :=
    outside_withJournal (a := plain) rfl (.replaying ids) calls
  have hstood : Journal.stood (plain.places calls) = stood := stood_places plain calls
  rw [hfill, ← hstood, ← map_places rfl]
  exact ⟨Journal.nodup_fill_iff ids hplaces, Journal.nodup_fill hplaces⟩

/-- A pass that opens a section in another place than the recorded one, and goes on for longer. -/
theorem replay_distinct_moved :
    let recorded : List Call := [.next, .next, .openSection, .next]
    let calls : List Call := [.next, .next, .next, .openSection, .next, .closeSection, .next]
    let b := new (some (.ofSize componentStem 2))
    b.Fresh ∧ calls.length < UInt64.size - 1 ∧
      (((new none).startRecording.after recorded).takeRecorded.1 = some ["j_id1", "j_id2"]) ∧
      ((b.replay ["j_id1", "j_id2"]).outside calls).Nodup := by
  intro recorded calls b
  have hfresh : b.Fresh := by
    refine ⟨some (.ofSize componentStem 2), ?_, .inl rfl⟩
    rintro t ht
    cases ht
    exact ⟨componentStem, 2, rfl⟩
  have hcalls : calls.length < UInt64.size - 1 := by decide
  obtain ⟨ids, hids, -, hagree⟩ := replay_distinct_iff (new none) recorded hfresh hcalls
  have hrecorded : ((new none).startRecording.after recorded).takeRecorded.1 =
      some ["j_id1", "j_id2"] := by decide +kernel
  obtain rfl : ["j_id1", "j_id2"] = ids := Option.some.inj (hrecorded.symm.trans hids)
  exact ⟨hfresh, hcalls, hrecorded, hagree (.inl (by decide +kernel))⟩

/-- What was recorded behind a section is handed out twice where no section goes before it: once
from the journal, and then as the second of the counters, or as the boundary of a section. -/
theorem replay_repeats :
    let recorded : List Call := [.openSection, .closeSection, .next]
    ((new none).startRecording.after recorded).takeRecorded.1 = some ["j_id2"] ∧
      ((new none).replay ["j_id2"]).outside [.next, .next] = ["j_id2", "j_id2"] ∧
      ((new none).replay ["j_id2"]).outside [.next, .openSection] = ["j_id2", "j_id2"] := by
  decide +kernel

end Allocator

end ViewState.Identifier
