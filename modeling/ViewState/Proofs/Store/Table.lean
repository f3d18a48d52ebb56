import ViewState.Proofs.Store.Memory
import ViewState.Proofs.Ticket
import ViewState.Store.Table

/-!
The tables as another form of the store in memory. They hold the wire form of each saved view under
its session and number; the entries of one session stand together in the order of their numbers, so
scanning, eviction and removal do to them what the store in memory does to its maps.
-/
namespace ViewState

theorem mapM_eq_ok {ε α β : Type} {f : α → Except ε β} {g : α → β} {as : List α}
    (h : ∀ a ∈ as, f a = .ok (g a)) : as.mapM f = .ok (as.map g) := by
  induction as with
  | nil => rfl
  | cons a as ih =>
    rw [List.mapM_cons, h a List.mem_cons_self, ih fun b hb => h b (List.mem_cons_of_mem _ hb)]
    rfl

theorem mapM_eq_error {ε α β : Type} {f : α → Except ε β} {as : List α} {a : α} (ha : a ∈ as)
    {e : ε} (he : f a = .error e) : ∃ e', as.mapM f = .error e' := by
  induction as with
  | nil => cases ha
  | cons b as ih =>
    rw [List.mapM_cons]
    cases hb : f b with
    | error e' => exact ⟨e', rfl⟩
    | ok c =>
      rcases List.mem_cons.1 ha with rfl | ha
      · rw [he] at hb
        cases hb
      · obtain ⟨e', he'⟩ := ih ha
        exact ⟨e', by rw [he']; rfl⟩

namespace EntryKey

theorem compare_same (session : String) (m n : UInt64) :
    compare (⟨session, m⟩ : EntryKey) ⟨session, n⟩ = compare m n := by
  show (compare session session).then (compare m n) = compare m n
  rw [Std.ReflOrd.compare_self]
  rfl

end EntryKey

namespace TableStore

theorem decode_toWire (saved : SavedView) :
    decode saved.toWire =
      if saved.Addressable then .ok saved
      else .error (.malformed (.storedView .unendingVarint)) := by
  rw [decode, SavedView.first_toWire]
  split
  · rfl
  · rfl

theorem insert_eq (t : TableStore) (session : String) (saved : SavedView) (retain : Nat) :
    t.insert session saved retain =
      let sequence := Word.next (t.counter.getD 0)
      let written := ⟨t.views.insert ⟨session, sequence⟩ saved.toWire, some sequence⟩
      match tickets written session with
      | .error e => (.error e, t)
      | .ok held =>
        (.ok ⟨saved.view, sequence⟩,
          remove session (held.take (held.length - max 1 retain)) written) := by
  dsimp only
  rw [insert, commit]
  simp only [StateT.run_bind, StateT.run_get, StateT.run_modify, StateT.run_monadLift,
    monadLift_self, pure_bind, bind_pure_comp]
  cases tickets _ session with
  | error e => rfl
  | ok held => rfl

theorem invalidate_eq (t : TableStore) (session : String) (doomed : String → Bool) :
    t.invalidate session doomed =
      match t.tickets session with
      | .error e => (.error e, t)
      | .ok held =>
        let dropped := held.filter fun ticket => doomed ticket.view
        (.ok dropped.length, remove session dropped t) := by
  rw [invalidate, commit]
  simp only [StateT.run_bind, StateT.run_get, StateT.run_modify, StateT.run_monadLift,
    monadLift_self, StateT.run_pure, pure_bind]
  cases t.tickets session with
  | error e => rfl
  | ok held => rfl

theorem get?_remove (session : String) (tickets : List Ticket) (t : TableStore) (k : EntryKey) :
    (remove session tickets t).views.get? k =
      if k.session = session ∧ k.sequence ∈ tickets.map Ticket.sequence then none
      else t.views.get? k := by
  have hfold : ∀ views : SortedMap EntryKey (List UInt8),
      (tickets.foldl (fun views t => views.erase ⟨session, t.sequence⟩) views).get? k =
        if k.session = session ∧ k.sequence ∈ tickets.map Ticket.sequence then none
        else views.get? k := by
    induction tickets with
    | nil => simp
    | cons ticket tickets ih =>
      intro views
      rw [List.foldl_cons, ih, SortedMap.get?_erase]
      obtain ⟨session', n⟩ := k
      by_cases hs : session' = session <;> by_cases hn : n = ticket.sequence <;> simp [hs, hn]
  exact hfold t.views

/-- The tables hold these entries of a session. -/
def Holds (t : TableStore) (session : String) (entries : SortedMap UInt64 SavedView) : Prop :=
  ∀ n, t.views.get? ⟨session, n⟩ = (entries.get? n).map SavedView.toWire

section Holds

variable {t : TableStore} {session : String} {entries : SortedMap UInt64 SavedView}

theorem Holds.scan (h : t.Holds session entries) :
    (t.views.entries.filter fun e => e.1.session = session) =
      entries.entries.map fun e => (⟨session, e.1⟩, e.2.toWire) := by
  apply Assoc.Sorted.eq_of_mem_iff (t.views.sorted.filter _)
  · apply List.pairwise_map.2
    apply entries.sorted.imp
    intro e e' hlt
    rwa [EntryKey.compare_same]
  · rintro ⟨⟨session', n⟩, bytes⟩
    rw [List.mem_filter, SortedMap.mem_entries, List.mem_map]
    constructor
    · rintro ⟨hget, hsession⟩
      obtain rfl : session' = session := of_decide_eq_true hsession
      rw [h n, Option.map_eq_some_iff] at hget
      obtain ⟨saved, hsaved, rfl⟩ := hget
      exact ⟨(n, saved), SortedMap.mem_entries.2 hsaved, rfl⟩
    · rintro ⟨⟨m, saved⟩, hsaved, he⟩
      cases he
      exact ⟨by rw [h m, SortedMap.mem_entries.1 hsaved]; rfl, decide_eq_true rfl⟩

theorem Holds.insert (h : t.Holds session entries) (n : UInt64) (saved : SavedView)
    (counter : Option UInt64) :
    Holds ⟨t.views.insert ⟨session, n⟩ saved.toWire, counter⟩ session (entries.insert n saved) := by
  intro k
  rw [SortedMap.get?_insert, SortedMap.get?_insert, h k]
  by_cases hk : k = n
  · rw [if_pos hk, if_pos (congrArg (EntryKey.mk session) hk), Option.map_some]
  · rw [if_neg hk, if_neg fun heq => hk (congrArg EntryKey.sequence heq)]

theorem Holds.insert_other (h : t.Holds session entries) {session' : String}
    (hne : session ≠ session') (n : UInt64) (saved : SavedView) (counter : Option UInt64) :
    Holds ⟨t.views.insert ⟨session', n⟩ saved.toWire, counter⟩ session entries := by
  intro k
  rw [SortedMap.get?_insert, if_neg fun heq => hne (congrArg EntryKey.session heq), h k]

theorem Holds.remove (h : t.Holds session entries) {tickets : List Ticket}
    {left : SortedMap UInt64 SavedView}
    (hleft : ∀ n, left.get? n =
      if n ∈ tickets.map Ticket.sequence then none else entries.get? n) :
    (TableStore.remove session tickets t).Holds session left := by
  intro n
  rw [get?_remove, hleft n, h n]
  by_cases hn : n ∈ tickets.map Ticket.sequence
  · rw [if_pos hn, if_pos ⟨rfl, hn⟩, Option.map_none]
  · rw [if_neg hn, if_neg fun hboth => hn hboth.2]

theorem Holds.remove_other (h : t.Holds session entries) {session' : String}
    (hne : session ≠ session') (tickets : List Ticket) :
    (TableStore.remove session' tickets t).Holds session entries := by
  intro n
  rw [get?_remove, if_neg fun hboth => hne hboth.1, h n]

theorem Holds.tickets (h : t.Holds session entries)
    (haddressable : ∀ n saved, entries.get? n = some saved → saved.Addressable) :
    t.tickets session = .ok (entries.entries.map fun e => ⟨e.2.view, e.1⟩) := by
  rw [TableStore.tickets, h.scan, List.mapM_map]
  apply mapM_eq_ok
  intro e he
  rw [Function.comp_apply, decode_toWire,
    if_pos (haddressable e.1 e.2 (SortedMap.mem_entries.1 he))]
  rfl

theorem Holds.tickets_error (h : t.Holds session entries) {n : UInt64} {saved : SavedView}
    (hn : entries.get? n = some saved) (hlong : ¬ saved.Addressable) :
    ∃ e, t.tickets session = .error e := by
  rw [TableStore.tickets, h.scan, List.mapM_map]
  apply mapM_eq_error (e := .malformed (.storedView .unendingVarint))
    (SortedMap.mem_entries.2 hn)
  rw [Function.comp_apply, decode_toWire, if_neg hlong]
  rfl

end Holds

/-- The tables hold what a store in memory holds, and give out the same numbers. -/
structure Represents (t : TableStore) (m : MemoryStore) : Prop where
  sound : m.Sound
  counted : t.counter.getD 0 = m.sequence
  holds : ∀ session, t.Holds session (m.held session)
  addressable : ∀ session n saved, (m.held session).get? n = some saved → saved.Addressable

theorem represents_empty : empty.Represents MemoryStore.empty := by
  constructor
  · exact MemoryStore.sound_empty
  · rfl
  · intro session n
    rfl
  · intro session n saved h
    cases h

section Represents

variable {t : TableStore} {m : MemoryStore} (h : t.Represents m)

include h

theorem Represents.tickets (session : String) : t.tickets session = .ok (m.tickets session) :=
  (h.holds session).tickets (h.addressable session)

theorem Represents.get (session : String) (ticket : Ticket) :
    t.get session ticket = .ok (m.get session ticket) := by
  rw [TableStore.get, h.holds session ticket.sequence, MemoryStore.get]
  cases hsaved : (m.held session).get? ticket.sequence with
  | none => rfl
  | some saved =>
    simp only [Option.map_some, decode_toWire, if_pos (h.addressable _ _ _ hsaved)]
    rfl

theorem Represents.scopes : t.scopes = m.scopes := by
  apply Assoc.eq_of_ascending id
  · exact List.pairwise_map.2 (SortedMap.sorted _)
  · exact List.pairwise_map.2 m.sessions.sorted
  intro session
  rw [TableStore.scopes, SortedSet.mem_keys_ofList, h.sound.mem_scopes, List.mem_map]
  constructor
  · rintro ⟨⟨session, n⟩, hkey, rfl⟩
    obtain ⟨bytes, hbytes⟩ := SortedMap.mem_keys.1 hkey
    rw [h.holds session n, Option.map_eq_some_iff] at hbytes
    obtain ⟨saved, hsaved, -⟩ := hbytes
    exact ⟨n, saved, hsaved⟩
  · rintro ⟨n, saved, hsaved⟩
    refine ⟨⟨session, n⟩, SortedMap.mem_keys.2 ⟨saved.toWire, ?_⟩, rfl⟩
    rw [h.holds session n, hsaved]
    rfl

theorem Represents.insert {saved : SavedView} (hsaved : saved.Addressable) (session : String)
    (retain : Nat) :
    (t.insert session saved retain).1 = .ok (m.insert session saved retain).1 ∧
      (t.insert session saved retain).2.Represents (m.insert session saved retain).2 := by
  -- the tickets are read back after the new entry is written and before any is dropped
  have hwritten := (h.holds session).insert (Word.next m.sequence) saved
    (some (Word.next m.sequence))
  have hheld := hwritten.tickets fun n old hn => by
    rw [SortedMap.get?_insert] at hn
    split at hn
    · cases hn
      exact hsaved
    · exact h.addressable _ _ _ hn
  rw [insert_eq, h.counted]
  simp only [hheld]
  refine ⟨rfl, h.sound.insert session saved retain, rfl, fun session' => ?_, ?_⟩
  · rw [MemoryStore.held_insert]
    split
    · next hsession =>
      subst hsession
      apply hwritten.remove
      intro n
      rw [MemoryStore.kept, SortedMap.get?_drop, ← List.map_take, List.map_map, List.length_map]
      rfl
    · next hsession =>
      exact ((h.holds session').insert_other hsession _ _ _).remove_other hsession _
  · intro session' n old hn
    rcases MemoryStore.held_or_new_of_insert h.sound hn with hold | ⟨-, -, rfl⟩
    · exact h.addressable _ _ _ hold
    · exact hsaved

/-- A view whose lengths are no words of 64 bits is not saved. -/
theorem Represents.insert_error {saved : SavedView} (hsaved : ¬ saved.Addressable)
    (session : String) (retain : Nat) : ∃ e, t.insert session saved retain = (.error e, t) := by
  have hwritten := (h.holds session).insert (Word.next m.sequence) saved
    (some (Word.next m.sequence))
  obtain ⟨e, he⟩ := hwritten.tickets_error (n := Word.next m.sequence)
    (by rw [SortedMap.get?_insert, if_pos rfl]) hsaved
  refine ⟨e, ?_⟩
  rw [insert_eq, h.counted]
  simp only [he]

theorem Represents.holds_remove (session : String) (doomed : String → Bool) :
    (remove session ((m.tickets session).filter fun ticket => doomed ticket.view) t).Holds session
      ((m.held session).filter fun _ saved => !doomed saved.view) := by
  apply (h.holds session).remove
  intro n
  have hmem : n ∈ ((m.tickets session).filter fun ticket => doomed ticket.view).map
      Ticket.sequence ↔ ∃ saved, (m.held session).get? n = some saved ∧ doomed saved.view := by
    rw [MemoryStore.tickets, List.filter_map, List.map_map, List.mem_map]
    constructor
    · rintro ⟨⟨k, saved⟩, he, rfl⟩
      obtain ⟨he, hdoomed⟩ := List.mem_filter.1 he
      exact ⟨saved, SortedMap.mem_entries.1 he, hdoomed⟩
    · rintro ⟨saved, hsaved, hdoomed⟩
      exact ⟨(n, saved), List.mem_filter.2 ⟨SortedMap.mem_entries.2 hsaved, hdoomed⟩, rfl⟩
  rw [SortedMap.get?_filter]
  cases hsaved : (m.held session).get? n with
  | none => simp
  | some saved =>
    rw [hsaved] at hmem
    by_cases hdoomed : doomed saved.view <;> simp [hmem, hdoomed]

theorem Represents.invalidateSession (session : String) :
    (t.invalidateSession session).1 = .ok (m.invalidateSession session).1 ∧
      (t.invalidateSession session).2.Represents (m.invalidateSession session).2 := by
  have hheld := h.holds_remove session fun _ => true
  rw [TableStore.invalidateSession, invalidate_eq]
  simp only [h.tickets]
  refine ⟨?_, h.sound.invalidateSession session, h.counted, fun session' => ?_, ?_⟩
  · rw [List.filter_eq_self.2 fun _ _ => rfl, MemoryStore.tickets, List.length_map]
    rfl
  · rw [MemoryStore.held_invalidateSession]
    split
    · next hsession =>
      have hempty : (m.held session).filter (fun _ saved => !true) = ∅ :=
        SortedMap.ext_entries (List.filter_eq_nil_iff.2 fun _ _ => Bool.false_ne_true)
      rwa [hsession, ← hempty]
    · next hsession => exact (h.holds session').remove_other hsession _
  · intro session' n saved hn
    exact h.addressable _ _ _ ((MemoryStore.get?_held_invalidateSession _).1 hn).1

theorem Represents.invalidateView (session view : String) :
    (t.invalidateView session view).1 = .ok (m.invalidateView session view).1 ∧
      (t.invalidateView session view).2.Represents (m.invalidateView session view).2 := by
  have hheld := h.holds_remove session fun stored => stored = view
  have hcount := List.length_eq_countP_add_countP (l := (m.held session).entries)
    fun e => decide (e.2.view = view)
  rw [TableStore.invalidateView, invalidate_eq]
  simp only [h.tickets]
  simp only [← decide_not] at hheld
  simp only [List.countP_eq_length_filter, decide_eq_true_eq] at hcount
  refine ⟨?_, h.sound.invalidateView session view, h.counted, fun session' => ?_, ?_⟩
  · rw [MemoryStore.tickets, List.filter_map, List.length_map]
    exact congrArg Except.ok (Nat.eq_sub_of_add_eq hcount.symm)
  · rw [MemoryStore.held_invalidateView]
    split
    · next hsession => rwa [hsession]
    · next hsession => exact (h.holds session').remove_other hsession _
  · intro session' n saved hn
    exact h.addressable _ _ _ ((MemoryStore.get?_held_invalidateView _ _).1 hn).1

end Represents

end TableStore

end ViewState
