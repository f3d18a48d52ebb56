import ViewState.Proofs.SortedMap
import ViewState.Store.Memory

/-!
What each operation of the store in memory does to what the sessions hold. An operation on one
session leaves all others alone, and saving a view keeps the new entry and the newest of the old
ones.
-/
namespace ViewState

namespace MemoryStore

/-- No session is listed that holds nothing, and no entry has a number that was not given out. -/
structure Sound (m : MemoryStore) : Prop where
  listed : ∀ session, m.sessions.get? session ≠ some ∅
  counted : ∀ session n saved, (m.held session).get? n = some saved → n ≤ m.sequence

theorem sound_empty : empty.Sound := by
  constructor
  · intro session h
    cases h
  · intro session n saved h
    cases h

section Held

variable (m : MemoryStore) (session session' view : String) (saved : SavedView) (retain : Nat)

@[simp] theorem sequence_insert :
    (m.insert session saved retain).2.sequence = Word.next m.sequence := rfl

/-- The entries of a session after a view was saved in it: of the old ones and the new one the
newest, at least one of them. -/
def kept : SortedMap UInt64 SavedView :=
  let entries := (m.held session).insert (Word.next m.sequence) saved
  entries.drop (entries.size - max 1 retain)

theorem held_insert :
    (m.insert session saved retain).2.held session' =
      if session' = session then m.kept session saved retain else m.held session' := by
  rw [held, insert, SortedMap.get?_insert]
  split
  · rfl
  · rfl

theorem held_invalidateSession :
    (m.invalidateSession session).2.held session' =
      if session' = session then ∅ else m.held session' := by
  rw [held, invalidateSession, SortedMap.get?_erase]
  split
  · rfl
  · rfl

theorem held_invalidateView :
    (m.invalidateView session view).2.held session' =
      if session' = session then (m.held session).filter fun _ saved => saved.view ≠ view
      else m.held session' := by
  rw [held, invalidateView]
  dsimp only
  split
  · next hempty =>
    rw [SortedMap.get?_erase]
    split
    · exact (SortedMap.isEmpty_iff.1 hempty).symm
    · rfl
  · rw [SortedMap.get?_insert]
    split
    · rfl
    · rfl

end Held

theorem get_eq_some_iff {m : MemoryStore} {session : String} {t : Ticket}
    {bytes : List UInt8} :
    m.get session t = some bytes ↔ (m.held session).get? t.sequence = some ⟨t.view, bytes⟩ := by
  unfold get
  rw [Option.bind_eq_some_iff]
  constructor
  · rintro ⟨saved, hsaved, hstate⟩
    split at hstate
    · next hview =>
      cases hstate
      rw [hsaved, ← hview]
    · cases hstate
  · intro hheld
    exact ⟨_, hheld, if_pos rfl⟩

/-- How many entries of a session are newer than a sequence number. -/
def newer (m : MemoryStore) (session : String) (n : UInt64) : Nat :=
  ((m.tickets session).filter fun t => n < t.sequence).length

theorem newer_eq (m : MemoryStore) (session : String) (n : UInt64) :
    m.newer session n = ((m.held session).filter fun k _ => compare n k = .lt).size := by
  have hlt : ((fun t : Ticket => decide (n < t.sequence)) ∘
      fun e : UInt64 × SavedView => ⟨e.2.view, e.1⟩) = fun e => decide (compare n e.1 = .lt) := by
    funext e
    simp only [Function.comp_apply, Std.compare_eq_lt]
  rw [newer, tickets, List.filter_map, List.length_map, hlt]
  rfl

theorem newer_congr {m m' : MemoryStore} {session : String} (h : m'.held session = m.held session)
    (n : UInt64) : m'.newer session n = m.newer session n := by
  rw [newer_eq, newer_eq, h]

theorem newer_invalidateSession_le (m : MemoryStore) (session session' : String) (n : UInt64) :
    (m.invalidateSession session').2.newer session n ≤ m.newer session n := by
  rw [newer_eq, newer_eq, held_invalidateSession]
  split
  · exact Nat.zero_le _
  · exact Nat.le_refl _

theorem newer_invalidateView_le (m : MemoryStore) (session session' view : String) (n : UInt64) :
    (m.invalidateView session' view).2.newer session n ≤ m.newer session n := by
  rw [newer_eq, newer_eq, held_invalidateView]
  split
  · next hsession =>
    have hsub : ((m.held session').filter fun _ saved => saved.view ≠ view).entries.Sublist
        (m.held session).entries := hsession ▸ List.filter_sublist
    exact (hsub.filter _).length_le
  · exact Nat.le_refl _

section Kept

variable {m : MemoryStore} {session : String} {saved old : SavedView} {retain : Nat} {n : UInt64}

theorem get?_kept_next (h : m.Sound) (session : String) (saved : SavedView) (retain : Nat) :
    (m.kept session saved retain).get? (Word.next m.sequence) = some saved := by
  have hnew : ((m.held session).insert (Word.next m.sequence) saved).get?
      (Word.next m.sequence) = some saved := by
    rw [SortedMap.get?_insert, if_pos rfl]
  apply (SortedMap.get?_drop_eq_some_iff hnew _).2
  rw [SortedMap.filter_lt_eq_empty]
  · exact Nat.lt_of_lt_of_le Nat.zero_lt_one (Nat.le_max_left 1 retain)
  · intro k old hk
    rw [SortedMap.get?_drop] at hk
    split at hk
    · cases hk
    · rw [SortedMap.get?_insert] at hk
      rw [ne_eq, Std.compare_eq_lt, UInt64.not_lt]
      split at hk
      · next heq => exact heq ▸ UInt64.le_refl _
      · exact UInt64.le_trans (h.counted session k old hk) (Word.le_next _)

/-- The state of a view just saved is there, whatever the bound. -/
theorem get_insert (h : m.Sound) (session : String) (saved : SavedView) (retain : Nat) :
    (m.insert session saved retain).2.get session ⟨saved.view, Word.next m.sequence⟩ =
      some saved.state := by
  rw [get_eq_some_iff, held_insert, if_pos rfl, get?_kept_next h]

theorem get?_kept_eq_some_iff (hn : n ≠ Word.next m.sequence)
    (hold : (m.held session).get? n = some old) :
    (m.kept session saved retain).get? n = some old ↔
      (m.insert session saved retain).2.newer session n < max 1 retain := by
  have hentry : ((m.held session).insert (Word.next m.sequence) saved).get? n = some old := by
    rw [SortedMap.get?_insert, if_neg hn, hold]
  rw [newer_eq, held_insert, if_pos rfl]
  exact SortedMap.get?_drop_eq_some_iff hentry _

theorem get?_of_get?_kept (hn : n ≠ Word.next m.sequence)
    (h : (m.kept session saved retain).get? n = some old) : (m.held session).get? n = some old := by
  rw [kept, SortedMap.get?_drop] at h
  split at h
  · cases h
  · rwa [SortedMap.get?_insert, if_neg hn] at h

theorem held_or_new_of_insert (h : m.Sound) {session' : String}
    (hheld : ((m.insert session' saved retain).2.held session).get? n = some old) :
    (m.held session).get? n = some old ∨
      session = session' ∧ n = Word.next m.sequence ∧ old = saved := by
  rw [held_insert] at hheld
  split at hheld
  · next hsession =>
    subst hsession
    by_cases hn : n = Word.next m.sequence
    · rw [hn, get?_kept_next h] at hheld
      exact .inr ⟨rfl, hn, (Option.some.inj hheld).symm⟩
    · exact .inl (get?_of_get?_kept hn hheld)
  · exact .inl hheld

/-- An entry outlasts a save exactly if it is of another session, or fewer newer ones than the bound
are left with it. -/
theorem get?_held_insert (hn : n ≠ Word.next m.sequence) (session' : String) :
    ((m.insert session' saved retain).2.held session).get? n = some old ↔
      (m.held session).get? n = some old ∧ (session' = session →
        (m.insert session' saved retain).2.newer session n < max 1 retain) := by
  by_cases hsession : session = session'
  · subst hsession
    rw [held_insert, if_pos rfl]
    constructor
    · intro hkept
      have hold := get?_of_get?_kept hn hkept
      exact ⟨hold, fun _ => (get?_kept_eq_some_iff hn hold).1 hkept⟩
    · rintro ⟨hold, hnewer⟩
      exact (get?_kept_eq_some_iff hn hold).2 (hnewer rfl)
  · rw [held_insert, if_neg hsession]
    exact ⟨fun hold => ⟨hold, fun heq => absurd heq.symm hsession⟩, And.left⟩

end Kept

section Dropped

variable {m : MemoryStore} {session : String} {old : SavedView} {n : UInt64}

theorem get?_held_invalidateSession (session' : String) :
    ((m.invalidateSession session').2.held session).get? n = some old ↔
      (m.held session).get? n = some old ∧ session' ≠ session := by
  rw [held_invalidateSession]
  by_cases hsession : session = session'
  · rw [if_pos hsession, SortedMap.get?_empty]
    constructor
    · intro h
      cases h
    · rintro ⟨-, hne⟩
      exact absurd hsession.symm hne
  · rw [if_neg hsession]
    exact ⟨fun hold => ⟨hold, Ne.symm hsession⟩, And.left⟩

theorem get?_held_invalidateView (session' view : String) :
    ((m.invalidateView session' view).2.held session).get? n = some old ↔
      (m.held session).get? n = some old ∧ ¬ (session' = session ∧ view = old.view) := by
  rw [held_invalidateView]
  by_cases hsession : session = session'
  · subst hsession
    rw [if_pos rfl, SortedMap.get?_filter, Option.filter_eq_some_iff, decide_eq_true_eq]
    exact and_congr_right fun _ => ⟨fun hview h => hview h.2.symm, fun h heq => h ⟨rfl, heq.symm⟩⟩
  · rw [if_neg hsession]
    exact ⟨fun hold => ⟨hold, fun h => hsession h.1.symm⟩, And.left⟩

end Dropped

section Sound

variable {m : MemoryStore} (h : m.Sound)

include h

theorem Sound.insert (session : String) (saved : SavedView) (retain : Nat) :
    (m.insert session saved retain).2.Sound := by
  constructor
  · intro session' hempty
    have hget : (if session' = session then some (m.kept session saved retain)
        else m.sessions.get? session') = some ∅ := by
      rw [← hempty]
      exact (SortedMap.get?_insert _ _ _ _).symm
    split at hget
    · have hnext := get?_kept_next h session saved retain
      rw [Option.some.inj hget] at hnext
      cases hnext
    · exact h.listed session' hget
  · intro session' n old hn
    rw [sequence_insert]
    rcases held_or_new_of_insert h hn with hold | ⟨-, rfl, -⟩
    · exact UInt64.le_trans (h.counted _ _ _ hold) (Word.le_next _)
    · exact UInt64.le_refl _

theorem Sound.invalidateSession (session : String) : (m.invalidateSession session).2.Sound := by
  constructor
  · intro session' hempty
    rw [MemoryStore.invalidateSession, SortedMap.get?_erase] at hempty
    split at hempty
    · cases hempty
    · exact h.listed session' hempty
  · intro session' n saved hn
    exact h.counted _ _ _ ((get?_held_invalidateSession _).1 hn).1

theorem Sound.invalidateView (session view : String) : (m.invalidateView session view).2.Sound := by
  constructor
  · intro session' hempty
    simp only [MemoryStore.invalidateView] at hempty
    split at hempty
    · rw [SortedMap.get?_erase] at hempty
      split at hempty
      · cases hempty
      · exact h.listed session' hempty
    · next hkept =>
      rw [SortedMap.get?_insert] at hempty
      split at hempty
      · exact hkept (SortedMap.isEmpty_iff.2 (Option.some.inj hempty))
      · exact h.listed session' hempty
  · intro session' n saved hn
    exact h.counted _ _ _ ((get?_held_invalidateView _ _).1 hn).1

theorem Sound.newer_sequence (session : String) : m.newer session m.sequence = 0 := by
  rw [newer_eq, SortedMap.filter_lt_eq_empty]
  · rfl
  · intro k saved hk
    rw [ne_eq, Std.compare_eq_lt, UInt64.not_lt]
    exact h.counted session k saved hk

theorem Sound.mem_scopes (session : String) :
    session ∈ m.scopes ↔ ∃ n saved, (m.held session).get? n = some saved := by
  rw [scopes, SortedMap.mem_keys, held]
  constructor
  · rintro ⟨entries, hentries⟩
    have hne : entries ≠ ∅ := fun hempty => h.listed session (hempty ▸ hentries)
    rw [hentries, Option.getD_some]
    exact SortedMap.exists_get?_of_ne_empty hne
  · rintro ⟨n, saved, hn⟩
    cases hentries : m.sessions.get? session with
    | none =>
      rw [hentries] at hn
      cases hn
    | some entries => exact ⟨entries, rfl⟩

end Sound

end MemoryStore

end ViewState
