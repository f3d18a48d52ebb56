import Mathlib.Data.List.DropRight
import ViewState.Proofs.Store.Basic

/-!
The store in memory as a bounded queue for each session. A view that is saved goes to the end of the
queue of its session and pushes out the oldest entries beyond the bound of that call; entries leave
from elsewhere only when their view or session is dropped. The numbers of the entries ascend, since
one count serves all sessions and no run reaches the greatest word.
-/
namespace ViewState

open Store (Operation Answer)

namespace Store

def Operation.session? : Operation → Option String
  | insert session _ _ => some session
  | get session _ => some session
  | invalidateSession session => some session
  | invalidateView session _ => some session
  | tickets session => some session
  | scopes => none

def Answer.number? : Answer → Option UInt64
  | inserted (.ok ticket) => some ticket.sequence
  | _ => none

def saves (ops : List Operation) : Nat := ops.countP fun op => op matches .insert ..

end Store

namespace MemoryStore

def after (m : MemoryStore) : Operation → MemoryStore
  | .insert session saved retain => (m.insert session saved retain).2
  | .invalidateSession session => (m.invalidateSession session).2
  | .invalidateView session view => (m.invalidateView session view).2
  | .get .. | .tickets _ | .scopes => m

theorem perform_memory (m : MemoryStore) (op : Operation) :
    ((Store.memory m).perform op).2 = .memory (m.after op) := by
  cases op <;> rfl

def issued (m : MemoryStore) (ops : List Operation) : List UInt64 :=
  ((Store.memory m).answers ops).filterMap Answer.number?

/-- The greatest of some numbers, or zero. -/
def greatest (ns : List UInt64) : Nat := ns.foldr (fun n bound => max n.toNat bound) 0

/-- What a session holds, the oldest first. -/
def queue (m : MemoryStore) (session : String) : List (UInt64 × SavedView) :=
  (m.held session).entries

variable {m : MemoryStore}

theorem issued_cons (m : MemoryStore) (op : Operation) (ops : List Operation) :
    m.issued (op :: ops) =
      ((Store.memory m).perform op).1.number?.toList ++ (m.after op).issued ops := by
  rw [issued, Store.answers, perform_memory, List.filterMap_cons, issued]
  cases ((Store.memory m).perform op).1.number? <;> rfl

theorem sequence_after (m : MemoryStore) (op : Operation) :
    (m.after op).sequence.toNat =
        max m.sequence.toNat (greatest ((Store.memory m).perform op).1.number?.toList) ∧
      (m.after op).sequence.toNat ≤ m.sequence.toNat + Store.saves [op] := by
  have hzero (n : Nat) : n = max n (greatest []) ∧ n ≤ n + 0 := by simp [greatest]
  cases op with
  | insert session saved retain =>
    have hle := UInt64.le_iff_toNat_le.1 (Word.le_next m.sequence)
    have hnext : (Word.next m.sequence).toNat ≤ m.sequence.toNat + 1 := by
      rw [Word.toNat_next]
      exact Nat.min_le_left _ _
    have hgreatest : greatest [Word.next m.sequence] = (Word.next m.sequence).toNat :=
      Nat.max_zero _
    refine ⟨?_, hnext⟩
    show (Word.next m.sequence).toNat = max _ (greatest [Word.next m.sequence])
    rw [hgreatest, Nat.max_eq_right hle]
  | invalidateSession session => exact hzero _
  | invalidateView session view => exact hzero _
  | get session ticket => exact hzero _
  | tickets session => exact hzero _
  | scopes => exact hzero _

theorem greatest_append (ns ns' : List UInt64) :
    greatest (ns ++ ns') = max (greatest ns) (greatest ns') := by
  induction ns with
  | nil => exact (Nat.zero_max _).symm
  | cons n ns ih => simp only [greatest, List.cons_append, List.foldr_cons] at ih ⊢; omega

/-- The count stands at the greatest number given out, and at most at the number of saves. -/
theorem sequence_run (m : MemoryStore) (ops : List Operation) :
    (ops.foldl after m).sequence.toNat = max m.sequence.toNat (greatest (m.issued ops)) ∧
      (ops.foldl after m).sequence.toNat ≤ m.sequence.toNat + Store.saves ops := by
  induction ops generalizing m with
  | nil => exact ⟨(Nat.max_zero _).symm, Nat.le_refl _⟩
  | cons op ops ih =>
    obtain ⟨hstep, hstep'⟩ := m.sequence_after op
    obtain ⟨hrest, hrest'⟩ := ih (m.after op)
    have hsaves : Store.saves (op :: ops) = Store.saves [op] + Store.saves ops := by
      rw [← List.singleton_append, Store.saves, List.countP_append]
      rfl
    rw [List.foldl_cons, issued_cons, greatest_append, hsaves]
    omega

theorem Sound.after (h : m.Sound) (op : Operation) : (m.after op).Sound := by
  cases op with
  | insert session saved retain => exact h.insert session saved retain
  | invalidateSession session => exact h.invalidateSession session
  | invalidateView session view => exact h.invalidateView session view
  | get session ticket => exact h
  | tickets session => exact h
  | scopes => exact h

theorem Sound.run (h : m.Sound) (ops : List Operation) : (ops.foldl MemoryStore.after m).Sound := by
  induction ops generalizing m with
  | nil => exact h
  | cons op ops ih => exact ih (h.after op)

theorem queue_after_of_ne {op : Operation} {session : String} (h : op.session? ≠ some session) :
    (m.after op).queue session = m.queue session := by
  have hne {session' : String} (hop : some session' ≠ some session) : session ≠ session' :=
    fun heq => hop (congrArg some heq.symm)
  cases op with
  | insert session' saved retain => rw [after, queue, held_insert, if_neg (hne h)]; rfl
  | invalidateSession session' =>
    rw [after, queue, held_invalidateSession, if_neg (hne h)]
    rfl
  | invalidateView session' view =>
    rw [after, queue, held_invalidateView, if_neg (hne h)]
    rfl
  | get session' ticket => rfl
  | tickets session' => rfl
  | scopes => rfl

/-- The new entry is the last one, since its number is above all others. -/
theorem Sound.queue_insert (h : m.Sound) (hroom : m.sequence.toNat + 1 < UInt64.size)
    (session : String) (saved : SavedView) (retain : Nat) :
    (m.insert session saved retain).2.queue session =
      (m.queue session ++ [(Word.next m.sequence, saved)]).rtake (max 1 retain) := by
  have hlast : ((m.held session).insert (Word.next m.sequence) saved).entries =
      m.queue session ++ [(Word.next m.sequence, saved)] := by
    apply Assoc.insert_of_lt
    intro e he
    have hcounted := h.counted session e.1 e.2 (SortedMap.mem_entries.1 he)
    exact Std.compare_eq_lt.2 (UInt64.lt_of_le_of_lt hcounted (Word.lt_next hroom))
  rw [queue, held_insert, if_pos rfl, kept]
  simp only [SortedMap.drop, SortedMap.size, hlast]
  rfl

theorem queue_invalidateView (m : MemoryStore) (session view : String) :
    (m.invalidateView session view).2.queue session =
        (m.queue session).filter (·.2.view ≠ view) ∧
      (m.invalidateView session view).1 = ((m.queue session).filter (·.2.view = view)).length := by
  constructor
  · rw [queue, held_invalidateView, if_pos rfl]
    rfl
  · have hsplit := List.length_eq_length_filter_add (l := m.queue session) (·.2.view = view)
    have hcount : (m.invalidateView session view).1 =
        (m.queue session).length - ((m.queue session).filter (·.2.view ≠ view)).length := rfl
    simp only [← decide_not] at hsplit
    rw [hcount]
    simp only [ne_eq]
    omega

theorem queue_invalidateSession (m : MemoryStore) (session : String) :
    (m.invalidateSession session).2.queue session = [] ∧
      (m.invalidateSession session).1 = (m.queue session).length := by
  constructor
  · rw [queue, held_invalidateSession, if_pos rfl]
    rfl
  · rfl

theorem tickets_ascend (m : MemoryStore) (session : String) :
    (m.tickets session).Pairwise fun t u => t.sequence < u.sequence :=
  List.pairwise_map.2 ((m.held session).sorted.imp Std.compare_eq_lt.1)

theorem scopes_ascend (m : MemoryStore) : m.scopes.Pairwise (· < ·) :=
  List.pairwise_map.2 (m.sessions.sorted.imp compareOfLessAndEq_eq_lt.1)

theorem Sound.mem_scopes_iff (h : m.Sound) (session : String) :
    session ∈ m.scopes ↔ m.queue session ≠ [] := by
  rw [h.mem_scopes, ne_eq, List.eq_nil_iff_forall_not_mem]
  simp [queue, SortedMap.mem_entries]

/-- What every call does, said of the queues of the sessions. The greatest number given out so far
is `highest`. -/
structure Queues (m : MemoryStore) (highest : Nat) : Prop where
  /-- A new entry gets the next number, whatever the session. -/
  numbered : ∀ session saved retain,
    (m.insert session saved retain).1.view = saved.view ∧
      (m.insert session saved retain).1.sequence.toNat = highest + 1
  /-- It goes to the end, and of all entries the last are kept. -/
  pushed : ∀ session saved retain,
    (m.insert session saved retain).2.queue session =
      (m.queue session ++ [((m.insert session saved retain).1.sequence, saved)]).rtake
        (max 1 retain)
  viewDropped : ∀ session view,
    (m.invalidateView session view).2.queue session =
        (m.queue session).filter (·.2.view ≠ view) ∧
      (m.invalidateView session view).1 = ((m.queue session).filter (·.2.view = view)).length
  sessionDropped : ∀ session,
    (m.invalidateSession session).2.queue session = [] ∧
      (m.invalidateSession session).1 = (m.queue session).length
  listed : ∀ session,
    m.tickets session = (m.queue session).map (fun e => ⟨e.2.view, e.1⟩) ∧
      (m.tickets session).Pairwise fun t u => t.sequence < u.sequence
  scopes : m.scopes.Pairwise (· < ·) ∧ ∀ session, session ∈ m.scopes ↔ m.queue session ≠ []
  /-- What a session holds changes only by calls of that session. -/
  apart : ∀ (op : Operation) session, op.session? ≠ some session →
    (m.after op).queue session = m.queue session

theorem Sound.queues (h : m.Sound) (hroom : m.sequence.toNat + 1 < UInt64.size) :
    m.Queues m.sequence.toNat where
  numbered session saved retain := by
    refine ⟨rfl, ?_⟩
    show (Word.next m.sequence).toNat = _
    rw [Word.toNat_next]
    omega
  pushed := h.queue_insert hroom
  viewDropped := m.queue_invalidateView
  sessionDropped := m.queue_invalidateSession
  listed session := ⟨rfl, m.tickets_ascend session⟩
  scopes := ⟨m.scopes_ascend, h.mem_scopes_iff⟩
  apart _ _ := queue_after_of_ne

/-- After any calls with any bounds the sessions of a store hold queues, as long as there is a
number left to give out. -/
theorem queues_after_run {ops : List Operation} (hroom : Store.saves ops < UInt64.size - 1) :
    (ops.foldl after empty).Queues (greatest (empty.issued ops)) := by
  obtain ⟨hgreatest, hle⟩ := empty.sequence_run ops
  have hzero : empty.sequence.toNat = 0 := rfl
  rw [hzero, Nat.zero_max] at hgreatest
  rw [← hgreatest]
  apply (sound_empty.run ops).queues
  omega

/-- A bound that shrinks to nothing pushes out all but the new entry, and only in its session. -/
theorem queues_after_run_shrinking :
    let ops : List Operation := [.insert "a" ⟨"v", [1]⟩ 3, .insert "b" ⟨"v", [2]⟩ 3,
      .insert "a" ⟨"w", [3]⟩ 3, .invalidateView "b" "v"]
    let m := ops.foldl after empty
    Store.saves ops < UInt64.size - 1 ∧ m.queue "a" = [(1, ⟨"v", [1]⟩), (3, ⟨"w", [3]⟩)] ∧
      m.scopes = ["a"] ∧ (m.insert "a" ⟨"v", [4]⟩ 0).1.sequence.toNat = 4 ∧
      (m.insert "a" ⟨"v", [4]⟩ 0).2.queue "a" = [(4, ⟨"v", [4]⟩)] ∧
      (m.insert "b" ⟨"v", [4]⟩ 0).2.queue "a" = m.queue "a" := by
  intro ops m
  have hroom : Store.saves ops < UInt64.size - 1 := by decide
  have hqueues := queues_after_run hroom
  refine ⟨hroom, by decide, by decide, ?_, ?_, ?_⟩
  · exact (hqueues.numbered "a" ⟨"v", [4]⟩ 0).2.trans (by decide)
  · exact (hqueues.pushed "a" ⟨"v", [4]⟩ 0).trans (by decide)
  · exact hqueues.apart (.insert "b" ⟨"v", [4]⟩ 0) "a" (by decide)

end MemoryStore

end ViewState
