import ViewState.Proofs.Store.Table
import ViewState.Store.Basic

/-!
A store of either kind against the store in memory that it represents. Each call is answered alike
and leads to stores that represent each other again, so two fresh stores of different kinds cannot
be told apart by any sequence of calls.
-/
namespace ViewState.Store

/-- What a store holds, as a store in memory. -/
def Represents : Store → MemoryStore → Prop
  | memory s, m => s = m ∧ m.Sound
  | table t, m => t.Represents m

/-- The stores of either kind that were never called. -/
def Fresh (s : Store) : Prop := s = memory .empty ∨ s = table .empty

theorem represents_memory : (memory .empty).Represents .empty :=
  ⟨rfl, MemoryStore.sound_empty⟩

theorem represents_table : (table .empty).Represents .empty :=
  TableStore.represents_empty

theorem Fresh.represents {s : Store} (h : s.Fresh) : s.Represents .empty := by
  rcases h with rfl | rfl
  · exact represents_memory
  · exact represents_table

/-- How many entries of a session are newer than a sequence number. -/
def newer (s : Store) (session : String) (n : UInt64) : Nat :=
  match s.tickets session with
  | .ok tickets => (tickets.filter fun t => n < t.sequence).length
  | .error _ => 0

section Represents

variable {s : Store} {m : MemoryStore} (h : s.Represents m)

include h

theorem Represents.sound : m.Sound := by
  cases s with
  | memory s => exact h.2
  | table t => exact TableStore.Represents.sound h

theorem Represents.get (session : String) (t : Ticket) :
    s.get session t = .ok (m.get session t) := by
  cases s with
  | memory s =>
    rw [← h.1]
    rfl
  | table t => exact TableStore.Represents.get h session _

theorem Represents.tickets (session : String) : s.tickets session = .ok (m.tickets session) := by
  cases s with
  | memory s =>
    rw [← h.1]
    rfl
  | table t => exact TableStore.Represents.tickets h session

theorem Represents.newer (session : String) (n : UInt64) :
    s.newer session n = m.newer session n := by
  unfold Store.newer
  rw [h.tickets]
  rfl

theorem Represents.scopes : s.scopes = m.scopes := by
  cases s with
  | memory s =>
    rw [← h.1]
    rfl
  | table t => exact TableStore.Represents.scopes h

theorem Represents.insert {saved : SavedView} (hsaved : saved.Addressable) (session : String)
    (retain : Nat) :
    (s.insert session saved retain).1 = .ok (m.insert session saved retain).1 ∧
      (s.insert session saved retain).2.Represents (m.insert session saved retain).2 := by
  cases s with
  | memory s =>
    obtain ⟨rfl, hsound⟩ := h
    exact ⟨rfl, rfl, hsound.insert session saved retain⟩
  | table t => exact TableStore.Represents.insert h hsaved session retain

theorem Represents.insert_cases (session : String) (saved : SavedView) (retain : Nat) :
    ((s.insert session saved retain).1 = .ok (m.insert session saved retain).1 ∧
      (s.insert session saved retain).2.Represents (m.insert session saved retain).2) ∨
    ∃ e, s.insert session saved retain = (.error e, s) := by
  by_cases hsaved : saved.Addressable
  · exact .inl (h.insert hsaved session retain)
  · cases s with
    | memory s =>
      obtain ⟨rfl, hsound⟩ := h
      exact .inl ⟨rfl, rfl, hsound.insert session saved retain⟩
    | table t =>
      obtain ⟨e, he⟩ := TableStore.Represents.insert_error h hsaved session retain
      refine .inr ⟨e, ?_⟩
      rw [Store.insert, he]

theorem Represents.invalidateSession (session : String) :
    (s.invalidateSession session).1 = .ok (m.invalidateSession session).1 ∧
      (s.invalidateSession session).2.Represents (m.invalidateSession session).2 := by
  cases s with
  | memory s =>
    obtain ⟨rfl, hsound⟩ := h
    exact ⟨rfl, rfl, hsound.invalidateSession session⟩
  | table t => exact TableStore.Represents.invalidateSession h session

theorem Represents.invalidateView (session view : String) :
    (s.invalidateView session view).1 = .ok (m.invalidateView session view).1 ∧
      (s.invalidateView session view).2.Represents (m.invalidateView session view).2 := by
  cases s with
  | memory s =>
    obtain ⟨rfl, hsound⟩ := h
    exact ⟨rfl, rfl, hsound.invalidateView session view⟩
  | table t => exact TableStore.Represents.invalidateView h session view

end Represents

inductive Operation
  | insert (session : String) (saved : SavedView) (retain : Nat)
  | get (session : String) (ticket : Ticket)
  | invalidateSession (session : String)
  | invalidateView (session view : String)
  | tickets (session : String)
  | scopes

inductive Answer
  | inserted (ticket : Except Failure Ticket)
  | got (state : Except Failure (Option (List UInt8)))
  | invalidated (count : Except Failure Nat)
  | listed (tickets : Except Failure (List Ticket))
  | scopes (sessions : List String)

def perform (s : Store) : Operation → Answer × Store
  | .insert session saved retain => (s.insert session saved retain).map .inserted id
  | .get session ticket => (.got (s.get session ticket), s)
  | .invalidateSession session => (s.invalidateSession session).map .invalidated id
  | .invalidateView session view => (s.invalidateView session view).map .invalidated id
  | .tickets session => (.listed (s.tickets session), s)
  | .scopes => (.scopes s.scopes, s)

def answers (s : Store) : List Operation → List Answer
  | [] => []
  | op :: ops => (s.perform op).1 :: (s.perform op).2.answers ops

def Operation.Addressable : Operation → Prop
  | insert _ saved _ => saved.Addressable
  | _ => True

instance (op : Operation) : Decidable op.Addressable :=
  match op with
  | .insert _ saved _ => inferInstanceAs (Decidable saved.Addressable)
  | .get .. => .isTrue trivial
  | .invalidateSession _ => .isTrue trivial
  | .invalidateView .. => .isTrue trivial
  | .tickets _ => .isTrue trivial
  | .scopes => .isTrue trivial

/-- Stores that represent the same store in memory answer a call alike and still do so after it. -/
theorem Represents.perform {s s' : Store} {m : MemoryStore} (h : s.Represents m)
    (h' : s'.Represents m) {op : Operation} (hop : op.Addressable) :
    (s.perform op).1 = (s'.perform op).1 ∧
      ∃ m', (s.perform op).2.Represents m' ∧ (s'.perform op).2.Represents m' := by
  cases op with
  | insert session saved retain =>
    obtain ⟨hticket, hafter⟩ := h.insert hop session retain
    obtain ⟨hticket', hafter'⟩ := h'.insert hop session retain
    exact ⟨congrArg Answer.inserted (hticket.trans hticket'.symm), _, hafter, hafter'⟩
  | get session ticket =>
    exact ⟨congrArg Answer.got ((h.get session ticket).trans (h'.get session ticket).symm),
      m, h, h'⟩
  | invalidateSession session =>
    obtain ⟨hcount, hafter⟩ := h.invalidateSession session
    obtain ⟨hcount', hafter'⟩ := h'.invalidateSession session
    exact ⟨congrArg Answer.invalidated (hcount.trans hcount'.symm), _, hafter, hafter'⟩
  | invalidateView session view =>
    obtain ⟨hcount, hafter⟩ := h.invalidateView session view
    obtain ⟨hcount', hafter'⟩ := h'.invalidateView session view
    exact ⟨congrArg Answer.invalidated (hcount.trans hcount'.symm), _, hafter, hafter'⟩
  | tickets session =>
    exact ⟨congrArg Answer.listed ((h.tickets session).trans (h'.tickets session).symm), m, h, h'⟩
  | scopes => exact ⟨congrArg Answer.scopes (h.scopes.trans h'.scopes.symm), m, h, h'⟩

theorem Represents.answers {s s' : Store} {m : MemoryStore} (h : s.Represents m)
    (h' : s'.Represents m) {ops : List Operation} (hops : ∀ op ∈ ops, op.Addressable) :
    s.answers ops = s'.answers ops := by
  induction ops generalizing s s' m with
  | nil => rfl
  | cons op ops ih =>
    obtain ⟨hanswer, m', hafter, hafter'⟩ := h.perform h' (hops op List.mem_cons_self)
    rw [Store.answers, Store.answers, hanswer,
      ih hafter hafter' fun op hop => hops op (List.mem_cons_of_mem _ hop)]

/-- A fresh store in tables answers every sequence of calls as a fresh store in memory does. Texts
and byte strings of a program on 64-bit words are addressable, whatever is saved. -/
theorem answers_table (ops : List Operation) (hops : ∀ op ∈ ops, op.Addressable) :
    (table .empty).answers ops = (memory .empty).answers ops :=
  represents_table.answers represents_memory hops

/-- One session is called as the other begins, and keeping no views keeps one. -/
theorem answers_table_crowded :
    (table .empty).answers
        [.insert "a" ⟨"v", [1]⟩ 1, .insert "ab" ⟨"v", [2]⟩ 0, .insert "a" ⟨"w", [3]⟩ 1,
          .get "a" ⟨"v", 1⟩, .get "ab" ⟨"v", 2⟩, .tickets "a", .invalidateView "a" "w", .scopes] =
      [.inserted (.ok ⟨"v", 1⟩), .inserted (.ok ⟨"v", 2⟩), .inserted (.ok ⟨"w", 3⟩),
        .got (.ok none), .got (.ok (some [2])), .listed (.ok [⟨"w", 3⟩]), .invalidated (.ok 1),
        .scopes ["ab"]] :=
  (answers_table _ (by decide)).trans rfl

/-- The stores that calls lead to from a fresh one. -/
inductive Reachable : Store → Prop
  | fresh {s : Store} (hs : s.Fresh) : Reachable s
  | perform {s : Store} (hs : Reachable s) (op : Operation) : Reachable (s.perform op).2

theorem Reachable.represents {s : Store} (hs : s.Reachable) : ∃ m, s.Represents m := by
  induction hs with
  | fresh hs => exact ⟨_, hs.represents⟩
  | perform _ op ih =>
    obtain ⟨m, hm⟩ := ih
    cases op with
    | insert session saved retain =>
      rcases hm.insert_cases session saved retain with ⟨-, hafter⟩ | ⟨e, he⟩
      · exact ⟨_, hafter⟩
      · refine ⟨m, ?_⟩
        rwa [Store.perform, he]
    | invalidateSession session => exact ⟨_, (hm.invalidateSession session).2⟩
    | invalidateView session view => exact ⟨_, (hm.invalidateView session view).2⟩
    | get session ticket => exact ⟨m, hm⟩
    | tickets session => exact ⟨m, hm⟩
    | scopes => exact ⟨m, hm⟩

end ViewState.Store
