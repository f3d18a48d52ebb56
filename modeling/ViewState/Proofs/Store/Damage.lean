import ViewState.Proofs.Store.Queue
import ViewState.Proofs.Store.Transaction

/-!
Tables with any content, also with entries that hold no view. A call about a session sees the count
of numbers and the entries of that session, and changes nothing else; so an entry that holds no view
makes calls about its own session fail, which change nothing then, and has no part in any other.
-/
namespace ViewState

open Store (Operation Answer)

theorem exists_error_of_mapM {ε α β : Type} {f : α → Except ε β} {as : List α} {e : ε}
    (h : as.mapM f = .error e) : ∃ a ∈ as, ∃ e', f a = .error e' := by
  induction as with
  | nil => cases h
  | cons a as ih =>
    rw [List.mapM_cons] at h
    cases ha : f a with
    | error e' => exact ⟨a, List.mem_cons_self, e', ha⟩
    | ok b =>
      rw [ha] at h
      cases has : as.mapM f with
      | error e' =>
        rw [has] at h
        cases h
        obtain ⟨a', hmem, ha'⟩ := ih has
        exact ⟨a', List.mem_cons_of_mem _ hmem, ha'⟩
      | ok bs =>
        rw [has] at h
        cases h

def Store.Answer.Failed : Answer → Prop
  | inserted ticket => ∃ e, ticket = .error e
  | got state => ∃ e, state = .error e
  | invalidated count => ∃ e, count = .error e
  | listed tickets => ∃ e, tickets = .error e
  | scopes _ => False

namespace TableStore

def after (t : TableStore) : Operation → TableStore
  | .insert session saved retain => (t.insert session saved retain).2
  | .invalidateSession session => (t.invalidateSession session).2
  | .invalidateView session view => (t.invalidateView session view).2
  | .get .. | .tickets _ | .scopes => t

theorem perform_table (t : TableStore) (op : Operation) :
    ((Store.table t).perform op).2 = .table (t.after op) := by
  cases op <;> rfl

variable {t t' : TableStore} {session : String}

/-- There is an entry under the key, and it holds no view. -/
def Undecodable (t : TableStore) (k : EntryKey) : Prop :=
  ∃ bytes e, t.views.get? k = some bytes ∧ decode bytes = .error e

theorem mem_scan {e : EntryKey × List UInt8} :
    e ∈ t.views.entries.filter (fun e => e.1.session = session) ↔
      t.views.get? e.1 = some e.2 ∧ e.1.session = session := by
  rw [List.mem_filter, decide_eq_true_eq, SortedMap.mem_entries]

theorem tickets_eq_error_iff :
    (∃ e, t.tickets session = .error e) ↔ ∃ n, t.Undecodable ⟨session, n⟩ := by
  constructor
  · rintro ⟨e, he⟩
    obtain ⟨⟨⟨session', n⟩, bytes⟩, hmem, e', he'⟩ := exists_error_of_mapM he
    obtain ⟨hget, rfl⟩ := mem_scan.1 hmem
    cases hdecode : decode bytes with
    | error e => exact ⟨n, bytes, e, hget, hdecode⟩
    | ok saved =>
      rw [hdecode] at he'
      cases he'
  · rintro ⟨n, bytes, e, hget, hdecode⟩
    refine mapM_eq_error (a := (⟨session, n⟩, bytes)) (e := e) (mem_scan.2 ⟨hget, rfl⟩) ?_
    rw [hdecode]
    rfl

theorem undecodable_insert {k k' : EntryKey} {saved : SavedView} {counter : Option UInt64} :
    Undecodable ⟨t.views.insert k saved.toWire, counter⟩ k' ↔
      if k' = k then ¬ saved.Addressable else t.Undecodable k' := by
  unfold Undecodable
  simp only [SortedMap.get?_insert]
  split
  · simp only [Option.some.injEq, exists_and_left, exists_eq_left', decode_toWire]
    split <;> simp [*]
  · rfl

/-- Saving a view writes over the entry with the new number, so that one entry may hold no view. -/
theorem insert_eq_error_iff {saved : SavedView} {retain : Nat} :
    (∃ e, (t.insert session saved retain).1 = .error e) ↔
      ¬ saved.Addressable ∨
        ∃ n, n ≠ Word.next (t.counter.getD 0) ∧ t.Undecodable ⟨session, n⟩ := by
  -- the tickets are read back after the new entry is written and before any is dropped
  have hscan : (∃ e, (t.insert session saved retain).1 = .error e) ↔ ∃ e,
      tickets ⟨t.views.insert ⟨session, Word.next (t.counter.getD 0)⟩ saved.toWire,
        some (Word.next (t.counter.getD 0))⟩ session = .error e := by
    rw [insert_eq]
    dsimp only
    split <;> simp [*]
  rw [hscan, tickets_eq_error_iff]
  simp only [undecodable_insert, EntryKey.mk.injEq, true_and]
  constructor
  · rintro ⟨n, hn⟩
    split at hn
    · exact .inl hn
    · next hne => exact .inr ⟨n, hne, hn⟩
  · rintro (hsaved | ⟨n, hne, hn⟩)
    · exact ⟨Word.next (t.counter.getD 0), by rwa [if_pos rfl]⟩
    · exact ⟨n, by rwa [if_neg hne]⟩

theorem invalidate_eq_error_iff (doomed : String → Bool) :
    (∃ e, (t.invalidate session doomed).1 = .error e) ↔ ∃ n, t.Undecodable ⟨session, n⟩ := by
  rw [← tickets_eq_error_iff, invalidate_eq]
  split <;> simp [*]

theorem get_eq_error_iff {ticket : Ticket} :
    (∃ e, t.get session ticket = .error e) ↔ t.Undecodable ⟨session, ticket.sequence⟩ := by
  unfold TableStore.get Undecodable
  cases t.views.get? ⟨session, ticket.sequence⟩ with
  | none => simp
  | some bytes => cases hdecode : decode bytes <;> simp [hdecode, Except.map]

/-- A call fails on these entries, all of its own session, or because what it saves is not
addressable. -/
def Blocks (t : TableStore) : Operation → Prop
  | .insert session saved _ =>
    ¬ saved.Addressable ∨ ∃ n, n ≠ Word.next (t.counter.getD 0) ∧ t.Undecodable ⟨session, n⟩
  | .get session ticket => t.Undecodable ⟨session, ticket.sequence⟩
  | .invalidateSession session | .invalidateView session _ | .tickets session =>
    ∃ n, t.Undecodable ⟨session, n⟩
  | .scopes => False

theorem failed_iff {op : Operation} : ((Store.table t).perform op).1.Failed ↔ t.Blocks op := by
  cases op with
  | insert session saved retain => exact insert_eq_error_iff
  | get session ticket => exact get_eq_error_iff
  | invalidateSession session => exact invalidate_eq_error_iff fun _ => true
  | invalidateView session view => exact invalidate_eq_error_iff fun stored => stored = view
  | tickets session => exact tickets_eq_error_iff
  | scopes => exact Iff.rfl

theorem after_of_failed {op : Operation} (h : ((Store.table t).perform op).1.Failed) :
    t.after op = t := by
  cases op with
  | insert session saved retain => exact commit_of_error h.choose_spec
  | invalidateSession session => exact commit_of_error h.choose_spec
  | invalidateView session view => exact commit_of_error h.choose_spec
  | get session ticket => rfl
  | tickets session => rfl
  | scopes => rfl

/-- The tables have the same count and the same entries of some sessions. The other sessions hold
whatever they hold. -/
structure Agree (sessions : String → Prop) (t t' : TableStore) : Prop where
  counter : t.counter = t'.counter
  get? : ∀ k : EntryKey, sessions k.session → t.views.get? k = t'.views.get? k

theorem agree_insert {sessions : String → Prop} {k : EntryKey} (hk : ¬ sessions k.session)
    (t : TableStore) (bytes : List UInt8) :
    Agree sessions ⟨t.views.insert k bytes, t.counter⟩ t := by
  refine ⟨rfl, fun k' hk' => ?_⟩
  have hne : k' ≠ k := fun heq => hk (heq ▸ hk')
  rw [SortedMap.get?_insert, if_neg hne]

section Agree

variable {sessions : String → Prop} (h : Agree sessions t t') (hsession : sessions session)

include h

theorem Agree.remove (tickets : List Ticket) :
    Agree sessions (TableStore.remove session tickets t)
      (TableStore.remove session tickets t') := by
  refine ⟨h.counter, fun k hk => ?_⟩
  rw [get?_remove, get?_remove, h.get? k hk]

theorem Agree.write (k : EntryKey) (bytes : List UInt8) (counter : Option UInt64) :
    Agree sessions ⟨t.views.insert k bytes, counter⟩ ⟨t'.views.insert k bytes, counter⟩ := by
  refine ⟨rfl, fun k' hk' => ?_⟩
  rw [SortedMap.get?_insert, SortedMap.get?_insert, h.get? k' hk']

include hsession

theorem Agree.scan : (t.views.entries.filter fun e => e.1.session = session) =
    t'.views.entries.filter fun e => e.1.session = session := by
  apply Assoc.Sorted.eq_of_mem_iff (t.views.sorted.filter _) (t'.views.sorted.filter _)
  intro e
  rw [mem_scan, mem_scan]
  constructor
  · rintro ⟨hget, rfl⟩
    exact ⟨h.get? e.1 hsession ▸ hget, rfl⟩
  · rintro ⟨hget, rfl⟩
    exact ⟨h.get? e.1 hsession ▸ hget, rfl⟩

theorem Agree.tickets : t.tickets session = t'.tickets session := by
  rw [TableStore.tickets, TableStore.tickets, h.scan hsession]

theorem Agree.get (ticket : Ticket) : t.get session ticket = t'.get session ticket := by
  rw [TableStore.get, TableStore.get, h.get? _ hsession]

theorem Agree.insert (saved : SavedView) (retain : Nat) :
    (t.insert session saved retain).1 = (t'.insert session saved retain).1 ∧
      Agree sessions (t.insert session saved retain).2 (t'.insert session saved retain).2 := by
  -- the counts are the same, so the new entry has the same key
  have hwritten := h.write ⟨session, Word.next (t.counter.getD 0)⟩ saved.toWire
    (some (Word.next (t.counter.getD 0)))
  rw [insert_eq, insert_eq, ← h.counter]
  dsimp only
  rw [← hwritten.tickets hsession]
  split
  · exact ⟨rfl, h⟩
  · exact ⟨rfl, hwritten.remove _⟩

theorem Agree.invalidate (doomed : String → Bool) :
    (t.invalidate session doomed).1 = (t'.invalidate session doomed).1 ∧
      Agree sessions (t.invalidate session doomed).2 (t'.invalidate session doomed).2 := by
  rw [invalidate_eq, invalidate_eq, ← h.tickets hsession]
  split
  · exact ⟨rfl, h⟩
  · exact ⟨rfl, h.remove _⟩

theorem Agree.after {op : Operation} (hop : op.session? = some session) :
    ((Store.table t).perform op).1 = ((Store.table t').perform op).1 ∧
      Agree sessions (t.after op) (t'.after op) := by
  cases op with
  | insert session saved retain =>
    cases hop
    obtain ⟨hticket, hafter⟩ := h.insert hsession saved retain
    exact ⟨congrArg Answer.inserted hticket, hafter⟩
  | get session ticket =>
    cases hop
    exact ⟨congrArg Answer.got (h.get hsession ticket), h⟩
  | invalidateSession session =>
    cases hop
    obtain ⟨hcount, hafter⟩ := h.invalidate hsession fun _ => true
    exact ⟨congrArg Answer.invalidated hcount, hafter⟩
  | invalidateView session view =>
    cases hop
    obtain ⟨hcount, hafter⟩ := h.invalidate hsession fun stored => stored = view
    exact ⟨congrArg Answer.invalidated hcount, hafter⟩
  | tickets session =>
    cases hop
    exact ⟨congrArg Answer.listed (h.tickets hsession), h⟩
  | scopes => cases hop

end Agree

theorem get?_after_of_ne {op : Operation} {k : EntryKey} (hop : op.session? ≠ some k.session) :
    (t.after op).views.get? k = t.views.get? k := by
  have hdropped {session : String} (hne : some session ≠ some k.session) (doomed : String → Bool) :
      (t.invalidate session doomed).2.views.get? k = t.views.get? k := by
    rw [invalidate_eq]
    split
    · rfl
    · rw [get?_remove, if_neg fun hk => hne (congrArg some hk.1.symm)]
  cases op with
  | insert session saved retain =>
    have hne : k.session ≠ session := fun hk => hop (congrArg some hk.symm)
    rw [after, insert_eq]
    dsimp only
    split
    · rfl
    · rw [get?_remove, if_neg fun hk => hne hk.1, SortedMap.get?_insert,
        if_neg fun hk => hne (congrArg EntryKey.session hk)]
  | invalidateSession session => exact hdropped hop _
  | invalidateView session view => exact hdropped hop _
  | get session ticket => rfl
  | tickets session => rfl
  | scopes => rfl

theorem Agree.run {sessions : String → Prop} (h : Agree sessions t t') {ops : List Operation}
    (hops : ∀ op ∈ ops, ∃ session, op.session? = some session ∧ sessions session) :
    (Store.table t).answers ops = (Store.table t').answers ops ∧
      Agree sessions (ops.foldl TableStore.after t) (ops.foldl TableStore.after t') := by
  induction ops generalizing t t' with
  | nil => exact ⟨rfl, h⟩
  | cons op ops ih =>
    obtain ⟨session, hop, hsession⟩ := hops op List.mem_cons_self
    obtain ⟨hanswer, hafter⟩ := h.after hsession hop
    obtain ⟨hanswers, hrun⟩ := ih hafter fun op hmem => hops op (List.mem_cons_of_mem _ hmem)
    refine ⟨?_, hrun⟩
    rw [Store.answers, Store.answers, hanswer, perform_table, perform_table, hanswers]

theorem get?_run_of_ne {ops : List Operation} {k : EntryKey}
    (hops : ∀ op ∈ ops, op.session? ≠ some k.session) :
    (ops.foldl after t).views.get? k = t.views.get? k := by
  induction ops generalizing t with
  | nil => rfl
  | cons op ops ih =>
    rw [List.foldl_cons, ih fun op hmem => hops op (List.mem_cons_of_mem _ hmem),
      get?_after_of_ne (hops op List.mem_cons_self)]

/-- How far the failures of tables go, whatever bytes the tables hold. -/
structure Contained (t : TableStore) : Prop where
  /-- A save is done as a whole or not at all, whichever of its accesses fails. -/
  insert : ∀ faults session saved retain,
    AllOrNothing faults t (t.insert session saved retain)
      (t.attempt (transact faults (insertSteps faults session saved retain)))
  invalidate : ∀ faults session doomed,
    AllOrNothing faults t (t.invalidate session doomed)
      (t.attempt (transact faults (invalidateSteps faults session doomed)))
  /-- Without faults the accesses come to what the store does. -/
  insert_eq : ∀ session saved retain,
    t.attempt (transact (fun _ => none) (insertSteps (fun _ => none) session saved retain)) =
      t.insert session saved retain
  invalidate_eq : ∀ session doomed,
    t.attempt (transact (fun _ => none) (invalidateSteps (fun _ => none) session doomed)) =
      t.invalidate session doomed
  /-- Calls fail on entries of their own session only, and then change neither table. -/
  failed : ∀ op : Operation, ((Store.table t).perform op).1.Failed ↔ t.Blocks op
  unchanged : ∀ op : Operation, ((Store.table t).perform op).1.Failed → t.after op = t
  /-- Calls of some sessions are answered as by any tables with the same entries of these, and do
  the same to these, and nothing to the entries of the others. -/
  apart : ∀ (sessions : String → Prop) (t' : TableStore), Agree sessions t t' →
    ∀ ops : List Operation, (∀ op ∈ ops, ∃ session, op.session? = some session ∧ sessions session) →
      (Store.table t).answers ops = (Store.table t').answers ops ∧
        Agree sessions (ops.foldl after t) (ops.foldl after t') ∧
        ∀ k : EntryKey, ¬ sessions k.session →
          (ops.foldl after t).views.get? k = t.views.get? k

theorem damage_contained (t : TableStore) : t.Contained where
  insert faults := attempt_insert faults t
  invalidate faults := attempt_invalidate faults t
  insert_eq session saved retain :=
    (attempt_insert (fun _ => none) t session saved retain).eq_commit
  invalidate_eq session doomed :=
    (attempt_invalidate (fun _ => none) t session doomed).eq_commit
  failed _ := failed_iff
  unchanged _ := after_of_failed
  apart sessions t' h ops hops := by
    obtain ⟨hanswers, hrun⟩ := h.run hops
    refine ⟨hanswers, hrun, fun k hk => get?_run_of_ne fun op hop hsession => hk ?_⟩
    obtain ⟨session, hop', hsessions⟩ := hops op hop
    cases hop'.symm.trans hsession
    exact hsessions

/-- A session whose name begins as that of its neighbour holds an entry of one byte. -/
theorem damage_contained_neighbour :
    let damaged : TableStore := ⟨SortedMap.insert ∅ ⟨"ab", 7⟩ [0xff], none⟩
    damaged.after (.insert "ab" ⟨"v", [1]⟩ 1) = damaged ∧
      (Store.table damaged).answers
          [.insert "a" ⟨"v", [1]⟩ 2, .insert "a" ⟨"w", [2]⟩ 1, .tickets "a", .get "a" ⟨"w", 2⟩] =
        [.inserted (.ok ⟨"v", 1⟩), .inserted (.ok ⟨"w", 2⟩), .listed (.ok [⟨"w", 2⟩]),
          .got (.ok (some [2]))] := by
  intro damaged
  have h := damage_contained damaged
  constructor
  · have hdecode : decode [0xff] = .error (.malformed (.storedView .endOfInput)) := rfl
    have hblocks : damaged.Blocks (.insert "ab" ⟨"v", [1]⟩ 1) :=
      .inr ⟨7, by decide, [0xff], _, by decide, hdecode⟩
    exact h.unchanged _ ((h.failed _).2 hblocks)
  · have hagree : Agree (· = "a") damaged empty := agree_insert (by decide) empty _
    have hempty := h.apart _ _ hagree
      [.insert "a" ⟨"v", [1]⟩ 2, .insert "a" ⟨"w", [2]⟩ 1, .tickets "a", .get "a" ⟨"w", 2⟩]
      (by simp [Operation.session?])
    exact hempty.1.trans (Store.represents_table.answers Store.represents_memory (by decide))

end TableStore

end ViewState
