import ViewState.Proofs.Store.Basic

/-!
Transactions on the tables, one access after another. What an operation writes goes to a draft, and
the commit at its end puts the draft in the place of the tables; before that a fault can strike any
access, and entries may turn out to hold no view. Whatever happens, an operation comes to what the
store does as a whole, or it fails and the tables are as they were.
-/
namespace ViewState

namespace EntryKey

/-- The keys from the first to the last number of a session are those of the session, whatever the
sessions are whose names begin as its own. -/
theorem within_iff {session : String} {k : EntryKey} :
    (compare ⟨session, 0⟩ k).isLE ∧ (compare k ⟨session, Word.greatest⟩).isLE ↔
      k.session = session := by
  obtain ⟨session', n⟩ := k
  show ((compare session session').then (compare 0 n)).isLE ∧
    ((compare session' session).then (compare n Word.greatest)).isLE ↔ session' = session
  cases hcompare : compare session session' with
  | lt =>
    have hne : session' ≠ session := (Assoc.ne_of_compare (by rw [hcompare]; decide)).symm
    simp [Std.OrientedCmp.gt_of_lt hcompare, hne]
  | gt =>
    have hne : session' ≠ session := (Assoc.ne_of_compare (by rw [hcompare]; decide)).symm
    simp [hne]
  | eq =>
    obtain rfl := Std.LawfulEqCmp.eq_of_compare hcompare
    have hgreatest : n ≤ Word.greatest := by
      rw [UInt64.le_iff_toNat_le, Word.toNat_greatest]
      exact Nat.le_sub_one_of_lt n.toNat_lt
    simp [Std.ReflCmp.compare_self, Std.isLE_compare, hgreatest]

end EntryKey

namespace TableStore

def range (t : TableStore) (first last : EntryKey) : List (EntryKey × List UInt8) :=
  t.views.entries.filter fun e => (compare first e.1).isLE ∧ (compare e.1 last).isLE

theorem range_session (t : TableStore) (session : String) :
    t.range ⟨session, 0⟩ ⟨session, Word.greatest⟩ =
      t.views.entries.filter fun e => e.1.session = session := by
  unfold range
  congr 1
  funext e
  rw [decide_eq_decide]
  exact EntryKey.within_iff

/-- The tables in the course of an operation. -/
structure Bench where
  /-- The tables as they are stored. -/
  stored : TableStore
  /-- The tables as the transaction that is open has left them so far. -/
  draft : TableStore
  accesses : Nat

/-- Which accesses fail, and how. -/
abbrev Faults : Type := Nat → Option Failure

/-- What a failure leaves on the bench stays there. -/
abbrev Steps (α : Type) : Type := ExceptT Failure (StateM Bench) α

section Access

variable (faults : Faults)

def access {α : Type} (f : Bench → α × Bench) : Steps α :=
  ExceptT.mk fun b =>
    match faults b.accesses with
    | some e => (.error e, { b with accesses := b.accesses + 1 })
    | none => ((.ok (f b).1), { (f b).2 with accesses := b.accesses + 1 })

def look : Steps TableStore := access faults fun b => (b.draft, b)

def change (f : TableStore → TableStore) : Steps Unit :=
  access faults fun b => ((), { b with draft := f b.draft })

def openDraft : Steps Unit := access faults fun b => ((), { b with draft := b.stored })

def commitDraft : Steps Unit := access faults fun b => ((), { b with stored := b.draft })

/-- A transaction that is committed if nothing in it fails. -/
def transact {α : Type} (body : Steps α) : Steps α := do
  openDraft faults
  let a ← body
  commitDraft faults
  return a

def readTicket (e : EntryKey × List UInt8) : Steps Ticket := do
  let _ ← look faults
  let saved ← liftM (decode e.2)
  return ⟨saved.view, e.1.sequence⟩

/-- The tickets of a session, by a scan from its first to its last number. -/
def scan (session : String) : Steps (List Ticket) := do
  let t ← look faults
  (t.range ⟨session, 0⟩ ⟨session, Word.greatest⟩).mapM (readTicket faults)

def removeEach (session : String) (tickets : List Ticket) : Steps Unit :=
  tickets.forM fun ticket =>
    change faults fun t => { t with views := t.views.erase ⟨session, ticket.sequence⟩ }

/-- Saves a view: the count and the new entry are written before the entries of the session are
read, and the oldest of these are removed one by one. -/
def insertSteps (session : String) (saved : SavedView) (retain : Nat) : Steps Ticket := do
  let sequence := Word.next ((← look faults).counter.getD 0)
  change faults fun t => { t with counter := some sequence }
  change faults fun t => { t with views := t.views.insert ⟨session, sequence⟩ saved.toWire }
  let held ← scan faults session
  removeEach faults session (held.take (held.length - max 1 retain))
  return ⟨saved.view, sequence⟩

def invalidateSteps (session : String) (doomed : String → Bool) : Steps Nat := do
  let held ← scan faults session
  let dropped := held.filter fun ticket => doomed ticket.view
  removeEach faults session dropped
  return dropped.length

end Access

def attempt {α : Type} (t : TableStore) (p : Steps α) : Except Failure α × TableStore :=
  let (result, b) := p.run.run ⟨t, empty, 0⟩
  (result, b.stored)

variable {α β : Type} {faults : Faults}

/-- The steps do to the draft what a transaction does to the tables, or fail, by a fault or as the
transaction does. The tables that are stored have no part in them. -/
def CarriesOut (faults : Faults) (p : Steps α) (t : Transaction α) : Prop :=
  ∀ b : Bench, ∃ draft accesses,
    (∃ a, p.run.run b = (.ok a, ⟨b.stored, draft, accesses⟩) ∧ t.run b.draft = .ok (a, draft)) ∨
    ∃ e, p.run.run b = (.error e, ⟨b.stored, draft, accesses⟩) ∧
      (t.run b.draft = .error e ∨ ∃ n, faults n = some e)

theorem run_bind (p : Steps α) (f : α → Steps β) (b : Bench) :
    (p >>= f).run.run b =
      match p.run.run b with
      | (.ok a, b) => (f a).run.run b
      | (.error e, b) => (.error e, b) := by
  show (ExceptT.bindCont f (p.run.run b).1).run (p.run.run b).2 = _
  obtain ⟨_ | a, b'⟩ := p.run.run b
  · rfl
  · rfl

theorem carriesOut_pure (a : α) : CarriesOut faults (pure a) (pure a) := by
  intro b
  exact ⟨b.draft, b.accesses, .inl ⟨a, rfl, rfl⟩⟩

theorem CarriesOut.bind {p : Steps α} {t : Transaction α} {f : α → Steps β}
    {g : α → Transaction β} (h : CarriesOut faults p t)
    (h' : ∀ a, CarriesOut faults (f a) (g a)) : CarriesOut faults (p >>= f) (t >>= g) := by
  intro b
  obtain ⟨draft, accesses, ⟨a, hp, ht⟩ | ⟨e, hp, ht⟩⟩ := h b
  · obtain ⟨draft', accesses', hcase⟩ := h' a ⟨b.stored, draft, accesses⟩
    refine ⟨draft', accesses', ?_⟩
    rwa [run_bind, hp, StateT.run_bind, ht]
  · refine ⟨draft, accesses, .inr ⟨e, ?_, ht.imp_left fun ht => ?_⟩⟩
    · rw [run_bind, hp]
    · rw [StateT.run_bind, ht]
      rfl

theorem run_access (f : Bench → α × Bench) (b : Bench) :
    (access faults f).run.run b =
      match faults b.accesses with
      | some e => (.error e, { b with accesses := b.accesses + 1 })
      | none => (.ok (f b).1, { (f b).2 with accesses := b.accesses + 1 }) :=
  rfl

theorem carriesOut_access {f : Bench → α × Bench} {t : Transaction α}
    (hstored : ∀ b, (f b).2.stored = b.stored)
    (hdraft : ∀ b, t.run b.draft = .ok ((f b).1, (f b).2.draft)) :
    CarriesOut faults (access faults f) t := by
  intro b
  rw [run_access]
  cases hfault : faults b.accesses with
  | none =>
    refine ⟨(f b).2.draft, b.accesses + 1, .inl ⟨(f b).1, ?_, hdraft b⟩⟩
    rw [← hstored b]
  | some e => exact ⟨b.draft, b.accesses + 1, .inr ⟨e, rfl, .inr ⟨_, hfault⟩⟩⟩

theorem carriesOut_look : CarriesOut faults (look faults) MonadState.get :=
  carriesOut_access (fun _ => rfl) fun _ => rfl

theorem carriesOut_change (f : TableStore → TableStore) :
    CarriesOut faults (change faults f) (modify f) :=
  carriesOut_access (fun _ => rfl) fun _ => rfl

theorem carriesOut_lift (x : Except Failure α) :
    CarriesOut faults (liftM x) (liftM x : Transaction α) := by
  intro b
  refine ⟨b.draft, b.accesses, ?_⟩
  cases x with
  | ok a => exact .inl ⟨a, rfl, rfl⟩
  | error e => exact .inr ⟨e, rfl, .inl rfl⟩

theorem CarriesOut.congr {p : Steps α} {t t' : Transaction α} (h : CarriesOut faults p t)
    (ht : ∀ s, t.run s = t'.run s) : CarriesOut faults p t' := by
  intro b
  rw [← ht]
  exact h b

theorem carriesOut_mapM {f : α → Steps β} {g : α → Except Failure β}
    (h : ∀ a, CarriesOut faults (f a) (liftM (g a))) (as : List α) :
    CarriesOut faults (as.mapM f) (liftM (as.mapM g)) := by
  induction as with
  | nil => exact carriesOut_pure []
  | cons a as ih =>
    rw [List.mapM_cons, List.mapM_cons, liftM_bind]
    refine (h a).bind fun b => ?_
    rw [liftM_bind]
    exact ih.bind fun bs => carriesOut_pure (b :: bs)

theorem carriesOut_readTicket (e : EntryKey × List UInt8) :
    CarriesOut faults (readTicket faults e)
      (liftM ((decode e.2).map fun saved => (⟨saved.view, e.1.sequence⟩ : Ticket))) := by
  refine (carriesOut_look.bind fun _ => (carriesOut_lift (decode e.2)).bind fun saved =>
    carriesOut_pure _).congr fun s => ?_
  cases decode e.2 <;> rfl

theorem carriesOut_scan (session : String) :
    CarriesOut faults (scan faults session)
      (MonadState.get >>= fun t => liftM (t.tickets session)) := by
  refine carriesOut_look.bind fun t => ?_
  rw [range_session]
  exact carriesOut_mapM carriesOut_readTicket _

theorem CarriesOut.scan_bind {session : String} {f : List Ticket → Steps α}
    {g : List Ticket → Transaction α} (h : ∀ held, CarriesOut faults (f held) (g held)) :
    CarriesOut faults (scan faults session >>= f)
      (MonadState.get >>= fun t => liftM (t.tickets session) >>= g) := by
  have hscan := (carriesOut_scan session).bind h
  rwa [bind_assoc] at hscan

theorem carriesOut_removeEach (session : String) (tickets : List Ticket) :
    CarriesOut faults (removeEach faults session tickets) (modify (remove session tickets)) := by
  induction tickets with
  | nil => exact carriesOut_pure ()
  | cons ticket tickets ih => exact (carriesOut_change _).bind fun _ => ih

/-- What an operation comes to, if done as a whole it comes to `whole`: to just that, or to nothing
but a failure, which is its own one or a fault. -/
inductive AllOrNothing (faults : Faults) (t : TableStore) (whole : Except Failure α × TableStore) :
    Except Failure α × TableStore → Prop
  | all {a : α} (h : whole.1 = .ok a) : AllOrNothing faults t whole (.ok a, whole.2)
  | nothing {e : Failure} (h : whole.1 = .error e ∨ ∃ n, faults n = some e) :
    AllOrNothing faults t whole (.error e, t)

theorem commit_of_error {t : TableStore} {tx : Transaction α} {e : Failure}
    (h : (t.commit tx).1 = .error e) : (t.commit tx).2 = t := by
  unfold commit at h ⊢
  cases htx : tx.run t with
  | error e' => rfl
  | ok r =>
    rw [htx] at h
    cases h

theorem CarriesOut.attempt {p : Steps α} {tx : Transaction α} (h : CarriesOut faults p tx)
    (t : TableStore) :
    AllOrNothing faults t (t.commit tx) (t.attempt (transact faults p)) := by
  unfold TableStore.attempt transact openDraft commitDraft
  -- the first access opens the draft and the last one commits it; either can fail
  rw [run_bind, run_access]
  cases hopen : faults 0 with
  | some e => exact .nothing (.inr ⟨0, hopen⟩)
  | none =>
    dsimp only
    rw [run_bind]
    obtain ⟨draft, accesses, ⟨a, hp, htx⟩ | ⟨e, hp, htx⟩⟩ := h ⟨t, t, 1⟩
    · have hwhole : t.commit tx = (.ok a, draft) := by
        rw [commit, htx]
      rw [hp, hwhole]
      dsimp only
      rw [run_bind, run_access]
      cases hcommit : faults accesses with
      | some e => exact .nothing (.inr ⟨accesses, hcommit⟩)
      | none => exact .all rfl
    · rw [hp]
      refine .nothing (htx.imp_left fun htx => ?_)
      rw [commit, htx]

/-- Without faults an operation comes to what the store does, its failures included. -/
theorem AllOrNothing.eq_commit {t : TableStore} {tx : Transaction α}
    {outcome : Except Failure α × TableStore}
    (h : AllOrNothing (fun _ => none) t (t.commit tx) outcome) : outcome = t.commit tx := by
  cases h with
  | all ha => exact Prod.ext ha.symm rfl
  | nothing he =>
    rcases he with he | ⟨n, hn⟩
    · exact Prod.ext he.symm (commit_of_error he).symm
    · cases hn

/-- Whatever faults strike, saving a view comes to what the store does, or it fails and changes
nothing. -/
theorem attempt_insert (faults : Faults) (t : TableStore) (session : String) (saved : SavedView)
    (retain : Nat) :
    AllOrNothing faults t (t.insert session saved retain)
      (t.attempt (transact faults (insertSteps faults session saved retain))) := by
  apply CarriesOut.attempt
  unfold insertSteps
  refine carriesOut_look.bind fun t => ?_
  refine (carriesOut_change _).bind fun _ => (carriesOut_change _).bind fun _ => ?_
  refine CarriesOut.scan_bind fun held => ?_
  exact (carriesOut_removeEach session _).bind fun _ => carriesOut_pure _

/-- Likewise for dropping what a session holds, be it all or of one view. -/
theorem attempt_invalidate (faults : Faults) (t : TableStore) (session : String)
    (doomed : String → Bool) :
    AllOrNothing faults t (t.invalidate session doomed)
      (t.attempt (transact faults (invalidateSteps faults session doomed))) := by
  apply CarriesOut.attempt
  unfold invalidateSteps
  refine CarriesOut.scan_bind fun held => ?_
  exact (carriesOut_removeEach session _).bind fun _ => carriesOut_pure _

end TableStore

end ViewState
