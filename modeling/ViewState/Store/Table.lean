import ViewState.Failure
import ViewState.SortedMap
import ViewState.Ticket
import ViewState.Word

/-!
A store in two tables: encoded views by session and sequence number, and the count of sequence
numbers. Every change is a transaction, which is done as a whole or not at all.
-/
namespace ViewState

/-- The key of an entry. Entries of one session stand together, the oldest first. -/
structure EntryKey where
  session : String
  sequence : UInt64
deriving DecidableEq

namespace EntryKey

instance : Ord EntryKey := ⟨compareLex (compareOn session) (compareOn sequence)⟩

instance : Std.TransOrd EntryKey :=
  inferInstanceAs (Std.TransCmp (compareLex (compareOn session) (compareOn sequence)))

instance : Std.LawfulEqOrd EntryKey where
  compare_self := Std.ReflCmp.compare_self
  eq_of_compare {k l} h := by
    have h : (compare k.session l.session).then (compare k.sequence l.sequence) = .eq := h
    obtain ⟨hs, hn⟩ := Ordering.then_eq_eq.1 h
    have hs := Std.LawfulEqOrd.eq_of_compare hs
    have hn := Std.LawfulEqOrd.eq_of_compare hn
    cases k
    cases l
    simp_all

end EntryKey

structure TableStore where
  views : SortedMap EntryKey (List UInt8)
  /-- The sequence number given out last, once one was. -/
  counter : Option UInt64

namespace TableStore

def empty : TableStore := ⟨∅, none⟩

/-- Changes of the tables that fail as a whole. -/
abbrev Transaction (α : Type) : Type := StateT TableStore (Except Failure) α

/-- Carries out a transaction; one that fails leaves the tables as they were. -/
def commit {α : Type} (s : TableStore) (t : Transaction α) : Except Failure α × TableStore :=
  match t.run s with
  | .ok (a, s) => (.ok a, s)
  | .error e => (.error e, s)

def decode (bytes : List UInt8) : Except Failure SavedView :=
  (SavedView.read.first bytes).mapError (.malformed ∘ .storedView)

/-- The tickets of a session, the oldest first. Fails on an entry that holds no view. -/
def tickets (s : TableStore) (session : String) : Except Failure (List Ticket) :=
  (s.views.entries.filter fun e => e.1.session = session).mapM fun e =>
    (decode e.2).map fun saved => ⟨saved.view, e.1.sequence⟩

def remove (session : String) (tickets : List Ticket) (s : TableStore) : TableStore :=
  { s with views := tickets.foldl (fun views t => views.erase ⟨session, t.sequence⟩) s.views }

/-- Saves a view and drops the oldest of its session beyond `retain`; one always stays. -/
def insert (s : TableStore) (session : String) (saved : SavedView) (retain : Nat) :
    Except Failure Ticket × TableStore :=
  s.commit do
    let sequence := Word.next ((← get).counter.getD 0)
    modify fun s => { s with counter := some sequence }
    modify fun s => { s with views := s.views.insert ⟨session, sequence⟩ saved.toWire }
    let held ← (← get).tickets session
    modify (remove session (held.take (held.length - max 1 retain)))
    return ⟨saved.view, sequence⟩

def get (s : TableStore) (session : String) (t : Ticket) : Except Failure (Option (List UInt8)) :=
  match s.views.get? ⟨session, t.sequence⟩ with
  | none => .ok none
  | some bytes =>
    (decode bytes).map fun saved => if saved.view = t.view then some saved.state else none

def invalidate (s : TableStore) (session : String) (doomed : String → Bool) :
    Except Failure Nat × TableStore :=
  s.commit do
    let held ← (← MonadState.get).tickets session
    let dropped := held.filter fun t => doomed t.view
    modify (remove session dropped)
    return dropped.length

def invalidateSession (s : TableStore) (session : String) : Except Failure Nat × TableStore :=
  s.invalidate session fun _ => true

def invalidateView (s : TableStore) (session view : String) : Except Failure Nat × TableStore :=
  s.invalidate session fun stored => stored = view

def scopes (s : TableStore) : List String :=
  (SortedSet.ofList (s.views.keys.map EntryKey.session)).keys

end TableStore

end ViewState
