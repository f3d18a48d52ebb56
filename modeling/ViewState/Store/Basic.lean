import ViewState.Store.Memory
import ViewState.Store.Table

/-!
Stores of saved views, in memory or in tables, and the lists and removals of views that work on
either.
-/
namespace ViewState

inductive Store
  | memory (s : MemoryStore)
  | table (s : TableStore)

namespace Store

def persistent : Store → Bool
  | memory _ => false
  | table _ => true

def insert (s : Store) (session : String) (saved : SavedView) (retain : Nat) :
    Except Failure Ticket × Store :=
  match s with
  | memory s => let (t, s) := s.insert session saved retain; (.ok t, memory s)
  | table s => let (t, s) := s.insert session saved retain; (t, table s)

def get (s : Store) (session : String) (t : Ticket) : Except Failure (Option (List UInt8)) :=
  match s with
  | memory s => .ok (s.get session t)
  | table s => s.get session t

def invalidateSession (s : Store) (session : String) : Except Failure Nat × Store :=
  match s with
  | memory s => let (n, s) := s.invalidateSession session; (.ok n, memory s)
  | table s => let (n, s) := s.invalidateSession session; (n, table s)

def invalidateView (s : Store) (session view : String) : Except Failure Nat × Store :=
  match s with
  | memory s => let (n, s) := s.invalidateView session view; (.ok n, memory s)
  | table s => let (n, s) := s.invalidateView session view; (n, table s)

def tickets (s : Store) (session : String) : Except Failure (List Ticket) :=
  match s with
  | memory s => .ok (s.tickets session)
  | table s => s.tickets session

def scopes : Store → List String
  | memory s => s.scopes
  | table s => s.scopes

structure Row where
  session : String
  view : String
  sequence : UInt64
  /-- The text of the ticket. -/
  ticket : String
deriving DecidableEq

def Row.ofTicket (h : Hash) (session : String) (t : Ticket) : Row :=
  ⟨session, t.view, t.sequence, t.encode h⟩

def rows (h : Hash) (s : Store) (session : Option String) : Except Failure (List Row) := do
  let sessions := match session with
    | some session => [session]
    | none => s.scopes
  let rows ← sessions.mapM fun session =>
    (s.tickets session).map fun ts => ts.map (Row.ofTicket h session)
  return rows.flatten

/-- Removes the saved views of a session, or those of one view in it. Gives how many they were. -/
def purge (s : Store) (session : String) (view : Option String) : Except Failure Nat × Store :=
  match view with
  | some view => s.invalidateView session view
  | none => s.invalidateSession session

end Store

end ViewState
