import ViewState.SortedMap
import ViewState.Ticket
import ViewState.Word

/-!
A store in memory: the saved views of each session by sequence number. One count of sequence
numbers serves all sessions, and no session pushes out what another holds.
-/
namespace ViewState

structure MemoryStore where
  /-- The sequence number given out last. -/
  sequence : UInt64
  /-- The saved views of the sessions that hold any. -/
  sessions : SortedMap String (SortedMap UInt64 SavedView)

namespace MemoryStore

def empty : MemoryStore := ⟨0, ∅⟩

/-- What a session holds, the oldest first. -/
def held (s : MemoryStore) (session : String) : SortedMap UInt64 SavedView :=
  (s.sessions.get? session).getD ∅

/-- Saves a view and drops the oldest of its session beyond `retain`, but never the new one. -/
def insert (s : MemoryStore) (session : String) (saved : SavedView) (retain : Nat) :
    Ticket × MemoryStore :=
  let sequence := Word.next s.sequence
  let entries := (s.held session).insert sequence saved
  let kept := entries.drop (entries.size - max 1 retain)
  (⟨saved.view, sequence⟩, ⟨sequence, s.sessions.insert session kept⟩)

def get (s : MemoryStore) (session : String) (t : Ticket) : Option (List UInt8) :=
  ((s.held session).get? t.sequence).bind fun saved =>
    if saved.view = t.view then some saved.state else none

def invalidateSession (s : MemoryStore) (session : String) : Nat × MemoryStore :=
  ((s.held session).size, { s with sessions := s.sessions.erase session })

def invalidateView (s : MemoryStore) (session view : String) : Nat × MemoryStore :=
  let entries := s.held session
  let kept := entries.filter fun _ saved => saved.view ≠ view
  let sessions :=
    if kept.isEmpty then s.sessions.erase session else s.sessions.insert session kept
  (entries.size - kept.size, { s with sessions })

def tickets (s : MemoryStore) (session : String) : List Ticket :=
  (s.held session).entries.map fun e => ⟨e.2.view, e.1⟩

def scopes (s : MemoryStore) : List String := s.sessions.keys

end MemoryStore

end ViewState
