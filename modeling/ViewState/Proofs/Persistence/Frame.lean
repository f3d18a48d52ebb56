import ViewState.Proofs.Persistence.Guards
import ViewState.Proofs.Store.Transaction

/-!
What saving and restoring do to the store: nothing, except that a save which hands out a ticket has
put one view there. A save that fails has left the store alone, wherever it failed, and so have all
calls for requests that keep their views at the client.
-/
namespace ViewState

/-- An insertion that fails does nothing, also in tables with entries that hold no view. -/
theorem Store.insert_of_error {s : Store} {session : String} {saved : SavedView} {retain : Nat}
    {e : Failure} (h : (s.insert session saved retain).1 = .error e) :
    (s.insert session saved retain).2 = s := by
  cases s with
  | memory m => cases h
  | table t => exact congrArg Store.table (TableStore.commit_of_error h)

def Saved.isTicket : Saved → Bool
  | payload _ => false
  | ticket _ => true

namespace Persistence

variable {σ : Type} (p : Persistence σ)

/-- What a save comes to, and the store after it, if its encoding gave `encoded` and left `x`. -/
inductive Touch (encoded : Except Failure (List UInt8)) (x : Exchange) (view : String) :
    Except Failure Saved → Store → Prop
  | failed (e : Failure) : Touch encoded x view (.error e) x.store
  | sent (hmode : x.mode.1 = .client) (text : String) :
      Touch encoded x view (.ok (.payload text)) x.store
  | stored (hmode : x.mode.1 = .server) {bytes : List UInt8} (hbytes : encoded = .ok bytes)
      (hlimit : bytes.length ≤ Envelope.limit) {ticket : Ticket} {s : Store}
      (hinsert : x.store.insert x.request.session ⟨view, bytes⟩ p.retention.views =
        (.ok ticket, s)) :
      Touch encoded x view (.ok (.ticket (ticket.encode p.hash))) s

theorem touch_keep {x : Exchange} {view : String} {bytes : List UInt8}
    (hlimit : bytes.length ≤ Envelope.limit) :
    p.Touch (.ok bytes) x view (p.keep x ⟨view, bytes⟩).1 (p.keep x ⟨view, bytes⟩).2.store := by
  cases hmode : x.mode.1 with
  | client =>
    rw [p.keep_client hmode]
    cases Envelope.pack p.hash p.retention.key ⟨view, bytes⟩ with
    | error e => exact .failed e
    | ok text => exact .sent hmode text
  | server =>
    rw [p.keep_server hmode]
    cases hinsert : (x.store.insert x.request.session ⟨view, bytes⟩ p.retention.views).1 with
    | error e =>
      -- the count and the new entry were written by then, in a transaction that is dropped
      dsimp only
      rw [hinsert, Store.insert_of_error hinsert]
      exact .failed e
    | ok ticket =>
      dsimp only
      rw [hinsert]
      exact .stored hmode rfl hlimit (Prod.ext hinsert rfl)

/-- An encoding may work on the store itself. Nothing is taken back of that, and nothing is added
unless the save hands out a ticket. -/
theorem touch_saveThrough (encoding : Encoding) (x : Exchange) (view : String) :
    let encoded := encoding { x with request := x.request.beginSaving }
    p.Touch encoded.1 encoded.2 view (p.saveThrough encoding x view).1
      (p.saveThrough encoding x view).2.store := by
  unfold saveThrough
  obtain ⟨_ | bytes, y⟩ := encoding { x with request := x.request.beginSaving }
  · exact .failed _
  · dsimp only
    by_cases hlimit : Envelope.limit < bytes.length
    · rw [if_pos hlimit]
      exact .failed _
    · rw [if_neg hlimit]
      exact p.touch_keep (Nat.not_lt.mp hlimit)

theorem touch_save (x : Exchange) (view : String) (state : σ) :
    p.Touch (p.codec.encode x.request.beginSaving state)
      { x with request := x.request.beginSaving } view (p.save x view state).result
      (p.save x view state).exchange.store :=
  p.touch_saveThrough (p.encodingOf state) x view

theorem store_read (x : Exchange) (view : String) (posted : Option String) :
    (p.read x view posted).2.store = x.store := by
  cases posted with
  | none => rfl
  | some raw => exact p.store_restore x view raw

section

variable {p} {encoded : Except Failure (List UInt8)} {x : Exchange} {view : String}
  {result : Except Failure Saved} {s : Store}

theorem Touch.of_error (h : p.Touch encoded x view result s) {e : Failure}
    (hresult : result = .error e) : s = x.store := by
  cases h with
  | failed _ => rfl
  | sent => cases hresult
  | stored => cases hresult

theorem Touch.of_client (h : p.Touch encoded x view result s) (hclient : x.mode.1 = .client) :
    s = x.store := by
  cases h with
  | failed _ => rfl
  | sent _ _ => rfl
  | stored hserver => cases hserver.symm.trans hclient

theorem Touch.of_server (h : p.Touch encoded x view result s) {saved : Saved}
    (hresult : result = .ok saved) (hserver : x.mode.1 = .server) :
    ∃ bytes ticket, encoded = .ok bytes ∧ saved = .ticket (ticket.encode p.hash) ∧
      x.store.insert x.request.session ⟨view, bytes⟩ p.retention.views = (.ok ticket, s) := by
  cases h with
  | failed _ => cases hresult
  | sent hclient _ => cases hclient.symm.trans hserver
  | stored _ hbytes _ hinsert =>
    cases hresult
    exact ⟨_, _, hbytes, rfl, hinsert⟩

end

/-- The store is touched by saving only, and only by a save for a request that keeps views on the
server, if it does not fail: that is one insertion in the session of the request. If the encoding
works on the store itself, this holds of the store that it leaves. -/
theorem touched_by_tickets_only (x : Exchange) (view : String) (state : σ) :
    (∀ e, (p.save x view state).result = .error e →
        (p.save x view state).exchange.store = x.store) ∧
      (x.mode.1 = .client → (p.save x view state).exchange.store = x.store) ∧
      (∀ raw, (p.restore x view raw).2.store = x.store) ∧
      (∀ posted, (p.read x view posted).2.store = x.store) ∧
      (∀ saved, (p.save x view state).result = .ok saved → x.mode.1 = .server →
        ∃ bytes ticket, p.codec.encode x.request.beginSaving state = .ok bytes ∧
          saved = .ticket (ticket.encode p.hash) ∧
          x.store.insert x.request.session ⟨view, bytes⟩ p.retention.views =
            (.ok ticket, (p.save x view state).exchange.store)) ∧
      ∀ encoding : Encoding, ∃ encoded y,
        encoding { x with request := x.request.beginSaving } = (encoded, y) ∧
        (∀ e, (p.saveThrough encoding x view).1 = .error e →
          (p.saveThrough encoding x view).2.store = y.store) ∧
        (y.mode.1 = .client → (p.saveThrough encoding x view).2.store = y.store) ∧
        ∀ saved, (p.saveThrough encoding x view).1 = .ok saved → y.mode.1 = .server →
          ∃ bytes ticket, encoded = .ok bytes ∧ saved = .ticket (ticket.encode p.hash) ∧
            y.store.insert y.request.session ⟨view, bytes⟩ p.retention.views =
              (.ok ticket, (p.saveThrough encoding x view).2.store) := by
  have hmode : ({ x with request := x.request.beginSaving } : Exchange).mode.1 = x.mode.1 :=
    Request.mode_beginSaving x.request x.provider
  have htouch := p.touch_save x view state
  refine ⟨fun e he => htouch.of_error he, fun hclient => htouch.of_client (hmode.trans hclient),
    p.store_restore x view, p.store_read x view,
    fun saved hsaved hserver => htouch.of_server hsaved (hmode.trans hserver),
    fun encoding => ⟨_, _, rfl, ?_⟩⟩
  have hthrough := p.touch_saveThrough encoding x view
  exact ⟨fun e he => hthrough.of_error he, hthrough.of_client,
    fun saved hsaved hserver => hthrough.of_server hsaved hserver⟩

/-- The one view that a session keeps outlives a save that fails and gives way to one that does
not. It gives way to one saved in the course of an encoding that fails, too. -/
theorem touched_by_tickets_only_unencodable :
    let codec : StateCodec (Option UInt8) :=
      ⟨fun _ byte => (byte.map ([·])).elim (.error (.unencodable "no byte")) .ok,
        fun bytes => .ok bytes.head?⟩
    let p : Persistence (Option UInt8) := ⟨Blake3.hash, codec, ⟨1, none⟩⟩
    let s : Store := .memory (MemoryStore.empty.insert "session-1" ⟨"/home.xhtml", [1]⟩ 1).2
    let x : Exchange := ⟨s, Request.new "session-1", .ofLookup fun _ => none⟩
    let encoding : Encoding := fun y =>
      (.error (.unencodable "no byte"), (p.save y "/part.xhtml" (some 3)).exchange)
    (p.save x "/cart.xhtml" none).exchange.store.tickets "session-1" =
        .ok [⟨"/home.xhtml", 1⟩] ∧
      (p.save x "/cart.xhtml" (some 2)).exchange.store.tickets "session-1" =
        .ok [⟨"/cart.xhtml", 2⟩] ∧
      (p.saveThrough encoding x "/cart.xhtml").2.store.tickets "session-1" =
        .ok [⟨"/part.xhtml", 2⟩] := by
  intro codec p s x encoding
  have hstored (saving : Bool) (view : String) (byte : UInt8) :
      (s.insert "session-1" ⟨view, [byte]⟩ 1).2 =
        (p.save { x with request := { x.request with saving } } view
          (some byte)).exchange.store := by
    obtain ⟨-, -, -, -, hserver, -⟩ := p.touched_by_tickets_only
      { x with request := { x.request with saving } } view (some byte)
    obtain ⟨bytes, ticket, hbytes, -, hinsert⟩ := hserver _ rfl rfl
    cases hbytes
    exact congrArg Prod.snd hinsert
  obtain ⟨hfailing, -, -, -, -, hthrough⟩ := p.touched_by_tickets_only x "/cart.xhtml" none
  obtain ⟨encoded, y, hencoding, herror, -⟩ := hthrough encoding
  refine ⟨?_, ?_, ?_⟩
  · rw [hfailing (.unencodable "no byte") rfl]
    rfl
  · exact congrArg (Store.tickets · "session-1") (hstored false "/cart.xhtml" 2).symm
  · cases hencoding
    rw [herror (.unencodable "no byte") rfl]
    exact congrArg (Store.tickets · "session-1") (hstored true "/part.xhtml" 3).symm

/-- The call hands out a ticket or drops views. -/
def touches (s : Store) : Call σ → Bool
  | .save request provider view state =>
    (p.output s (.save request provider view state)).any Saved.isTicket
  | .restore .. => false
  | .invalidateSession _ | .invalidateView .. => true

def effective (s : Store) : List (Call σ) → List (Call σ)
  | [] => []
  | c :: calls =>
    if p.touches s c then c :: effective (p.after s c) calls else effective s calls

theorem after_of_not_touches {s : Store} {c : Call σ} (h : p.touches s c = false) :
    p.after s c = s := by
  cases c with
  | save request provider view state =>
    have htouch := p.touch_save ⟨s, request, provider⟩ view state
    have hout : (p.save ⟨s, request, provider⟩ view state).result.toOption.any Saved.isTicket =
        false := h
    show (p.save ⟨s, request, provider⟩ view state).exchange.store = s
    generalize (p.save ⟨s, request, provider⟩ view state).result = result,
      (p.save ⟨s, request, provider⟩ view state).exchange.store = s' at htouch hout ⊢
    cases htouch with
    | failed e => rfl
    | sent _ text => rfl
    | stored => cases hout
  | restore request provider view raw => exact p.store_restore _ view raw
  | invalidateSession session => cases h
  | invalidateView session view => cases h

theorem tickets_output (s : Store) (c : Call σ) :
    (p.output s c).toList.filter Saved.isTicket =
      if p.touches s c then (p.output s c).toList else [] := by
  have hfilter (out : Option Saved) : out.toList.filter Saved.isTicket =
      if out.any Saved.isTicket then out.toList else [] := by
    rcases out with _ | ⟨text⟩ | ⟨text⟩ <;> rfl
  cases c with
  | save request provider view state => exact hfilter _
  | restore request provider view raw => rfl
  | invalidateSession session => rfl
  | invalidateView session view => rfl

/-- Calls that touch nothing can be left out of a run: it comes to the same store by way of the same
tickets. -/
theorem run_effective (s : Store) (calls : List (Call σ)) :
    p.run s (p.effective s calls) = p.run s calls ∧
      p.outputs s (p.effective s calls) = (p.outputs s calls).filter Saved.isTicket := by
  induction calls generalizing s with
  | nil => exact ⟨rfl, rfl⟩
  | cons c calls ih =>
    obtain ⟨hrun, houtputs⟩ := ih (p.after s c)
    have hsplit : (p.outputs s (c :: calls)).filter Saved.isTicket =
        (p.output s c).toList.filter Saved.isTicket ++
          (p.outputs (p.after s c) calls).filter Saved.isTicket :=
      List.filter_append _ _
    rw [hsplit, tickets_output, effective]
    cases htouches : p.touches s c with
    | true => exact ⟨hrun, congrArg ((p.output s c).toList ++ ·) houtputs⟩
    | false =>
      rw [p.after_of_not_touches htouches] at hrun houtputs ⊢
      refine ⟨hrun.trans ?_, houtputs⟩
      exact congrArg (calls.foldl p.after) (p.after_of_not_touches htouches).symm

end Persistence

end ViewState
