import ViewState.Envelope
import ViewState.Node.Wire
import ViewState.Request
import ViewState.Store.Basic

/-!
Saving the state of a view at the end of a request and restoring it in a later one. In client mode
the state goes out in an envelope; in server mode it stays in the store and a ticket goes out. A
ticket that leads nowhere is no failure: there is nothing to restore then.
-/
namespace ViewState

/-- How states become bytes and come back. Encoding sees the request that it works for. -/
structure StateCodec (σ : Type) where
  encode : Request → σ → Except Failure (List UInt8)
  decode : List UInt8 → Except Failure σ

def Node.codec : StateCodec Node where
  encode _ n := .ok n.toWire
  decode bytes := (Node.read.first bytes).mapError (.malformed ∘ .state)

inductive Saved
  | payload (text : String)
  | ticket (text : String)
deriving DecidableEq

def Saved.text : Saved → String
  | payload text => text
  | ticket text => text

structure Retention where
  views : Nat
  key : Option Digest
deriving DecidableEq

namespace Retention

def defaultViews : Nat := 20

def standard : Retention := ⟨defaultViews, none⟩

/-- At least one view is kept, and an empty secret makes no key. -/
def ofSettings (h : Hash) (lookup : Settings.Lookup) : Retention where
  views := max 1 (Settings.readSize lookup Settings.Key.viewsInSession.name defaultViews)
  key := ((lookup Settings.Key.clientSecret.name).filter fun secret => !secret.isEmpty).map
    (Envelope.keyOf h)

end Retention

structure Persistence (σ : Type) where
  hash : Hash
  codec : StateCodec σ
  retention : Retention

structure Exchange where
  store : Store
  request : Request
  provider : Settings.Provider

namespace Exchange

def mode (x : Exchange) : Settings.Mode × Exchange :=
  let (mode, request, provider) := x.request.mode x.provider
  (mode, { x with request, provider })

end Exchange

/-- The result of saving, what it was saved on, and the request as the codec saw it. -/
structure Saving where
  result : Except Failure Saved
  exchange : Exchange
  seen : Request

namespace Persistence

variable {σ : Type}

def keep (p : Persistence σ) (x : Exchange) (saved : SavedView) : Except Failure Saved × Exchange :=
  match x.mode with
  | (.client, x) => ((Envelope.pack p.hash p.retention.key saved).map .payload, x)
  | (.server, x) =>
    let (ticket, store) := x.store.insert x.request.session saved p.retention.views
    (ticket.map fun t => .ticket (t.encode p.hash), { x with store })

/-- Saves the state of a view. The request says so while this lasts. -/
def save (p : Persistence σ) (x : Exchange) (view : String) (state : σ) : Saving :=
  let seen := x.request.beginSaving
  let x := { x with request := seen }
  let (result, x) : Except Failure Saved × Exchange :=
    match p.codec.encode seen state with
    | .error e => (.error e, x)
    | .ok bytes =>
      if Envelope.limit < bytes.length then (.error (.tooLarge bytes.length Envelope.limit), x)
      else p.keep x ⟨view, bytes⟩
  ⟨result, { x with request := x.request.endSaving }, seen⟩

/-- The bytes that the store holds for the text of a ticket. -/
def lookup (p : Persistence σ) (x : Exchange) (view raw : String) :
    Except Failure (Option (List UInt8)) :=
  match (PostedTicket.parse raw).bind fun t => t.forView p.hash view with
  | none => .ok none
  | some ticket => x.store.get x.request.session ticket

def restore (p : Persistence σ) (x : Exchange) (view raw : String) :
    Except Failure (Option σ) × Exchange :=
  let (bytes, x) := match x.mode with
    | (.client, x) => (Envelope.unpack p.hash p.retention.key view raw, x)
    | (.server, x) => (p.lookup x view raw, x)
  (bytes.bind fun bytes => bytes.mapM p.codec.decode, x)

/-- Saves the state of a view and hands the result on. -/
def write (p : Persistence σ) (x : Exchange) (view : String) (state : σ)
    (sink : Saved → Except Failure Unit) : Saving :=
  let saving := p.save x view state
  { saving with result := saving.result.bind fun saved => (sink saved).map fun _ => saved }

def read (p : Persistence σ) (x : Exchange) (view : String) (posted : Option String) :
    Except Failure (Option σ) × Exchange :=
  match posted with
  | some raw => p.restore x view raw
  | none => (.ok none, x)

end Persistence

end ViewState
