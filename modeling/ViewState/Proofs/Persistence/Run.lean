import ViewState.Persistence
import ViewState.Proofs.Store.Basic
import ViewState.Proofs.Ticket

/-!
Runs of calls on one store, by any number of requests in any order. What a call can do is said once,
as a step of the store in memory that the store represents; what holds over whole runs follows from
the steps.
-/
namespace ViewState

namespace Request

variable (r : Request) (provider : Settings.Provider)

@[simp] theorem session_beginSaving : r.beginSaving.session = r.session := rfl

@[simp] theorem mode_beginSaving : (r.beginSaving.mode provider).1 = (r.mode provider).1 := by
  rw [mode, mode, beginSaving]
  cases r.settled with
  | none => rfl
  | some mode => rfl

@[simp] theorem session_mode : (r.mode provider).2.1.session = r.session := by
  rw [mode]
  cases r.settled with
  | none => rfl
  | some mode => rfl

/-- Once asked for, the mode is settled. -/
@[simp] theorem settled_mode : (r.mode provider).2.1.settled = some (r.mode provider).1 := by
  rw [mode]
  cases hsettled : r.settled with
  | none => rfl
  | some mode => exact hsettled

theorem mode_of_settled {r : Request} {mode : Settings.Mode} (h : r.settled = some mode)
    (provider : Settings.Provider) : r.mode provider = (mode, r, provider) := by
  rw [Request.mode, h]

end Request

/-- A state comes back from its bytes, whatever request they were encoded for. -/
def StateCodec.Inverts {σ : Type} (codec : StateCodec σ) (state : σ) : Prop :=
  ∀ request bytes, codec.encode request state = .ok bytes → codec.decode bytes = .ok state

/-- A call of the persistence of views; saving and restoring belong to a request. -/
inductive Call (σ : Type)
  | save (request : Request) (provider : Settings.Provider) (view : String) (state : σ)
  | restore (request : Request) (provider : Settings.Provider) (view raw : String)
  | invalidateSession (session : String)
  | invalidateView (session view : String)

namespace Call

variable {σ : Type}

/-- The request of the call, if it has one, keeps views on the server. -/
def OnServer : Call σ → Prop
  | save request provider _ _ => (request.mode provider).1 = .server
  | restore request provider _ _ => (request.mode provider).1 = .server
  | _ => True

def state? : Call σ → Option σ
  | save _ _ _ state => some state
  | _ => none

def SavesIn (session : String) : Call σ → Prop
  | save request _ _ _ => request.session = session
  | _ => False

def Drops (session view : String) : Call σ → Prop
  | invalidateSession session' => session' = session
  | invalidateView session' view' => session' = session ∧ view' = view
  | _ => False

end Call

namespace Persistence

variable {σ : Type} (p : Persistence σ)

def after (s : Store) : Call σ → Store
  | .save request provider view state => (p.save ⟨s, request, provider⟩ view state).exchange.store
  | .restore request provider view raw => (p.restore ⟨s, request, provider⟩ view raw).2.store
  | .invalidateSession session => (s.invalidateSession session).2
  | .invalidateView session view => (s.invalidateView session view).2

/-- What a call hands out, if it saves a view and does not fail. -/
def output (s : Store) : Call σ → Option Saved
  | .save request provider view state =>
    (p.save ⟨s, request, provider⟩ view state).result.toOption
  | _ => none

def run (s : Store) (calls : List (Call σ)) : Store := calls.foldl p.after s

def outputs (s : Store) : List (Call σ) → List Saved
  | [] => []
  | c :: calls => (p.output s c).toList ++ outputs (p.after s c) calls

theorem run_append (s : Store) (calls later : List (Call σ)) :
    p.run s (calls ++ later) = p.run (p.run s calls) later :=
  List.foldl_append

/-- What saving can come to: a result, and what it leaves behind. -/
inductive SaveOutcome (x : Exchange) (m : MemoryStore) (view : String) (state : σ) :
    Except Failure Saved → Exchange → Prop
  | failed {x' : Exchange} (e : Failure) (hstore : x'.store = x.store) :
      SaveOutcome x m view state (.error e) x'
  | sent {x' : Exchange} {bytes : List UInt8} {text : String} (hmode : x.mode.1 = .client)
      (hsettled : x'.request.settled = some .client) (hstore : x'.store = x.store)
      (hbytes : p.codec.encode x.request.beginSaving state = .ok bytes)
      (hlimit : bytes.length ≤ Envelope.limit)
      (hpack : Envelope.pack p.hash p.retention.key ⟨view, bytes⟩ = .ok text) :
      SaveOutcome x m view state (.ok (.payload text)) x'
  | stored {x' : Exchange} {bytes : List UInt8} (hmode : x.mode.1 = .server)
      (hsettled : x'.request.settled = some .server)
      (hsession : x'.request.session = x.request.session)
      (hbytes : p.codec.encode x.request.beginSaving state = .ok bytes)
      (hlimit : bytes.length ≤ Envelope.limit)
      (hstore : x'.store.Represents
        (m.insert x.request.session ⟨view, bytes⟩ p.retention.views).2) :
      SaveOutcome x m view state
        (.ok (.ticket (Ticket.encode p.hash ⟨view, Word.next m.sequence⟩))) x'

section Mode

variable {x : Exchange}

theorem keep_client (hmode : x.mode.1 = .client) (saved : SavedView) :
    p.keep x saved = ((Envelope.pack p.hash p.retention.key saved).map .payload, x.mode.2) := by
  unfold keep
  rw [show x.mode = (.client, x.mode.2) from Prod.ext hmode rfl]

theorem keep_server (hmode : x.mode.1 = .server) (saved : SavedView) :
    p.keep x saved =
      let inserted := x.store.insert x.request.session saved p.retention.views
      (inserted.1.map fun t => .ticket (t.encode p.hash),
        { x.mode.2 with store := inserted.2 }) := by
  have hstore : x.mode.2.store = x.store := rfl
  have hsession : x.mode.2.request.session = x.request.session :=
    Request.session_mode x.request x.provider
  rw [← hstore, ← hsession]
  unfold keep
  rw [show x.mode = (.server, x.mode.2) from Prod.ext hmode rfl]

theorem restore_client (hmode : x.mode.1 = .client) (view raw : String) :
    (p.restore x view raw).1 =
      (Envelope.unpack p.hash p.retention.key view raw).bind
        fun bytes => bytes.mapM p.codec.decode := by
  unfold restore
  rw [show x.mode = (.client, x.mode.2) from Prod.ext hmode rfl]

theorem restore_server (hmode : x.mode.1 = .server) (view raw : String) :
    (p.restore x view raw).1 =
      (p.lookup x view raw).bind fun bytes => bytes.mapM p.codec.decode := by
  have hlookup : p.lookup x.mode.2 view raw = p.lookup x view raw := by
    have hsession : x.mode.2.request.session = x.request.session :=
      Request.session_mode x.request x.provider
    unfold lookup
    rw [hsession]
    rfl
  rw [← hlookup]
  unfold restore
  rw [show x.mode = (.server, x.mode.2) from Prod.ext hmode rfl]

end Mode

theorem store_restore (x : Exchange) (view raw : String) :
    (p.restore x view raw).2.store = x.store := by
  have hstore : x.mode.2.store = x.store := rfl
  rw [← hstore]
  unfold restore
  cases hmode : x.mode.1 with
  | client => rw [show x.mode = (.client, x.mode.2) from Prod.ext hmode rfl]
  | server => rw [show x.mode = (.server, x.mode.2) from Prod.ext hmode rfl]

theorem save_outcome {x : Exchange} {m : MemoryStore} (h : x.store.Represents m) (view : String)
    (state : σ) :
    p.SaveOutcome x m view state (p.save x view state).result (p.save x view state).exchange := by
  have hmode : (Exchange.mode { x with request := x.request.beginSaving }).1 = x.mode.1 :=
    Request.mode_beginSaving x.request x.provider
  have hsettled : (x.request.beginSaving.mode x.provider).2.1.settled = some x.mode.1 := by
    rw [Request.settled_mode, Request.mode_beginSaving]
    rfl
  cases hbytes : p.codec.encode x.request.beginSaving state with
  | error e =>
    simp only [save, hbytes]
    exact .failed e rfl
  | ok bytes =>
    simp only [save, hbytes]
    by_cases hlimit : Envelope.limit < bytes.length
    · rw [if_pos hlimit]
      exact .failed _ rfl
    · rw [if_neg hlimit]
      cases hx : x.mode.1 with
      | client =>
        rw [p.keep_client (hmode.trans hx)]
        cases hpack : Envelope.pack p.hash p.retention.key ⟨view, bytes⟩ with
        | error e => exact .failed e rfl
        | ok text => exact .sent hx (hx ▸ hsettled) rfl hbytes (Nat.not_lt.1 hlimit) hpack
      | server =>
        rw [p.keep_server (hmode.trans hx)]
        rcases h.insert_cases x.request.session ⟨view, bytes⟩ p.retention.views with
          ⟨hticket, hafter⟩ | ⟨e, he⟩
        · simp only [Request.session_beginSaving, hticket]
          exact .stored hx (hx ▸ hsettled) (Request.session_mode _ _) hbytes (Nat.not_lt.1 hlimit)
            hafter
        · simp only [Request.session_beginSaving, he]
          exact .failed e rfl

/-- What a call does to a store in memory, and what it hands out. -/
inductive Step : MemoryStore → Call σ → Option Saved → MemoryStore → Prop
  | idle {m : MemoryStore} {c : Call σ} {out : Option Saved}
      (hdrops : ∀ session view, ¬ c.Drops session view) (hout : c.OnServer → out = none) :
      Step m c out m
  | saved {m : MemoryStore} {request : Request} {provider : Settings.Provider} {view : String}
      {state : σ} {bytes : List UInt8}
      (hbytes : p.codec.encode request.beginSaving state = .ok bytes)
      (hlimit : bytes.length ≤ Envelope.limit) :
      Step m (.save request provider view state)
        (some (.ticket (Ticket.encode p.hash ⟨view, Word.next m.sequence⟩)))
        (m.insert request.session ⟨view, bytes⟩ p.retention.views).2
  | sessionDropped (m : MemoryStore) (session : String) :
      Step m (.invalidateSession session) none (m.invalidateSession session).2
  | viewDropped (m : MemoryStore) (session view : String) :
      Step m (.invalidateView session view) none (m.invalidateView session view).2

theorem step_after {s : Store} {m : MemoryStore} (h : s.Represents m) (c : Call σ) :
    ∃ m', p.Step m c (p.output s c) m' ∧ (p.after s c).Represents m' := by
  cases c with
  | save request provider view state =>
    have hsave := p.save_outcome (x := ⟨s, request, provider⟩) h view state
    show ∃ m', p.Step m _ (p.save ⟨s, request, provider⟩ view state).result.toOption m' ∧
      (p.save ⟨s, request, provider⟩ view state).exchange.store.Represents m'
    generalize (p.save ⟨s, request, provider⟩ view state).result = result,
      (p.save ⟨s, request, provider⟩ view state).exchange = x' at hsave ⊢
    cases hsave with
    | failed e hstore => exact ⟨m, .idle (fun _ _ hdrops => hdrops) fun _ => rfl, hstore ▸ h⟩
    | sent hmode _ hstore =>
      refine ⟨m, .idle (fun _ _ hdrops => hdrops) fun hserver => ?_, hstore ▸ h⟩
      cases hmode.symm.trans hserver
    | stored _ _ _ hbytes hlimit hstore => exact ⟨_, .saved hbytes hlimit, hstore⟩
  | restore request provider view raw =>
    refine ⟨m, .idle (fun _ _ hdrops => hdrops) fun _ => rfl, ?_⟩
    show (p.restore ⟨s, request, provider⟩ view raw).2.store.Represents m
    rwa [store_restore]
  | invalidateSession session =>
    exact ⟨_, .sessionDropped m session, (h.invalidateSession session).2⟩
  | invalidateView session view =>
    exact ⟨_, .viewDropped m session view, (h.invalidateView session view).2⟩

/-- The text of a ticket leads to the entry of its number, under views of the same digest only. -/
theorem lookup_encode {s : Store} {m : MemoryStore} (h : s.Represents m) (request : Request)
    (provider : Settings.Provider) (t : Ticket) (view : String) :
    p.lookup ⟨s, request, provider⟩ view (t.encode p.hash) =
      .ok (if viewDigest p.hash t.view = viewDigest p.hash view
        then m.get request.session ⟨view, t.sequence⟩ else none) := by
  unfold lookup
  rw [Ticket.parse_encode, Option.bind_some, Ticket.forView_posted]
  by_cases hdigest : viewDigest p.hash t.view = viewDigest p.hash view
  · rw [if_pos hdigest, if_pos hdigest]
    exact h.get request.session _
  · rw [if_neg hdigest, if_neg hdigest]

theorem restore_encode {s : Store} {m : MemoryStore} (h : s.Represents m) {request : Request}
    {provider : Settings.Provider} (hmode : (request.mode provider).1 = .server) (t : Ticket)
    (view : String) :
    (p.restore ⟨s, request, provider⟩ view (t.encode p.hash)).1 =
      (if viewDigest p.hash t.view = viewDigest p.hash view
        then m.get request.session ⟨view, t.sequence⟩ else none).mapM p.codec.decode := by
  rw [p.restore_server (x := ⟨s, request, provider⟩) hmode, p.lookup_encode h]
  rfl

end Persistence

end ViewState
