import ViewState.Hash.Blake3
import ViewState.Proofs.Persistence.Run

/-!
The one mode of a request. It is looked up by the first call that needs it, and a save needs it only
once its bytes are there and are not too many. Whatever the settings answer then or later, all calls
for the request come to what they come to in the mode of that first answer.
-/
namespace ViewState

namespace Settings

theorem Mode.ofText_some_eq_client_iff (text : String) :
    ofText (some text) = .client ↔ sameLetters (Text.trim text) client.name := by
  have hserver : (([server].find? fun mode => sameLetters (Text.trim text) mode.name).getD
      server) ≠ client := by
    rw [List.find?_cons]
    split <;> simp
  rw [ofText, Option.bind_some, parse, List.find?_cons]
  cases hclient : sameLetters (Text.trim text) client.name with
  | true => exact iff_of_true rfl rfl
  | false => exact iff_of_false hserver Bool.false_ne_true

/-- White space has no case, so it cannot stand for a letter. -/
theorem not_isBlank_of_sameLetters {s t : String} (hsame : sameLetters s t)
    (hletters : ∀ c ∈ Text.blanks, c.toLower ∉ t.toList.map Char.toLower) :
    ∀ c ∈ s.toList, Text.isBlank c = false := by
  intro c hc
  have hletter : c.toLower ∈ t.toList.map Char.toLower := by
    rw [← of_decide_eq_true hsame]
    exact List.mem_map_of_mem hc
  rw [Bool.eq_false_iff, Text.isBlank, ne_eq, List.contains_iff_mem]
  exact fun hmem => hletters c hmem hletter

/-- The setting selects the client exactly if it spells that name: white space around it does not
count, nor does the case of its letters. Whatever else it is selects the server. -/
theorem Mode.ofText_eq_client_iff (raw : Option String) :
    ofText raw = .client ↔ ∃ before name after : String, sameLetters name "client" ∧
      (∀ c ∈ before.toList, Text.isBlank c) ∧ (∀ c ∈ after.toList, Text.isBlank c) ∧
      raw = some (before ++ name ++ after) := by
  constructor
  · intro hclient
    cases raw with
    | none => cases hclient
    | some text =>
      obtain ⟨before, after, hbefore, hafter, htext⟩ := Text.exists_trim text
      exact ⟨before, Text.trim text, after, (ofText_some_eq_client_iff text).1 hclient, hbefore,
        hafter, congrArg some htext⟩
  · rintro ⟨before, name, after, hname, hbefore, hafter, rfl⟩
    have hblank := not_isBlank_of_sameLetters hname (by simp [Text.blanks])
    rw [ofText_some_eq_client_iff, Text.trim_between hbefore hafter, Text.trim_eq_self hblank]
    exact hname

end Settings

theorem Request.provider_beginSaving (r : Request) (provider : Settings.Provider) :
    (r.beginSaving.mode provider).2.2 = (r.mode provider).2.2 := by
  rw [mode, mode, beginSaving]
  cases r.settled with
  | none => rfl
  | some mode => rfl

inductive Turn (σ : Type)
  | mode
  | save (view : String) (state : σ)
  | restore (view raw : String)
  /-- Others have worked on the store. -/
  | meanwhile (store : Store)

inductive Report (σ : Type)
  | mode (mode : Settings.Mode)
  | saved (result : Except Failure Saved)
  | restored (result : Except Failure (Option σ))
  | nothing

def Saved.mode : Saved → Settings.Mode
  | payload _ => .client
  | ticket _ => .server

def Exchange.answering (x : Exchange) (lookup : Settings.Lookup) : Exchange :=
  { x with provider := { x.provider with lookup } }

theorem Exchange.mode_of_settled {x : Exchange} {mode : Settings.Mode}
    (h : x.request.settled = some mode) : x.mode = (mode, x) := by
  rw [Exchange.mode, Request.mode_of_settled h]

theorem Exchange.mode_of_unsettled {x : Exchange} (h : x.request.settled = none) :
    x.mode = (.ofText (x.provider.lookup Settings.Key.stateSaving.name),
      { x with
        request := { x.request with
          settled := some (.ofText (x.provider.lookup Settings.Key.stateSaving.name)) },
        provider := { x.provider with reads := x.provider.reads + 1 } }) := by
  rw [Exchange.mode, Request.mode, h]
  rfl

namespace Persistence

variable {σ : Type} (p : Persistence σ)

def turn (x : Exchange) : Turn σ → Report σ × Exchange
  | .mode => (.mode x.mode.1, x.mode.2)
  | .save view state => (.saved (p.save x view state).result, (p.save x view state).exchange)
  | .restore view raw => (.restored (p.restore x view raw).1, (p.restore x view raw).2)
  | .meanwhile store => (.nothing, { x with store })

def encoded (x : Exchange) (state : σ) : Except Failure (List UInt8) :=
  (p.codec.encode x.request.beginSaving state).bind fun bytes =>
    if Envelope.limit < bytes.length then .error (.tooLarge bytes.length Envelope.limit)
    else .ok bytes

def keepIn (mode : Settings.Mode) (x : Exchange) (saved : SavedView) :
    Except Failure Saved × Store :=
  match mode with
  | .client => ((Envelope.pack p.hash p.retention.key saved).map .payload, x.store)
  | .server =>
    let (ticket, store) := x.store.insert x.request.session saved p.retention.views
    (ticket.map fun t => .ticket (t.encode p.hash), store)

/-- Takes a text as a mode says: for a payload, or for a ticket of the session. -/
def restoreIn (mode : Settings.Mode) (x : Exchange) (view raw : String) :
    Except Failure (Option σ) :=
  let bytes := match mode with
    | .client => Envelope.unpack p.hash p.retention.key view raw
    | .server => p.lookup x view raw
  bytes.bind fun bytes => bytes.mapM p.codec.decode

/-- What a turn hands out, and the store after it, in a given mode. The settings have no part in
it. -/
def turnIn (mode : Settings.Mode) (x : Exchange) : Turn σ → Report σ × Store
  | .mode => (.mode mode, x.store)
  | .save view state =>
    match p.encoded x state with
    | .error e => (.saved (.error e), x.store)
    | .ok bytes => (p.keepIn mode x ⟨view, bytes⟩).map .saved id
  | .restore view raw => (.restored (p.restoreIn mode x view raw), x.store)
  | .meanwhile store => (.nothing, store)

def ActsIn (mode : Settings.Mode) (x : Exchange) (t : Turn σ) : Prop :=
  (p.turn x t).1 = (p.turnIn mode x t).1 ∧ (p.turn x t).2.store = (p.turnIn mode x t).2

def asks (x : Exchange) : Turn σ → Bool
  | .mode | .restore .. => true
  | .save _ state => (p.encoded x state).isOk
  | .meanwhile _ => false

theorem save_eq (x : Exchange) (view : String) (state : σ) :
    ((p.save x view state).result, (p.save x view state).exchange) =
      match p.encoded x state with
      | .error e => (.error e, { x with request := x.request.beginSaving.endSaving })
      | .ok bytes =>
        let kept := p.keep { x with request := x.request.beginSaving } ⟨view, bytes⟩
        (kept.1, { kept.2 with request := kept.2.request.endSaving }) := by
  cases hbytes : p.codec.encode x.request.beginSaving state with
  | error e =>
    simp only [save, encoded, hbytes]
    rfl
  | ok bytes =>
    simp only [save, encoded, hbytes, Except.bind]
    by_cases hlimit : Envelope.limit < bytes.length
    · simp only [if_pos hlimit]
    · simp only [if_neg hlimit]

theorem keep_eq (x : Exchange) (saved : SavedView) :
    p.keep x saved = ((p.keepIn x.mode.1 x saved).1,
      { x.mode.2 with store := (p.keepIn x.mode.1 x saved).2 }) := by
  cases hmode : x.mode.1 with
  | client => rw [p.keep_client hmode]; rfl
  | server => rw [p.keep_server hmode]; rfl

theorem restore_eq (x : Exchange) (view raw : String) :
    p.restore x view raw = (p.restoreIn x.mode.1 x view raw, x.mode.2) := by
  have hafter : (p.restore x view raw).2 = x.mode.2 := by
    unfold restore
    cases hmode : x.mode.1 with
    | client => rw [show x.mode = (.client, x.mode.2) from Prod.ext hmode rfl]
    | server => rw [show x.mode = (.server, x.mode.2) from Prod.ext hmode rfl]
  refine Prod.ext ?_ hafter
  cases hmode : x.mode.1 with
  | client => exact p.restore_client hmode view raw
  | server => exact p.restore_server hmode view raw

variable {p} {x : Exchange} {t : Turn σ}

/-- A turn that needs the mode settles it, and acts in it. -/
theorem turn_of_asks (h : p.asks x t = true) :
    p.ActsIn x.mode.1 x t ∧ (p.turn x t).2.request.settled = some x.mode.1 ∧
      (p.turn x t).2.provider = x.mode.2.provider := by
  have hsettled : x.mode.2.request.settled = some x.mode.1 :=
    Request.settled_mode x.request x.provider
  cases t with
  | mode => exact ⟨⟨rfl, rfl⟩, hsettled, rfl⟩
  | save view state =>
    cases hbytes : p.encoded x state with
    | error e =>
      simp only [asks, hbytes] at h
      cases h
    | ok bytes =>
      have hmode : (Exchange.mode { x with request := x.request.beginSaving }).1 = x.mode.1 :=
        Request.mode_beginSaving x.request x.provider
      have hprovider : (Exchange.mode { x with request := x.request.beginSaving }).2.provider =
          x.mode.2.provider := Request.provider_beginSaving x.request x.provider
      have hsave := p.save_eq x view state
      rw [hbytes] at hsave
      simp only [p.keep_eq, hmode] at hsave
      obtain ⟨hresult, hexchange⟩ := Prod.mk.inj hsave
      simp only [ActsIn, turn, turnIn, hbytes, hresult, hexchange]
      refine ⟨⟨rfl, rfl⟩, ?_, hprovider⟩
      exact (Request.settled_mode _ _).trans (congrArg some hmode)
  | restore view raw =>
    rw [ActsIn, turn, p.restore_eq]
    exact ⟨⟨rfl, rfl⟩, hsettled, rfl⟩
  | meanwhile store => cases h

/-- Any other turn acts alike in all modes, and settles nothing. -/
theorem turn_of_not_asks (h : p.asks x t = false) :
    (∀ mode, p.ActsIn mode x t) ∧ (p.turn x t).2.request.settled = x.request.settled ∧
      (p.turn x t).2.provider = x.provider := by
  cases t with
  | mode => cases h
  | save view state =>
    cases hbytes : p.encoded x state with
    | error e =>
      have hsave := p.save_eq x view state
      rw [hbytes] at hsave
      obtain ⟨hresult, hexchange⟩ := Prod.mk.inj hsave
      simp only [ActsIn, turn, turnIn, hbytes, hresult, hexchange]
      exact ⟨fun _ => ⟨trivial, trivial⟩, rfl, trivial⟩
    | ok bytes =>
      simp only [asks, hbytes] at h
      cases h
  | restore view raw => cases h
  | meanwhile store => exact ⟨fun _ => ⟨rfl, rfl⟩, rfl, rfl⟩

theorem restoreIn_ticket {m : MemoryStore} (h : x.store.Represents m) (t : Ticket) :
    p.restoreIn .server x t.view (t.encode p.hash) =
      (m.get x.request.session t).mapM p.codec.decode := by
  unfold restoreIn
  simp only [p.lookup_encode h x.request x.provider t t.view, if_pos]
  rfl

theorem mode_of_keepIn {mode : Settings.Mode} {saved : SavedView} {out : Saved}
    (h : (p.keepIn mode x saved).1 = .ok out) : out.mode = mode := by
  cases mode with
  | client =>
    rw [keepIn] at h
    cases hpack : Envelope.pack p.hash p.retention.key saved with
    | error e =>
      rw [hpack] at h
      cases h
    | ok text =>
      rw [hpack] at h
      cases h
      rfl
  | server =>
    rw [keepIn] at h
    cases hinsert : (x.store.insert x.request.session saved p.retention.views).1 with
    | error e =>
      simp only [hinsert] at h
      cases h
    | ok ticket =>
      simp only [hinsert] at h
      cases h
      rfl

theorem ActsIn.mode_of_saved {mode : Settings.Mode} {view : String} {state : σ} {saved : Saved}
    (h : p.ActsIn mode x (.save view state))
    (hsaved : (p.turn x (.save view state)).1 = .saved (.ok saved)) : saved.mode = mode := by
  have hreport := hsaved.symm.trans h.1
  rw [turnIn] at hreport
  cases hbytes : p.encoded x state with
  | error e =>
    rw [hbytes] at hreport
    cases hreport
  | ok bytes =>
    rw [hbytes] at hreport
    exact mode_of_keepIn (Report.saved.inj hreport).symm

variable (p)

/-- The exchange after some turns. Beside each turn stands what the settings answer by then. -/
def course (x : Exchange) (turns : List (Settings.Lookup × Turn σ)) : Exchange :=
  turns.foldl (fun x t => (p.turn (x.answering t.1) t.2).2) x

inductive Meets : Exchange → List (Settings.Lookup × Turn σ) → Exchange → Turn σ → Prop
  | first (x : Exchange) (lookup : Settings.Lookup) (t : Turn σ)
      (turns : List (Settings.Lookup × Turn σ)) :
      Meets x ((lookup, t) :: turns) (x.answering lookup) t
  | later {x y : Exchange} {lookup : Settings.Lookup} {t u : Turn σ}
      {turns : List (Settings.Lookup × Turn σ)}
      (h : Meets (p.turn (x.answering lookup) t).2 turns y u) : Meets x ((lookup, t) :: turns) y u

/-- The mode that the settings select at the first turn that needs one. -/
def firstAnswer (x : Exchange) : List (Settings.Lookup × Turn σ) → Option Settings.Mode
  | [] => none
  | (lookup, t) :: turns =>
    if p.asks (x.answering lookup) t then
      some (.ofText (lookup Settings.Key.stateSaving.name))
    else firstAnswer (p.turn (x.answering lookup) t).2 turns

variable {p} {mode : Settings.Mode} {turns : List (Settings.Lookup × Turn σ)}

/-- A settled mode stays, and the settings are not asked any more. -/
theorem turn_of_settled (h : x.request.settled = some mode) :
    (p.turn x t).2.request.settled = some mode ∧ (p.turn x t).2.provider = x.provider := by
  have hmode := Exchange.mode_of_settled h
  cases hasks : p.asks x t with
  | true =>
    obtain ⟨-, hsettled, hprovider⟩ := turn_of_asks hasks
    rw [hmode] at hsettled hprovider
    exact ⟨hsettled, hprovider⟩
  | false =>
    obtain ⟨-, hsettled, hprovider⟩ := turn_of_not_asks hasks
    exact ⟨hsettled.trans h, hprovider⟩

theorem course_of_settled (h : x.request.settled = some mode)
    (turns : List (Settings.Lookup × Turn σ)) :
    (p.course x turns).request.settled = some mode ∧
      (p.course x turns).provider.reads = x.provider.reads := by
  induction turns generalizing x with
  | nil => exact ⟨h, rfl⟩
  | cons t turns ih =>
    obtain ⟨hsettled, hprovider⟩ :=
      turn_of_settled (p := p) (x := x.answering t.1) (t := t.2) h
    obtain ⟨hlast, hreads⟩ := ih hsettled
    have hsame := congrArg Settings.Provider.reads hprovider
    exact ⟨hlast, hreads.trans hsame⟩

/-- Of a request whose mode is open, the first answer becomes the mode, at the cost of one
question. -/
theorem course_of_unsettled (h : x.request.settled = none)
    (turns : List (Settings.Lookup × Turn σ)) :
    (p.course x turns).request.settled = p.firstAnswer x turns ∧
      (p.course x turns).provider.reads =
        x.provider.reads + (p.firstAnswer x turns).toList.length := by
  induction turns generalizing x with
  | nil => exact ⟨h, rfl⟩
  | cons t turns ih =>
    obtain ⟨lookup, t⟩ := t
    have hmode := Exchange.mode_of_unsettled (x := x.answering lookup) h
    rw [firstAnswer]
    cases hasks : p.asks (x.answering lookup) t with
    | true =>
      obtain ⟨-, hsettled, hprovider⟩ := turn_of_asks hasks
      obtain ⟨hlast, hreads⟩ := course_of_settled hsettled turns
      rw [hmode] at hlast hprovider
      exact ⟨hlast, hreads.trans (congrArg Settings.Provider.reads hprovider)⟩
    | false =>
      obtain ⟨-, hsettled, hprovider⟩ := turn_of_not_asks hasks
      obtain ⟨hlast, hreads⟩ := ih (hsettled.trans h)
      rw [hprovider] at hreads
      exact ⟨hlast, hreads⟩

/-- All turns of a run act in the mode that is settled at its end. -/
theorem Meets.actsIn {y : Exchange} (h : p.Meets x turns y t)
    (hmode : ∀ m, (p.course x turns).request.settled = some m → m = mode) :
    p.ActsIn mode y t := by
  induction h with
  | first x lookup t turns =>
    cases hasks : p.asks (x.answering lookup) t with
    | true =>
      obtain ⟨hacts, hsettled, -⟩ := turn_of_asks hasks
      obtain ⟨hlast, -⟩ := course_of_settled hsettled turns
      exact hmode _ hlast ▸ hacts
    | false => exact (turn_of_not_asks hasks).1 mode
  | later _ ih => exact ih hmode

/-- Whatever the settings answer by the time of each turn, a new request has one mode. It is the one
that they select at the first turn that needs a mode; they are asked once for it, and never if no
turn needs one. Every turn acts in that mode, so that what was saved for the request is taken, when
it is restored for it, in the mode that it was saved in. -/
theorem acts_in_one_mode (p : Persistence σ) (store : Store) (session : String)
    (provider : Settings.Provider) (turns : List (Settings.Lookup × Turn σ)) :
    let x : Exchange := ⟨store, .new session, provider⟩
    (p.course x turns).request.settled = p.firstAnswer x turns ∧
      (p.course x turns).provider.reads =
        provider.reads + (p.firstAnswer x turns).toList.length ∧
      (∀ mode, (∀ m, p.firstAnswer x turns = some m → m = mode) →
        ∀ y t, p.Meets x turns y t → p.ActsIn mode y t) ∧
      ∀ y view state saved, p.Meets x turns y (.save view state) →
        (p.turn y (.save view state)).1 = .saved (.ok saved) →
        ∀ z view raw, p.Meets x turns z (.restore view raw) →
          (p.turn z (.restore view raw)).1 = .restored (p.restoreIn saved.mode z view raw) := by
  intro x
  obtain ⟨hlast, hreads⟩ := course_of_unsettled (p := p) (x := x) rfl turns
  refine ⟨hlast, hreads, fun mode hmode y t hy => hy.actsIn (hlast ▸ hmode), ?_⟩
  intro y view state saved hy hsaved z view' raw hz
  have hmode : ∀ m, (p.course x turns).request.settled = some m →
      m = (p.course x turns).request.settled.getD .server := by
    intro m hm
    rw [hm]
    rfl
  rw [(hy.actsIn hmode).mode_of_saved hsaved]
  exact (hz.actsIn hmode).1

/-- The mode is that of the second save: the first one fails before it needs a mode, and by the time
of the restore the settings say otherwise again. -/
theorem acts_in_one_mode_changing :
    let codec : StateCodec (Option UInt8) :=
      ⟨fun _ byte => (byte.map ([·])).elim (.error (.unencodable "no byte")) .ok,
        fun bytes => .ok bytes.head?⟩
    let p : Persistence (Option UInt8) := ⟨Blake3.hash, codec, .standard⟩
    let x : Exchange := ⟨.memory .empty, .new "a", .ofLookup fun _ => none⟩
    let text := Ticket.encode p.hash ⟨"/v", 1⟩
    let turns : List (Settings.Lookup × Turn (Option UInt8)) :=
      [(fun _ => some "client", .save "/v" none), (fun _ => none, .save "/v" (some 7)),
        (fun _ => some "client", .restore "/v" text)]
    (p.course x turns).provider.reads = 1 ∧
      ∃ z, p.Meets x turns z (.restore "/v" text) ∧ p.ActsIn .server z (.restore "/v" text) ∧
        (p.turn z (.restore "/v" text)).1 = .restored (.ok (some (some 7))) := by
  intro codec p x text turns
  obtain ⟨-, hreads, hacts, hrestored⟩ :=
    p.acts_in_one_mode (.memory .empty) "a" (.ofLookup fun _ => none) turns
  let z : Exchange := (p.course x (turns.take 2)).answering fun _ => some "client"
  have hsave : p.Meets x turns _ (.save "/v" (some 7)) := .later (.first _ _ _ _)
  have hrestore : p.Meets x turns z (.restore "/v" text) := .later (.later (.first _ _ _ _))
  let m := (MemoryStore.empty.insert "a" ⟨"/v", [7]⟩ 20).2
  have hsound : m.Sound := MemoryStore.sound_empty.insert "a" ⟨"/v", [7]⟩ 20
  have hstore : z.store.Represents m := ⟨rfl, hsound⟩
  have hsession : z.request.session = "a" := rfl
  have hheld : m.get "a" ⟨"/v", 1⟩ = some [7] := rfl
  refine ⟨hreads, z, hrestore, hacts .server (fun m hm => ?_) _ _ hrestore, ?_⟩
  · exact (Option.some.inj hm).symm
  · rw [hrestored _ _ _ (.ticket text) hsave rfl _ _ _ hrestore]
    rw [Saved.mode, p.restoreIn_ticket hstore ⟨"/v", 1⟩, hsession, hheld]
    rfl

end Persistence

end ViewState
