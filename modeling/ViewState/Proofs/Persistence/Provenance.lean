import ViewState.Proofs.Persistence.RoundTrip

/-!
Where restored states come from. Every entry of a store goes back to a call that saved it in the
same session for the same view, and was held ever since. A text that leads to an entry leads to one
of the session and view it was presented for, whatever the text and whatever digests collide.
-/
namespace ViewState

namespace Persistence

variable {σ : Type} {p : Persistence σ} {s : Store} {m m' : MemoryStore} {c : Call σ}
  {out : Option Saved} {calls : List (Call σ)} {session : String} {t : Ticket} {bytes : List UInt8}

/-- A call of the run saved these bytes of a state under a ticket, and under the ticket the store
has held them ever since. -/
def Origin (p : Persistence σ) (s : Store) (calls : List (Call σ)) (session : String) (t : Ticket)
    (state : σ) (bytes : List UInt8) : Prop :=
  ∃ before request provider later,
    calls = before ++ .save request provider t.view state :: later ∧
      request.session = session ∧
      p.codec.encode request.beginSaving state = .ok bytes ∧
      bytes.length ≤ Envelope.limit ∧
      p.output (p.run s before) (.save request provider t.view state) =
        some (.ticket (t.encode p.hash)) ∧
      ∀ since, since <+: later →
        (p.run s (before ++ .save request provider t.view state :: since)).get session t =
          .ok (some bytes)

theorem Origin.snoc {state : σ} (ho : p.Origin s calls session t state bytes)
    (hget : (p.run s (calls ++ [c])).get session t = .ok (some bytes)) :
    p.Origin s (calls ++ [c]) session t state bytes := by
  obtain ⟨before, request, provider, later, rfl, hsession, hbytes, hlimit, hout, hheld⟩ := ho
  refine ⟨before, request, provider, later ++ [c], ?_, hsession, hbytes, hlimit, hout, ?_⟩
  · rw [List.append_assoc, List.cons_append]
  · intro since hsince
    rcases List.prefix_concat_iff.1 hsince with rfl | hsince
    · rwa [List.append_assoc, List.cons_append] at hget
    · exact hheld since hsince

theorem Step.held_or_saved (hm : m.Sound) (hstep : p.Step m c out m')
    (hheld : (m'.held session).get? t.sequence = some ⟨t.view, bytes⟩) :
    (m.held session).get? t.sequence = some ⟨t.view, bytes⟩ ∨
      ∃ request provider state, c = .save request provider t.view state ∧
        request.session = session ∧ p.codec.encode request.beginSaving state = .ok bytes ∧
        bytes.length ≤ Envelope.limit ∧ out = some (.ticket (t.encode p.hash)) := by
  obtain ⟨view, n⟩ := t
  cases hstep with
  | idle => exact .inl hheld
  | @saved request provider view' state bytes' hbytes hlimit =>
    rcases MemoryStore.held_or_new_of_insert hm hheld with hold | ⟨hsession, rfl, hsaved⟩
    · exact .inl hold
    · cases hsaved
      exact .inr ⟨request, provider, state, rfl, hsession.symm, hbytes, hlimit, rfl⟩
  | sessionDropped => exact .inl ((MemoryStore.get?_held_invalidateSession _).1 hheld).1
  | viewDropped => exact .inl ((MemoryStore.get?_held_invalidateView _ _).1 hheld).1

/-- Every entry of the store in memory has an origin in the run. -/
def Accounted (p : Persistence σ) (s : Store) (calls : List (Call σ)) (m : MemoryStore) : Prop :=
  ∀ session t bytes, (m.held session).get? t.sequence = some ⟨t.view, bytes⟩ →
    ∃ state, p.Origin s calls session t state bytes

theorem Accounted.step (ha : p.Accounted s calls m) (h : (p.run s calls).Represents m)
    (c : Call σ) :
    ∃ m', (p.run s (calls ++ [c])).Represents m' ∧ p.Accounted s (calls ++ [c]) m' := by
  obtain ⟨m', hstep, hafter⟩ := p.step_after h c
  have hrun : p.run s (calls ++ [c]) = p.after (p.run s calls) c := p.run_append _ _ _
  rw [← hrun] at hafter
  refine ⟨m', hafter, fun session t bytes hheld => ?_⟩
  have hget : (p.run s (calls ++ [c])).get session t = .ok (some bytes) := by
    rw [hafter.get, MemoryStore.get_eq_some_iff.2 hheld]
  rcases hstep.held_or_saved h.sound hheld with hold | hsaved
  · obtain ⟨state, ho⟩ := ha session t bytes hold
    exact ⟨state, ho.snoc hget⟩
  · obtain ⟨request, provider, state, rfl, hsession, hbytes, hlimit, hout⟩ := hsaved
    refine ⟨state, calls, request, provider, [], rfl, hsession, hbytes, hlimit, hout, ?_⟩
    intro since hsince
    rwa [List.prefix_nil.1 hsince]

theorem accounted_run (hs : s.Fresh) (calls : List (Call σ)) :
    ∃ m, (p.run s calls).Represents m ∧ p.Accounted s calls m := by
  -- calls are added at the end of a run, so the induction is on what follows any past
  suffices hextend : ∀ past m, (p.run s past).Represents m → p.Accounted s past m →
      ∃ m', (p.run s (past ++ calls)).Represents m' ∧ p.Accounted s (past ++ calls) m' by
    apply hextend [] .empty hs.represents
    intro session t bytes hheld
    cases hheld
  induction calls with
  | nil =>
    intro past m h ha
    rw [List.append_nil]
    exact ⟨m, h, ha⟩
  | cons c calls ih =>
    intro past m h ha
    obtain ⟨m', h', ha'⟩ := ha.step h c
    rw [List.append_cons]
    exact ih _ m' h' ha'

/-- Whatever text is presented, the bytes that it leads to have an origin in the session and view
that it is presented for. -/
theorem lookup_run (hs : s.Fresh) (calls : List (Call σ)) (request : Request)
    (provider : Settings.Provider) (view raw : String) :
    ∃ found, p.lookup ⟨p.run s calls, request, provider⟩ view raw = .ok found ∧
      ∀ bytes, found = some bytes →
        ∃ n state, p.Origin s calls request.session ⟨view, n⟩ state bytes := by
  obtain ⟨m, h, ha⟩ := accounted_run (p := p) hs calls
  unfold lookup
  cases hposted : (PostedTicket.parse raw).bind fun t => t.forView p.hash view with
  | none => exact ⟨none, rfl, fun bytes hnone => by cases hnone⟩
  | some t =>
    obtain ⟨posted, -, ht⟩ := Option.bind_eq_some_iff.1 hposted
    obtain rfl := PostedTicket.view_of_forView ht
    refine ⟨m.get request.session t, h.get _ t, fun bytes hget => ?_⟩
    obtain ⟨state, ho⟩ := ha _ t bytes (MemoryStore.get_eq_some_iff.1 hget)
    exact ⟨t.sequence, state, ho⟩

/-- Whatever was saved and dropped before, and whatever text is presented, restoring a tree on the
server does not fail; a tree that is restored was saved in the same session for the same view, and
its entry was held ever since. This needs nothing of the hash function. -/
theorem restore_origin (h : Hash) (retention : Retention) {s₀ : Store} (hs₀ : s₀.Fresh)
    {calls : List (Call Node)} (hordered : ∀ c ∈ calls, ∀ n, c.state? = some n → n.Ordered)
    {request : Request} {provider : Settings.Provider}
    (hserver : (request.mode provider).1 = .server) (view raw : String) :
    let p := trees h retention
    ∃ restored, (p.restore ⟨p.run s₀ calls, request, provider⟩ view raw).1 = .ok restored ∧
      ∀ tree, restored = some tree →
        ∃ n, p.Origin s₀ calls request.session ⟨view, n⟩ tree tree.toWire := by
  intro p
  obtain ⟨found, hfound, horigin⟩ := lookup_run (p := p) hs₀ calls request provider view raw
  rw [p.restore_server (x := ⟨p.run s₀ calls, request, provider⟩) hserver, hfound]
  cases found with
  | none => exact ⟨none, rfl, fun tree hnone => by cases hnone⟩
  | some bytes =>
    obtain ⟨n, tree, ho⟩ := horigin bytes rfl
    have ⟨before, _, _, later, hcalls, _, hbytes, hlimit, _⟩ := ho
    cases hbytes
    have htree : tree.Ordered :=
      hordered _ (hcalls ▸ List.mem_append_right before List.mem_cons_self) tree rfl
    refine ⟨some tree, ?_, fun tree' heq => ?_⟩
    · show some <$> Node.codec.decode tree.toWire = _
      rw [Node.decode_toWire htree hlimit]
      rfl
    · cases heq
      exact ⟨n, ho⟩

/-- Where only another session has saved anything, no text restores anything. -/
theorem restore_origin_elsewhere :
    let p := trees Blake3.hash ⟨1, none⟩
    let save : Call Node := .save (.new "a") (.ofLookup fun _ => none) "v" (.ofKind "page")
    ∀ raw, (p.restore ⟨p.run (.table .empty) [save], .new "b", .ofLookup fun _ => none⟩ "v" raw).1 =
      .ok none := by
  intro p save raw
  have hordered : ∀ c ∈ [save], ∀ n, c.state? = some n → n.Ordered := by
    intro c hc n hn
    obtain rfl := List.mem_singleton.1 hc
    cases hn
    simp [Node.ofKind, Node.Ordered, Node.AllOrdered, Node.FacetsOrdered, Assoc.Sorted]
  have hfresh : (Store.table .empty).Fresh := .inr rfl
  have hserver : ((Request.new "b").mode (.ofLookup fun _ => none)).1 = .server := rfl
  obtain ⟨restored, hrestored, horigin⟩ :=
    restore_origin Blake3.hash ⟨1, none⟩ hfresh hordered hserver "v" raw
  cases restored with
  | none => exact hrestored
  | some tree =>
    obtain ⟨n, before, request, provider, later, hcalls, hsession, -⟩ := horigin tree rfl
    cases before with
    | nil =>
      have hrequest : Request.new "a" = request := (Call.save.inj (List.cons.inj hcalls).1).1
      rw [← hrequest] at hsession
      exact absurd hsession (show "a" ≠ "b" by decide)
    | cons c before =>
      have hlength := congrArg List.length hcalls
      simp at hlength

end Persistence

end ViewState
