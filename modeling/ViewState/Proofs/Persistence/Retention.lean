import ViewState.Hash.Blake3
import ViewState.Proofs.Persistence.Run

/-!
How long a saved view can be restored. Sequence numbers only rise, so no ticket is handed out twice
as long as the numbers last; and what a session holds under a number is followed from the call that
saved it through every later call of the run.
-/
namespace ViewState

namespace Persistence

variable {σ : Type} {p : Persistence σ} {s : Store} {m m' : MemoryStore} {c : Call σ}
  {calls : List (Call σ)} {out : Option Saved}

def saves (calls : List (Call σ)) : Nat := calls.countP fun c => c.state?.isSome

theorem saves_cons (c : Call σ) (calls : List (Call σ)) :
    saves (c :: calls) = saves [c] + saves calls := by
  rw [saves, List.countP_cons, Nat.add_comm]
  simp [saves, List.countP_cons]

theorem Step.le_sequence (hstep : p.Step m c out m') : m.sequence ≤ m'.sequence := by
  cases hstep with
  | idle => exact UInt64.le_refl _
  | saved => exact Word.le_next _
  | sessionDropped => exact UInt64.le_refl _
  | viewDropped => exact UInt64.le_refl _

theorem Step.toNat_sequence_le (hstep : p.Step m c out m') :
    m'.sequence.toNat ≤ m.sequence.toNat + saves [c] := by
  cases hstep with
  | idle => exact Nat.le_add_right _ _
  | saved =>
    show (Word.next m.sequence).toNat ≤ m.sequence.toNat + 1
    rw [Word.toNat_next]
    omega
  | sessionDropped => exact Nat.le_add_right _ _
  | viewDropped => exact Nat.le_add_right _ _

theorem sequence_run_le (h : s.Represents m) (calls : List (Call σ)) :
    ∃ m', (p.run s calls).Represents m' ∧
      m'.sequence.toNat ≤ m.sequence.toNat + saves calls := by
  induction calls generalizing s m with
  | nil => exact ⟨m, h, Nat.le_add_right _ _⟩
  | cons c calls ih =>
    obtain ⟨m₁, hstep, hafter⟩ := p.step_after h c
    obtain ⟨m', hrun, hle⟩ := ih hafter
    have := hstep.toNat_sequence_le
    refine ⟨m', hrun, ?_⟩
    rw [saves_cons]
    omega

theorem Step.fresh (hstep : p.Step m c out m') (hserver : c.OnServer)
    (hroom : m.sequence.toNat + saves [c] < UInt64.size) {saved : Saved} (hout : out = some saved) :
    ∃ view, saved = .ticket (Ticket.encode p.hash ⟨view, m'.sequence⟩) ∧
      m.sequence < m'.sequence := by
  cases hstep with
  | idle hdrops hnone =>
    rw [hnone hserver] at hout
    cases hout
  | saved hbytes hlimit =>
    cases hout
    exact ⟨_, rfl, Word.lt_next hroom⟩
  | sessionDropped => cases hout
  | viewDropped => cases hout

theorem outputs_fresh (h : s.Represents m) (hserver : ∀ c ∈ calls, c.OnServer)
    (hroom : m.sequence.toNat + saves calls < UInt64.size) {saved : Saved}
    (hsaved : saved ∈ p.outputs s calls) :
    ∃ t : Ticket, saved = .ticket (t.encode p.hash) ∧ m.sequence < t.sequence := by
  induction calls generalizing s m with
  | nil => cases hsaved
  | cons c calls ih =>
    rw [saves_cons] at hroom
    obtain ⟨m', hstep, hafter⟩ := p.step_after h c
    have hle := hstep.toNat_sequence_le
    rcases List.mem_append.1 hsaved with hhead | htail
    · obtain ⟨view, rfl, hlt⟩ := hstep.fresh (hserver c List.mem_cons_self) (by omega)
        (Option.mem_toList.1 hhead)
      exact ⟨_, rfl, hlt⟩
    · obtain ⟨t, rfl, hlt⟩ := ih hafter (fun c hc => hserver c (List.mem_cons_of_mem _ hc))
        (by omega) htail
      exact ⟨t, rfl, UInt64.lt_of_le_of_lt hstep.le_sequence hlt⟩

theorem nodup_outputs (h : s.Represents m) (hserver : ∀ c ∈ calls, c.OnServer)
    (hroom : m.sequence.toNat + saves calls < UInt64.size) :
    ((p.outputs s calls).map Saved.text).Nodup := by
  induction calls generalizing s m with
  | nil => exact List.nodup_nil
  | cons c calls ih =>
    rw [saves_cons] at hroom
    obtain ⟨m', hstep, hafter⟩ := p.step_after h c
    have hle := hstep.toNat_sequence_le
    have hlater : ∀ c ∈ calls, c.OnServer := fun c hc => hserver c (List.mem_cons_of_mem _ hc)
    have htail := ih hafter hlater (by omega)
    unfold outputs
    cases hout : p.output s c with
    | none => exact htail
    | some saved =>
      show (saved.text :: _).Nodup
      rw [List.nodup_cons]
      refine ⟨?_, htail⟩
      -- an equal text later on would belong to the same number
      intro hmem
      obtain ⟨later, hlater', heq⟩ := List.mem_map.1 hmem
      obtain ⟨view, rfl, -⟩ := hstep.fresh (hserver c List.mem_cons_self) (by omega) hout
      obtain ⟨t, rfl, hlt⟩ := outputs_fresh hafter hlater (by omega) hlater'
      have hsequence := Ticket.sequence_eq_of_encode_eq p.hash heq
      exact UInt64.lt_irrefl _ (hsequence ▸ hlt)

theorem Step.sound (hstep : p.Step m c out m') (hm : m.Sound) : m'.Sound := by
  cases hstep with
  | idle => exact hm
  | saved => exact hm.insert _ _ _
  | sessionDropped => exact hm.invalidateSession _
  | viewDropped => exact hm.invalidateView _ _

/-- Only a save in its session can crowd an entry. -/
theorem Step.newer_lt {session : String} {n : UInt64} {bound : Nat} (hstep : p.Step m c out m')
    (hnewer : m.newer session n < bound)
    (hsaves : c.SavesIn session → m'.newer session n < bound) : m'.newer session n < bound := by
  cases hstep with
  | idle => exact hnewer
  | @saved request _ view _ bytes _ _ =>
    by_cases hsession : session = request.session
    · exact hsaves hsession.symm
    · have hheld := (m.held_insert request.session session ⟨view, bytes⟩ p.retention.views).trans
        (if_neg hsession)
      rwa [MemoryStore.newer_congr hheld]
  | sessionDropped session' =>
    exact Nat.lt_of_le_of_lt (m.newer_invalidateSession_le session session' n) hnewer
  | viewDropped session' view =>
    exact Nat.lt_of_le_of_lt (m.newer_invalidateView_le session session' view n) hnewer

/-- An entry outlasts a call unless the call drops it, or saves a view in its session and leaves it
with as many newer entries as the session keeps. -/
theorem Step.get?_held {session : String} {n : UInt64} {old : SavedView}
    (hstep : p.Step m c out m') (hroom : m.sequence.toNat + saves [c] < UInt64.size)
    (hcounted : n ≤ m.sequence)
    (huncrowded : (m.held session).get? n = some old →
      m.newer session n < max 1 p.retention.views) :
    (m'.held session).get? n = some old ↔
      (m.held session).get? n = some old ∧ ¬ c.Drops session old.view ∧
        (c.SavesIn session → m'.newer session n < max 1 p.retention.views) := by
  cases hstep with
  | idle hdrops hout =>
    constructor
    · intro hold
      exact ⟨hold, hdrops _ _, fun _ => huncrowded hold⟩
    · exact And.left
  | saved =>
    -- the new number is above all that were given out, so it is not that of the entry
    have hne : n ≠ Word.next m.sequence := by
      intro heq
      exact UInt64.lt_irrefl _ (UInt64.lt_of_lt_of_le (Word.lt_next hroom) (heq ▸ hcounted))
    rw [MemoryStore.get?_held_insert hne]
    simp [Call.Drops, Call.SavesIn]
  | sessionDropped session' =>
    rw [MemoryStore.get?_held_invalidateSession]
    simp [Call.Drops, Call.SavesIn]
  | viewDropped session' view =>
    rw [MemoryStore.get?_held_invalidateView]
    simp [Call.Drops, Call.SavesIn]

/-- Under the number of an entry a store in memory holds nothing but that entry in its session, and
this as long as `alive` holds. -/
structure Tracks (p : Persistence σ) (m : MemoryStore) (session : String) (n : UInt64)
    (saved : SavedView) (alive : Prop) : Prop where
  sound : m.Sound
  counted : n ≤ m.sequence
  held : ∀ session' old, (m.held session').get? n = some old ↔
    (session' = session ∧ old = saved) ∧ alive
  uncrowded : alive → m.newer session n < max 1 p.retention.views

section Tracks

variable {session : String} {n : UInt64} {saved : SavedView} {alive : Prop}

theorem Tracks.congr (ht : p.Tracks m session n saved alive) {alive' : Prop}
    (h : alive ↔ alive') : p.Tracks m session n saved alive' :=
  propext h ▸ ht

theorem tracks_insert (hm : m.Sound) (hroom : m.sequence.toNat + 1 < UInt64.size)
    (session : String) (saved : SavedView) :
    p.Tracks (m.insert session saved p.retention.views).2 session (Word.next m.sequence) saved
      True := by
  have hm' := hm.insert session saved p.retention.views
  refine ⟨hm', UInt64.le_refl _, ?_, ?_⟩
  · intro session' old
    rw [MemoryStore.held_insert]
    by_cases hsession : session' = session
    · rw [if_pos hsession, MemoryStore.get?_kept_next hm]
      simp [hsession, eq_comm]
    · rw [if_neg hsession]
      constructor
      · intro hold
        exact absurd (hm.counted _ _ _ hold) (UInt64.not_le.2 (Word.lt_next hroom))
      · rintro ⟨⟨heq, -⟩, -⟩
        exact absurd heq hsession
  · intro _
    rw [← MemoryStore.sequence_insert m session saved p.retention.views, hm'.newer_sequence]
    exact Nat.lt_of_lt_of_le Nat.zero_lt_one (Nat.le_max_left 1 _)

/-- A call that ends the life of an entry ends it for good. -/
theorem Tracks.step (ht : p.Tracks m session n saved alive) (hstep : p.Step m c out m')
    (hroom : m.sequence.toNat + saves [c] < UInt64.size) :
    p.Tracks m' session n saved (alive ∧ ¬ c.Drops session saved.view ∧
      (c.SavesIn session → m'.newer session n < max 1 p.retention.views)) := by
  constructor
  · exact hstep.sound ht.sound
  · exact UInt64.le_trans ht.counted hstep.le_sequence
  · intro session' old
    have huncrowded : (m.held session').get? n = some old →
        m.newer session' n < max 1 p.retention.views := by
      intro hold
      obtain ⟨⟨rfl, -⟩, halive⟩ := (ht.held session' old).1 hold
      exact ht.uncrowded halive
    rw [hstep.get?_held hroom ht.counted huncrowded, ht.held]
    constructor
    · rintro ⟨⟨⟨rfl, rfl⟩, halive⟩, hkept⟩
      exact ⟨⟨rfl, rfl⟩, halive, hkept⟩
    · rintro ⟨⟨rfl, rfl⟩, halive, hkept⟩
      exact ⟨⟨⟨rfl, rfl⟩, halive⟩, hkept⟩
  · rintro ⟨halive, -, hnewer⟩
    exact hstep.newer_lt (ht.uncrowded halive) hnewer

/-- No call drops the entry, and after no save in its session does the session hold as many newer
entries as it keeps. -/
def Outlives (p : Persistence σ) (session view : String) (n : UInt64) (s : Store) :
    List (Call σ) → Prop
  | [] => True
  | c :: calls =>
    ¬ c.Drops session view ∧
      (c.SavesIn session → (p.after s c).newer session n < max 1 p.retention.views) ∧
      Outlives p session view n (p.after s c) calls

theorem Tracks.run (ht : p.Tracks m session n saved alive) (h : s.Represents m)
    (hroom : m.sequence.toNat + saves calls < UInt64.size) :
    ∃ m', (p.run s calls).Represents m' ∧
      p.Tracks m' session n saved (alive ∧ p.Outlives session saved.view n s calls) := by
  induction calls generalizing s m alive with
  | nil => exact ⟨m, h, ht.congr ⟨fun halive => ⟨halive, trivial⟩, And.left⟩⟩
  | cons c calls ih =>
    rw [saves_cons] at hroom
    obtain ⟨m₁, hstep, hafter⟩ := p.step_after h c
    have hle := hstep.toNat_sequence_le
    have ht₁ := ht.step hstep (by omega)
    obtain ⟨m', hrun, ht'⟩ := ih ht₁ hafter (by omega)
    refine ⟨m', hrun, ht'.congr ?_⟩
    rw [Outlives, hafter.newer]
    simp only [and_assoc]

theorem Tracks.get (ht : p.Tracks m session n saved alive) (session' view : String)
    (bytes : List UInt8) :
    m.get session' ⟨view, n⟩ = some bytes ↔
      (session' = session ∧ view = saved.view ∧ alive) ∧ bytes = saved.state := by
  rw [MemoryStore.get_eq_some_iff, ht.held]
  constructor
  · rintro ⟨⟨rfl, rfl⟩, halive⟩
    exact ⟨⟨rfl, rfl, halive⟩, rfl⟩
  · rintro ⟨⟨rfl, rfl, halive⟩, rfl⟩
    exact ⟨⟨rfl, rfl⟩, halive⟩

/-- The text of a tracked ticket gives the state of its entry to its own session and view while the
entry lives, and nothing otherwise. -/
theorem Tracks.restore {view : String} {bytes : List UInt8} {state : σ}
    (ht : p.Tracks m session n ⟨view, bytes⟩ alive) (h : s.Represents m)
    (hdecode : p.codec.decode bytes = .ok state) {request : Request}
    {provider : Settings.Provider} (hmode : (request.mode provider).1 = .server) (view' : String) :
    let lives := request.session = session ∧ view' = view ∧ alive
    let restored := (p.restore ⟨s, request, provider⟩ view' (Ticket.encode p.hash ⟨view, n⟩)).1
    (lives → restored = .ok (some state)) ∧ (¬ lives → restored = .ok none) := by
  intro lives restored
  have hrestored : restored = _ := p.restore_encode h hmode ⟨view, n⟩ view'
  constructor
  · rintro ⟨hsession, rfl, halive⟩
    rw [hrestored, if_pos rfl, (ht.get _ _ bytes).2 ⟨⟨hsession, rfl, halive⟩, rfl⟩]
    show some <$> p.codec.decode bytes = _
    rw [hdecode]
    rfl
  · intro hdead
    have hnone : m.get request.session ⟨view', n⟩ = none := by
      apply Option.eq_none_iff_forall_ne_some.2
      intro bytes' hget
      exact hdead ((ht.get _ _ bytes').1 hget).1
    rw [hrestored, hnone, ite_self]
    rfl

end Tracks

/-- What a save hands out can be restored after any later calls exactly by the session and view of
the save and while its entry outlives them. -/
theorem restore_later (h : s.Represents m) {request : Request} {provider : Settings.Provider}
    {view : String} {state : σ} (hserver : (Call.save request provider view state).OnServer)
    (hinverts : p.codec.Inverts state) (hroom : m.sequence.toNat + (1 + saves calls) < UInt64.size)
    {saved : Saved} (hsaved : (p.save ⟨s, request, provider⟩ view state).result = .ok saved) :
    ∃ n, saved = .ticket (Ticket.encode p.hash ⟨view, n⟩) ∧
      ∀ request' provider' view', (request'.mode provider').1 = .server →
        let later := p.after s (.save request provider view state)
        let lives := request'.session = request.session ∧ view' = view ∧
          p.Outlives request.session view n later calls
        let restored := (p.restore ⟨p.run later calls, request', provider'⟩ view' saved.text).1
        (lives → restored = .ok (some state)) ∧ (¬ lives → restored = .ok none) := by
  obtain ⟨m₁, hstep, hafter⟩ := p.step_after h (.save request provider view state)
  have hout : p.output s (.save request provider view state) = some saved := by
    rw [output, hsaved]
    rfl
  rw [hout] at hstep
  cases hstep with
  | idle hdrops hnone => cases hnone hserver
  | @saved _ _ _ _ bytes hbytes hlimit =>
    refine ⟨_, rfl, ?_⟩
    intro request' provider' view' hmode
    -- the entry is tracked from its own call on
    have htracks := tracks_insert (p := p) h.sound (by omega) request.session ⟨view, bytes⟩
    have hroom₁ : (Word.next m.sequence).toNat + saves calls < UInt64.size := by
      rw [Word.toNat_next]
      omega
    obtain ⟨m', hrepresents, ht⟩ := htracks.run hafter hroom₁
    have hdecode := hinverts _ _ hbytes
    exact (ht.congr ⟨And.right, fun h => ⟨trivial, h⟩⟩).restore hrepresents hdecode hmode view'

/-- In a run of calls by requests that keep views on the server no ticket is handed out twice. The
text of a ticket gives the state that was saved for it to its own session and view while the entry
outlives the calls that follow, and to nobody anything otherwise. -/
theorem restore_after_run {s₀ : Store} (hs₀ : s₀.Fresh) {calls : List (Call σ)}
    (hserver : ∀ c ∈ calls, c.OnServer)
    (hinverts : ∀ c ∈ calls, ∀ state, c.state? = some state → p.codec.Inverts state)
    (hroom : saves calls < UInt64.size - 1) :
    ((p.outputs s₀ calls).map Saved.text).Nodup ∧
    ∀ before request provider view state later saved,
      calls = before ++ .save request provider view state :: later →
      (p.save ⟨p.run s₀ before, request, provider⟩ view state).result = .ok saved →
      ∃ n, saved = .ticket (Ticket.encode p.hash ⟨view, n⟩) ∧
        ∀ request' provider' view', (request'.mode provider').1 = .server →
          let lives := request'.session = request.session ∧ view' = view ∧
            p.Outlives request.session view n
              (p.run s₀ (before ++ [.save request provider view state])) later
          let restored := (p.restore ⟨p.run s₀ calls, request', provider'⟩ view' saved.text).1
          (lives → restored = .ok (some state)) ∧ (¬ lives → restored = .ok none) := by
  have hzero : MemoryStore.empty.sequence.toNat = 0 := rfl
  refine ⟨nodup_outputs hs₀.represents hserver (by omega), ?_⟩
  intro before request provider view state later saved hcalls hsaved
  have hmem : .save request provider view state ∈ calls := by
    rw [hcalls]
    exact List.mem_append_right _ List.mem_cons_self
  have hsaves : saves calls = saves before + (1 + saves later) := by
    rw [hcalls, saves, List.countP_append, ← saves, ← saves, saves_cons]
    rfl
  obtain ⟨m, hbefore, hle⟩ := sequence_run_le (p := p) hs₀.represents before
  have hrun : p.run s₀ (before ++ [.save request provider view state]) =
      p.after (p.run s₀ before) (.save request provider view state) := p.run_append _ _ _
  have hend : p.run s₀ calls =
      p.run (p.after (p.run s₀ before) (.save request provider view state)) later := by
    rw [hcalls]
    exact p.run_append _ _ _
  rw [hrun, hend]
  exact restore_later hbefore (hserver _ hmem) (hinverts _ hmem state rfl) (by omega) hsaved

/-- With room for one view in each session, a save in another session leaves an entry alone and the
next one in its own session pushes it out. -/
theorem restore_after_run_crowded :
    let p : Persistence (List UInt8) := ⟨Blake3.hash, ⟨fun _ bytes => .ok bytes, .ok⟩, ⟨1, none⟩⟩
    let save (session : String) (state : List UInt8) : Call (List UInt8) :=
      .save (.new session) (.ofLookup fun _ => none) "v" state
    let restored (session : String) (n : UInt64) := (p.restore
      ⟨p.run (.memory .empty) [save "a" [1], save "b" [2], save "a" [3]], .new session,
        .ofLookup fun _ => none⟩ "v" (Ticket.encode p.hash ⟨"v", n⟩)).1
    restored "a" 1 = .ok none ∧ restored "b" 2 = .ok (some [2]) := by
  intro p save restored
  have hsave : ∀ session state, (save session state).OnServer := fun _ _ => rfl
  have hserver : ∀ c ∈ [save "a" [1], save "b" [2], save "a" [3]], c.OnServer := by
    simp [hsave]
  have hinverts : ∀ state, p.codec.Inverts state := fun _ _ _ hbytes => hbytes.symm
  have hfresh : (Store.memory .empty).Fresh := .inl rfl
  obtain ⟨-, hrun⟩ := restore_after_run hfresh hserver (fun _ _ state _ => hinverts state)
    (by decide)
  obtain ⟨n₁, hn₁, h₁⟩ := hrun [] _ _ _ _ _ _ rfl rfl
  obtain ⟨n₂, hn₂, h₂⟩ := hrun [save "a" [1]] _ _ _ _ _ _ rfl rfl
  obtain rfl : 1 = n₁ := Ticket.sequence_eq_of_encode_eq p.hash (Saved.ticket.inj hn₁)
  obtain rfl : 2 = n₂ := Ticket.sequence_eq_of_encode_eq p.hash (Saved.ticket.inj hn₂)
  constructor
  · apply (h₁ _ _ "v" rfl).2
    intro hlives
    obtain ⟨-, -, -, -, -, hcrowded, -⟩ := hlives
    exact absurd (hcrowded rfl) (by decide)
  · refine (h₂ _ _ "v" rfl).1 ⟨rfl, rfl, fun hdrops => hdrops, ?_, trivial⟩
    intro hsession
    exact absurd hsession (show "a" ≠ "b" by decide)

end Persistence

end ViewState
