import ViewState.Hash.Blake3
import ViewState.Proofs.Envelope
import ViewState.Proofs.Node.Codec
import ViewState.Proofs.Persistence.Run

/-!
What was saved can be restored at once, in the mode of the request that saved it: as a payload that
is opened again, or as a ticket whose entry was just written.
-/
namespace ViewState

theorem Node.decode_toWire {n : Node} (hordered : n.Ordered)
    (hlimit : n.toWire.length ≤ Envelope.limit) : Node.codec.decode n.toWire = .ok n := by
  have hlength : n.toWire.length < UInt64.size := Nat.lt_of_le_of_lt hlimit (by decide)
  have hdecode := decode_append hordered (addressable_of_length n hlength) []
  rwa [List.append_nil] at hdecode

namespace Persistence

variable {σ : Type} {p : Persistence σ} {x : Exchange} {view : String} {state : σ} {saved : Saved}

theorem restore_of_save {m : MemoryStore} (h : x.store.Represents m)
    (hdecode : ∀ bytes, p.codec.encode x.request.beginSaving state = .ok bytes →
      bytes.length ≤ Envelope.limit → p.codec.decode bytes = .ok state)
    (hsaved : (p.save x view state).result = .ok saved) :
    (p.restore (p.save x view state).exchange view saved.text).1 = .ok (some state) := by
  have hsave := p.save_outcome h view state
  generalize (p.save x view state).exchange = x' at hsave ⊢
  rw [hsaved] at hsave
  cases hsave with
  | sent _ hsettled _ hbytes hlimit hpack =>
    have hmode : x'.mode.1 = .client :=
      congrArg Prod.fst (Request.mode_of_settled hsettled x'.provider)
    rw [p.restore_client hmode, Saved.text, Envelope.unpack_pack p.hash (.inl rfl) hpack,
      if_pos rfl]
    show some <$> p.codec.decode _ = _
    rw [hdecode _ hbytes hlimit]
    rfl
  | @stored _ bytes _ hsettled hsession hbytes hlimit hstore =>
    have hmode : (x'.request.mode x'.provider).1 = .server :=
      congrArg Prod.fst (Request.mode_of_settled hsettled x'.provider)
    have hget := MemoryStore.get_insert h.sound x.request.session ⟨view, bytes⟩
      p.retention.views
    apply (p.restore_encode hstore hmode ⟨view, Word.next m.sequence⟩ view).trans
    rw [if_pos rfl, hsession, hget]
    show some <$> p.codec.decode _ = _
    rw [hdecode _ hbytes hlimit]
    rfl

theorem urlSafe_of_save {m : MemoryStore} (h : x.store.Represents m)
    (hsaved : (p.save x view state).result = .ok saved) {c : Char}
    (hc : c ∈ saved.text.toList) : Base64Url.UrlSafe c := by
  have hsave := p.save_outcome h view state
  rw [hsaved] at hsave
  generalize (p.save x view state).exchange = x' at hsave
  cases hsave with
  | sent _ _ _ _ _ hpack =>
    obtain ⟨rfl, -⟩ := Envelope.pack_eq_ok p.hash hpack
    exact Base64Url.urlSafe_encode _ _ hc
  | stored => exact Base64Url.urlSafe_encode _ _ hc

end Persistence

def Persistence.trees (h : Hash) (retention : Retention) : Persistence Node :=
  ⟨h, Node.codec, retention⟩

namespace Persistence

/-- A tree that was saved is restored as it was by the same request directly afterwards, in either
mode, and what was handed out for it is URL-safe. -/
theorem restore_save (h : Hash) (retention : Retention) {x : Exchange} (hx : x.store.Reachable)
    (view : String) {n : Node} (hordered : n.Ordered) {saved : Saved}
    (hsaved : ((trees h retention).save x view n).result = .ok saved) :
    ((trees h retention).restore ((trees h retention).save x view n).exchange view saved.text).1 =
        .ok (some n) ∧
      ∀ c ∈ saved.text.toList, Base64Url.UrlSafe c := by
  obtain ⟨m, hm⟩ := hx.represents
  constructor
  · apply restore_of_save hm _ hsaved
    intro bytes hbytes hlimit
    cases hbytes
    exact Node.decode_toWire hordered hlimit
  · intro c hc
    exact urlSafe_of_save hm hsaved hc

/-- A tree is restored from its ticket, even if no views are to be kept, and from a payload under a
key. -/
theorem restore_save_in_either_mode :
    let n : Node := ⟨"page", none, .component, [("id", "p")], [.ofKind "text"], []⟩
    let x (mode : Option String) : Exchange := ⟨.memory .empty, .new "a", .ofLookup fun _ => mode⟩
    let key := Envelope.keyOf Blake3.hash "secret"
    let server := trees Blake3.hash ⟨0, none⟩
    let client := trees Blake3.hash ⟨20, some key⟩
    (server.restore (server.save (x none) "v" n).exchange "v"
        (Ticket.encode server.hash ⟨"v", 1⟩)).1 = .ok (some n) ∧
      ∃ text, (client.save (x (some " Client")) "v" n).result = .ok (.payload text) ∧
        (client.restore (client.save (x (some " Client")) "v" n).exchange "v" text).1 =
          .ok (some n) := by
  intro n x key server client
  have hordered : n.Ordered := by
    simp only [n, Node.Ordered, Node.AllOrdered, Node.FacetsOrdered, Node.ofKind]
    decide
  have hlength : n.toWire.length = 25 := by
    simp +decide [n, Node.toWire, Node.childrenToWire, Node.facetsToWire, Node.ofKind,
      Role.toWire, Wire.entries, Wire.list, Wire.option, Wire.text, Wire.bytes,
      Text.Utf8.length_encode, Wire.varint_of_lt]
  have hlimit : ¬ Envelope.limit < n.toWire.length := by
    rw [hlength]
    decide
  constructor
  · have hsaved : (server.save (x none) "v" n).result =
        .ok (.ticket (Ticket.encode server.hash ⟨"v", 1⟩)) := by
      simp only [server, trees, Node.codec, save]
      rw [if_neg hlimit]
      rfl
    exact (restore_save Blake3.hash ⟨0, none⟩ (.fresh (.inl rfl)) "v" hordered hsaved).1
  · have hsize : (Envelope.payloadBytes Blake3.hash (some key) ⟨"v", n.toWire⟩).length = 66 := by
      rw [Envelope.payloadBytes_eq, List.length_append, Envelope.length_tag_some,
        Envelope.length_content]
      simp +decide [SavedView.toWire, Wire.text, Wire.bytes, hlength, Text.Utf8.length_encode,
        Wire.varint_of_lt, Envelope.headerLength, Envelope.tagLength]
    obtain ⟨text, hpack⟩ := Envelope.exists_pack_eq_ok Blake3.hash (some key) ⟨"v", n.toWire⟩
      (by rw [hsize]; decide)
    have hmode : (Exchange.mode { x (some " Client") with
        request := (x (some " Client")).request.beginSaving }).1 = .client := by
      decide
    have hencode (request : Request) : client.codec.encode request n = .ok n.toWire := rfl
    have hsaved : (client.save (x (some " Client")) "v" n).result = .ok (.payload text) := by
      simp only [save, hencode, if_neg hlimit, client.keep_client hmode]
      exact congrArg (Except.map Saved.payload) hpack
    exact ⟨text, hsaved,
      (restore_save Blake3.hash ⟨20, some key⟩ (.fresh (.inl rfl)) "v" hordered hsaved).1⟩

end Persistence

end ViewState
