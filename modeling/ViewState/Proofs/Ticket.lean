import ViewState.Proofs.Base64Url
import ViewState.Proofs.Wire
import ViewState.Ticket

/-!
The text of a ticket is read back to its sequence number and the digest of its view, whatever the
hash function does. So tickets with different sequence numbers have different texts.
-/
namespace ViewState

namespace SavedView

/-- The lengths of the view and of its state are words of 64 bits. -/
def Addressable (s : SavedView) : Prop :=
  s.view.utf8ByteSize < UInt64.size ∧ s.state.length < UInt64.size

instance (s : SavedView) : Decidable s.Addressable :=
  inferInstanceAs (Decidable (_ ∧ _))

theorem takes {s : SavedView} (h : s.Addressable) : Wire.Takes read s.toWire s :=
  (Wire.takes_text h.1).bind ((Wire.takes_bytes h.2).map (SavedView.mk s.view))

theorem refuses {s : SavedView} (h : ¬ s.Addressable) :
    Wire.Refuses read s.toWire .unendingVarint := by
  rcases Nat.lt_or_ge s.view.utf8ByteSize UInt64.size with hview | hview
  · have hstate : UInt64.size ≤ s.state.length := Nat.not_lt.1 fun hstate => h ⟨hview, hstate⟩
    apply (Wire.takes_text hview).bind_refuses
    have hbytes := (Wire.refuses_bytes hstate).bind
      (fun state => return SavedView.mk s.view state) []
    rwa [List.append_nil] at hbytes
  · exact (Wire.refuses_text hview).bind _ _

theorem first_toWire (s : SavedView) :
    read.first s.toWire = if s.Addressable then .ok s else .error .unendingVarint := by
  rw [← List.append_nil s.toWire]
  split
  · next h => exact (takes h).first []
  · next h => exact (refuses h).first []

end SavedView

namespace PostedTicket

theorem takes_digest (d : Digest) : Wire.Takes readDigest d.toList d := by
  have hlength : d.toList.length = 32 := by simp
  have hbytes : Wire.Takes (Wire.readExactly 32) d.toList d.toList := by
    have hexactly := Wire.takes_exactly d.toList
    rwa [hlength] at hexactly
  intro rest
  rw [readDigest, StateT.run_bind, hbytes]
  simp only [bind, Except.bind]
  rw [dif_pos (by simp)]
  simp
  rfl

theorem takes (p : PostedTicket) : Wire.Takes read p.toWire p := by
  have hsame : PostedTicket.mk (UInt64.ofNat p.sequence.toNat) p.digest = p := by
    rw [UInt64.ofNat_toNat]
  have hdigest := (takes_digest p.digest).map (PostedTicket.mk (UInt64.ofNat p.sequence.toNat))
  rw [hsame] at hdigest
  exact (Wire.takes_varint p.sequence.toNat_lt).bind hdigest

theorem length_toWire_le (p : PostedTicket) : p.toWire.length ≤ 42 := by
  have hsequence : (Wire.varint p.sequence.toNat).length ≤ 10 :=
    Wire.length_varint_le (show _ < Wire.reach 127 9 from
      Nat.lt_trans p.sequence.toNat_lt (by decide))
  rw [toWire, List.length_append, Vector.length_toList]
  omega

theorem view_of_forView {h : Hash} {posted : PostedTicket} {view : String} {t : Ticket}
    (ht : posted.forView h view = some t) : t.view = view := by
  unfold forView at ht
  split at ht
  · cases ht
    rfl
  · cases ht

end PostedTicket

namespace Ticket

variable (h : Hash)

theorem utf8ByteSize_encode_le (t : Ticket) : (t.encode h).utf8ByteSize ≤ PostedTicket.longest := by
  have := (t.posted h).length_toWire_le
  rw [encode, Base64Url.utf8ByteSize_encode, PostedTicket.longest]
  omega

theorem encode_ne_empty (t : Ticket) : (t.encode h).isEmpty = false := by
  have hsize : 0 < (t.encode h).utf8ByteSize := by
    have : (t.posted h).toWire.length = _ := List.length_append
    rw [encode, Base64Url.utf8ByteSize_encode, this, Vector.length_toList]
    omega
  rw [Bool.eq_false_iff, ne_eq, String.isEmpty_iff]
  intro hempty
  rw [hempty] at hsize
  exact absurd hsize (by decide)

theorem parse_encode (t : Ticket) : PostedTicket.parse (t.encode h) = some (t.posted h) := by
  have htrim : Text.trim (t.encode h) = t.encode h := Base64Url.trim_encode _
  have hlong := Nat.not_lt.2 (t.utf8ByteSize_encode_le h)
  have hread := (t.posted h).takes.first []
  rw [List.append_nil] at hread
  rw [PostedTicket.parse, htrim, if_neg (by simp [t.encode_ne_empty h, hlong]), encode,
    Base64Url.decode_encode]
  simp only [Except.toOption, Option.bind_eq_bind, Option.bind_some, hread]

theorem sequence_eq_of_encode_eq {t u : Ticket} (heq : t.encode h = u.encode h) :
    t.sequence = u.sequence := by
  have hposted : some (t.posted h) = some (u.posted h) := by
    rw [← parse_encode, ← parse_encode, heq]
  exact congrArg PostedTicket.sequence (Option.some.inj hposted)

theorem forView_posted (t : Ticket) (view : String) :
    (t.posted h).forView h view =
      if viewDigest h t.view = viewDigest h view then some ⟨view, t.sequence⟩ else none := rfl

end Ticket

end ViewState
