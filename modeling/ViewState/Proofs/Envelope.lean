import ViewState.Envelope
import ViewState.Hash.Blake3
import ViewState.Proofs.Base64Url
import ViewState.Proofs.Ticket

/-!
A payload is opened to what was packed in it. The sizes that packing accepts are sizes that opening
accepts, so no size check stands between the two.
-/
namespace ViewState

namespace Header

@[simp] theorem length_toBytes (h : Header) : h.toBytes.length = 6 := by
  simp [toBytes]

theorem ofBytes_new (signed : Bool) (rest : List UInt8) :
    ofBytes ((new signed).toBytes ++ rest) = .ok (new signed) := by
  cases signed <;> rfl

@[simp] theorem validate_new (signed : Bool) : (new signed).validate = .ok () := by
  cases signed <;> rfl

@[simp] theorem signed_new (signed : Bool) : (new signed).signed = signed := by
  cases signed <;> rfl

end Header

namespace Envelope

variable (h : Hash)

theorem drop_content (signed : Bool) (s : SavedView) :
    (content signed s).drop headerLength = s.toWire := by
  rw [content, headerLength, List.drop_append_of_le_length (by simp), List.drop_of_length_le]
  · rfl
  · simp

theorem length_content (signed : Bool) (s : SavedView) :
    (content signed s).length = headerLength + s.toWire.length := by
  simp [content, headerLength]

/-- What follows the content of a payload: the digest of the content, under a key. -/
def tag (key : Option Digest) (s : SavedView) : List UInt8 :=
  match key with
  | some key => (h.keyed key (content true s)).toList
  | none => []

theorem payloadBytes_eq (key : Option Digest) (s : SavedView) :
    payloadBytes h key s = content key.isSome s ++ tag h key s := by
  cases key with
  | none => exact (List.append_nil _).symm
  | some key => rfl

theorem length_tag_some (key : Digest) (s : SavedView) : (tag h (some key) s).length = tagLength :=
  Vector.length_toList

/-- Whoever holds the key of a payload, or no key at all, finds its body. -/
theorem body_payloadBytes {key key' : Option Digest} (hkey : key' = key ∨ key' = none)
    (view : String) (s : SavedView) :
    body h key' view key.isSome (payloadBytes h key s) = .ok s.toWire := by
  rw [payloadBytes_eq]
  cases key with
  | none =>
    obtain rfl : key' = none := hkey.elim id id
    simp only [tag, List.append_nil, Option.isSome_none, body, drop_content]
  | some key =>
    have htag := length_tag_some h key s
    have hcovered : (content true s ++ tag h (some key) s).length - tagLength =
        (content true s).length := by
      rw [List.length_append, htag, Nat.add_sub_cancel]
    have hlong : headerLength + tagLength ≤ (content true s ++ tag h (some key) s).length := by
      rw [List.length_append, htag, length_content]
      omega
    rcases hkey with rfl | rfl
    · simp only [body, Option.isSome_some, hcovered, List.splitAt_eq, List.take_left',
        List.drop_left', drop_content]
      rw [if_pos ⟨hlong, rfl⟩]
    · simp only [body, Option.isSome_some, hcovered, List.take_left', drop_content]
      rw [if_pos hlong]

theorem length_toWire_le (key : Option Digest) (s : SavedView) :
    s.toWire.length ≤ (payloadBytes h key s).length := by
  rw [payloadBytes_eq, List.length_append, length_content]
  omega

theorem pack_eq_ok {key : Option Digest} {s : SavedView} {text : String}
    (hpack : pack h key s = .ok text) :
    text = Base64Url.encode (payloadBytes h key s) ∧ text.utf8ByteSize ≤ limit := by
  simp only [pack] at hpack
  split at hpack
  · cases hpack
  · next hsize =>
    cases hpack
    exact ⟨rfl, Nat.not_lt.1 hsize⟩

theorem addressable_of_pack {key : Option Digest} {s : SavedView} {text : String}
    (hpack : pack h key s = .ok text) : s.Addressable := by
  obtain ⟨rfl, hsize⟩ := pack_eq_ok h hpack
  have hwire := length_toWire_le h key s
  have hview := Wire.length_text s.view
  have hstate := Wire.length_bytes s.state
  rw [SavedView.toWire, List.length_append] at hwire
  rw [Base64Url.utf8ByteSize_encode, limit] at hsize
  have hword : UInt64.size = 18446744073709551616 := rfl
  exact ⟨by omega, by omega⟩

theorem unpack_packed {key : Option Digest} {s : SavedView} {text : String}
    (hpack : pack h key s = .ok text) (key' : Option Digest) (view : String) :
    unpack h key' view text =
      (body h key' view key.isSome (payloadBytes h key s)).bind fun body =>
        ((SavedView.read.first body).mapError (.malformed ∘ .payloadBody)).map fun saved =>
          if saved.view = view then some saved.state else none := by
  obtain ⟨rfl, hsize⟩ := pack_eq_ok h hpack
  have hheader : Header.ofBytes (payloadBytes h key s) = .ok (Header.new key.isSome) := by
    rw [payloadBytes_eq, content, List.append_assoc, Header.ofBytes_new]
  have hok {ε α : Type} (f : ε → Failure) (a : α) :
      (Except.ok a : Except ε α).mapError f = .ok a := rfl
  unfold unpack
  rw [if_neg (Nat.not_lt.2 hsize), Base64Url.trim_encode, Base64Url.decode_encode]
  simp only [hok, bind, Except.bind, hheader, Header.validate_new, Header.signed_new]
  rfl

theorem unpack_pack {key key' : Option Digest} (hkey : key' = key ∨ key' = none) {s : SavedView}
    {text : String} (hpack : pack h key s = .ok text) (view : String) :
    unpack h key' view text = .ok (if s.view = view then some s.state else none) := by
  have hread := (SavedView.takes (addressable_of_pack h hpack)).first []
  rw [List.append_nil] at hread
  rw [unpack_packed h hpack, body_payloadBytes h hkey view s]
  show ((SavedView.read.first s.toWire).mapError _).map _ = _
  rw [hread]
  rfl

/-- Packing without a key announces no digest, and that is tampering to whoever has a key. -/
theorem unpack_unsigned {s : SavedView} {text : String} (hpack : pack h none s = .ok text)
    (key : Digest) (view : String) : unpack h (some key) view text = .error (.tampered view) := by
  rw [unpack_packed h hpack]
  rfl

theorem exists_pack_eq_ok (key : Option Digest) (s : SavedView)
    (hsize : 4 * (payloadBytes h key s).length + 2 ≤ 3 * limit) :
    ∃ text, pack h key s = .ok text := by
  refine ⟨Base64Url.encode (payloadBytes h key s), ?_⟩
  unfold pack
  rw [if_neg]
  rw [Base64Url.utf8ByteSize_encode]
  omega

/-- A payload that was packed for a view, with a key or without one, is opened with the same key or
with none to the state packed for the view, and holds nothing for any other view. If it was packed
without a key it is tampered with under each key. -/
theorem unpack_key_or_none {key key' : Option Digest}
    (hkey : key' = key ∨ key = none ∨ key' = none) {view : String} {state : List UInt8}
    {text : String} (hpack : pack h key ⟨view, state⟩ = .ok text) (view' : String) :
    unpack h key' view' text =
      if key = none ∧ key' ≠ none then .error (.tampered view')
      else .ok (if view = view' then some state else none) := by
  by_cases hunsigned : key = none ∧ key' ≠ none
  · rw [if_pos hunsigned]
    obtain ⟨rfl, hkey'⟩ := hunsigned
    obtain ⟨key', rfl⟩ := Option.ne_none_iff_exists'.1 hkey'
    exact unpack_unsigned h hpack key' view'
  · rw [if_neg hunsigned]
    have hkey' : key' = key ∨ key' = none := by
      rcases hkey with rfl | rfl | rfl
      · exact .inl rfl
      · exact .inr (Decidable.not_not.1 fun hne => hunsigned ⟨rfl, hne⟩)
      · exact .inr rfl
    exact unpack_pack h hkey' hpack view'

/-- A payload packed with a key, which is opened without one, and one packed without a key, which is
not opened with one. -/
theorem unpack_key_or_none_page :
    let key := keyOf Blake3.hash "secret"
    (∃ text, pack Blake3.hash (some key) ⟨"page", [1, 2, 3]⟩ = .ok text ∧
      unpack Blake3.hash none "page" text = .ok (some [1, 2, 3]) ∧
      unpack Blake3.hash (some key) "panel" text = .ok none) ∧
    ∃ text, pack Blake3.hash none ⟨"page", [1, 2, 3]⟩ = .ok text ∧
      unpack Blake3.hash (some key) "page" text = .error (.tampered "page") := by
  intro key
  have hwire : (SavedView.mk "page" [1, 2, 3]).toWire.length = 9 := by
    simp +decide [SavedView.toWire, Wire.text, Wire.bytes, Text.Utf8.length_encode,
      Wire.varint_of_lt]
  have hsigned : (payloadBytes Blake3.hash (some key) ⟨"page", [1, 2, 3]⟩).length = 47 := by
    rw [payloadBytes_eq, List.length_append, length_tag_some, length_content, hwire]
    rfl
  have hunsigned : (payloadBytes Blake3.hash none ⟨"page", [1, 2, 3]⟩).length = 15 := by
    rw [payloadBytes_eq, List.length_append, length_content, hwire]
    rfl
  obtain ⟨text, hpack⟩ := exists_pack_eq_ok Blake3.hash (some key) ⟨"page", [1, 2, 3]⟩
    (by rw [hsigned]; decide)
  obtain ⟨text', hpack'⟩ := exists_pack_eq_ok Blake3.hash none ⟨"page", [1, 2, 3]⟩
    (by rw [hunsigned]; decide)
  exact ⟨⟨text, hpack, unpack_key_or_none Blake3.hash (.inr (.inr rfl)) hpack "page",
      unpack_key_or_none Blake3.hash (.inl rfl) hpack "panel"⟩,
    text', hpack', unpack_key_or_none Blake3.hash (.inr (.inl rfl)) hpack' "page"⟩

end Envelope

end ViewState
