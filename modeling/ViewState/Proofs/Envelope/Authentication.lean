import ViewState.Proofs.Base64Url.Spelling
import ViewState.Proofs.Envelope

/-!
What a key lets through. A payload is opened under a key only if its bytes end with the keyed digest
of all that stands before it, and every other payload with a valid header is tampered with, whatever
its body would say. Nothing is asked of the hash function.
-/
namespace ViewState

namespace Header

/-- The bytes of a payload: the mark `VKST`, the first version and some flags, and what follows. -/
def framed (flags : UInt8) (rest : List UInt8) : List UInt8 :=
  [0x56, 0x4b, 0x53, 0x54, 1, flags] ++ rest

theorem length_framed (flags : UInt8) (rest : List UInt8) :
    (framed flags rest).length = Envelope.headerLength + rest.length := by
  simp [framed, Envelope.headerLength]
  omega

theorem drop_framed (flags : UInt8) (rest : List UInt8) :
    (framed flags rest).drop Envelope.headerLength = rest := rfl

theorem take_framed (flags : UInt8) (rest : List UInt8) (n : Nat) :
    (framed flags rest).take (Envelope.headerLength + n) = framed flags (rest.take n) := by
  simp [framed, Envelope.headerLength, Nat.add_comm 6 n]

theorem validate_eq_ok {header : Header} (h : header.validate = .ok ()) :
    header = ⟨magicBytes, 1, header.flags⟩ := by
  unfold validate at h
  split at h
  · cases h
  · next hmagic =>
    split at h
    · cases h
    · next hversion =>
      cases header
      simp_all

theorem eq_framed_of_ofBytes {bytes : List UInt8} {flags : UInt8}
    (h : ofBytes bytes = .ok ⟨magicBytes, 1, flags⟩) : ∃ rest, bytes = framed flags rest := by
  unfold ofBytes at h
  split at h
  · next a b c d version flags' rest =>
    cases h
    exact ⟨rest, rfl⟩
  · cases h

theorem ofBytes_ne_tampered {bytes : List UInt8} {e : Failure} (h : ofBytes bytes = .error e)
    (view : String) : e ≠ .tampered view := by
  unfold ofBytes at h
  split at h
  · cases h
  · cases h
    simp

theorem validate_ne_tampered {header : Header} {e : Failure} (h : header.validate = .error e)
    (view : String) : e ≠ .tampered view := by
  unfold validate at h
  split at h
  · cases h
    simp
  · split at h
    · cases h
      simp
    · cases h

end Header

namespace Envelope

open Header

variable (h : Hash) (key : Digest) {payload : String} {flags : UInt8} {rest : List UInt8}

/-- What follows a header is not a body and the keyed digest of header and body, or the header does
not announce the digest. -/
def Forged (flags : UInt8) (rest : List UInt8) : Prop :=
  flags &&& 1 = 0 ∨ rest.length < tagLength ∨
    (h.keyed key (framed flags (rest.take (rest.length - tagLength)))).toList ≠
      rest.drop (rest.length - tagLength)

instance (flags : UInt8) (rest : List UInt8) : Decidable (Forged h key flags rest) :=
  inferInstanceAs (Decidable (_ ∨ _ ∨ _))

theorem not_forged_iff :
    ¬ Forged h key flags rest ↔
      flags &&& 1 ≠ 0 ∧ ∃ body, rest = body ++ (h.keyed key (framed flags body)).toList := by
  simp only [Forged, not_or, Decidable.not_not, Nat.not_lt]
  constructor
  · rintro ⟨hsigned, -, htag⟩
    refine ⟨hsigned, rest.take (rest.length - tagLength), ?_⟩
    rw [htag, List.take_append_drop]
  · rintro ⟨hsigned, body, rfl⟩
    have hcovered : (body ++ (h.keyed key (framed flags body)).toList).length - tagLength =
        body.length := by
      simp [tagLength]
    rw [hcovered, List.take_left, List.drop_left]
    exact ⟨hsigned, by simp [tagLength], rfl⟩

theorem body_framed (view : String) (flags : UInt8) (rest : List UInt8) :
    body h (some key) view (Header.signed ⟨magicBytes, 1, flags⟩) (framed flags rest) =
      if Forged h key flags rest then .error (.tampered view)
      else .ok (rest.take (rest.length - tagLength)) := by
  unfold Forged Header.signed
  by_cases hsigned : flags &&& 1 = 0
  · simp [body, hsigned]
  by_cases hshort : rest.length < tagLength
  · have hcovered : ¬ headerLength + tagLength ≤ (framed flags rest).length := by
      rw [length_framed]
      omega
    simp [body, hsigned, hshort, hcovered]
  · have hcovered : (framed flags rest).length - tagLength =
        headerLength + (rest.length - tagLength) := by
      rw [length_framed]
      omega
    have hlong : headerLength + tagLength ≤ (framed flags rest).length := by
      rw [length_framed]
      omega
    have hdrop : (framed flags rest).drop (headerLength + (rest.length - tagLength)) =
        rest.drop (rest.length - tagLength) := by
      rw [← List.drop_drop, drop_framed]
    simp [body, hsigned, hshort, hcovered, hlong, take_framed, drop_framed, hdrop]

/-- Only a payload of permitted size with a valid header gets as far as the question of its
origin. -/
theorem framed_or_refused (key : Option Digest) (view payload : String) :
    (payload.utf8ByteSize ≤ limit ∧
      ∃ flags rest, Base64Url.decode (Text.trim payload) = .ok (framed flags rest)) ∨
    ∃ e, unpack h key view payload = .error e ∧ e ≠ .tampered view := by
  unfold unpack
  by_cases hsize : limit < payload.utf8ByteSize
  · rw [if_pos hsize]
    exact .inr ⟨_, rfl, by simp⟩
  rw [if_neg hsize]
  cases hdecode : Base64Url.decode (Text.trim payload) with
  | error defect => exact .inr ⟨_, rfl, by simp⟩
  | ok bytes =>
    cases hheader : Header.ofBytes bytes with
    | error e =>
      refine .inr ⟨e, ?_, ?_⟩
      · show (Header.ofBytes bytes).bind _ = _
        rw [hheader]
        rfl
      · exact ofBytes_ne_tampered hheader view
    | ok header =>
      cases hvalid : header.validate with
      | error e =>
        refine .inr ⟨e, ?_, ?_⟩
        · show (Header.ofBytes bytes).bind _ = _
          rw [hheader]
          show header.validate.bind _ = _
          rw [hvalid]
          rfl
        · exact validate_ne_tampered hvalid view
      | ok _ =>
        rw [validate_eq_ok hvalid] at hheader
        obtain ⟨rest, rfl⟩ := eq_framed_of_ofBytes hheader
        exact .inl ⟨Nat.not_lt.1 hsize, _, rest, rfl⟩

theorem unpack_framed (hsize : payload.utf8ByteSize ≤ limit)
    (hdecode : Base64Url.decode (Text.trim payload) = .ok (framed flags rest))
    (key : Option Digest) (view : String) :
    unpack h key view payload =
      (body h key view (Header.signed ⟨magicBytes, 1, flags⟩) (framed flags rest)).bind fun body =>
        ((SavedView.read.first body).mapError (.malformed ∘ .payloadBody)).map fun saved =>
          if saved.view = view then some saved.state else none := by
  unfold unpack
  rw [if_neg (Nat.not_lt.2 hsize), hdecode]
  rfl

theorem unpack_forged (hsize : payload.utf8ByteSize ≤ limit)
    (hdecode : Base64Url.decode (Text.trim payload) = .ok (framed flags rest))
    (hforged : Forged h key flags rest) (view : String) :
    unpack h (some key) view payload = .error (.tampered view) := by
  rw [unpack_framed h hsize hdecode, body_framed, if_pos hforged]
  rfl

theorem unpack_sealed (hsize : payload.utf8ByteSize ≤ limit) {body : List UInt8}
    (hsigned : flags &&& 1 ≠ 0)
    (hdecode : Base64Url.decode (Text.trim payload) =
      .ok (framed flags (body ++ (h.keyed key (framed flags body)).toList))) (view : String) :
    unpack h (some key) view payload =
      ((SavedView.read.first body).mapError (.malformed ∘ .payloadBody)).map fun saved =>
        if saved.view = view then some saved.state else none := by
  have hsealed := (not_forged_iff h key).2 ⟨hsigned, body, rfl⟩
  rw [unpack_framed h hsize hdecode, body_framed, if_neg hsealed, List.length_append,
    Vector.length_toList, tagLength, Nat.add_sub_cancel, List.take_left]
  rfl

variable {h key}

theorem sealed_of_unpack {view : String} {found : Option (List UInt8)}
    (hok : unpack h (some key) view payload = .ok found) :
    payload.utf8ByteSize ≤ limit ∧ ∃ flags body saved,
      flags &&& 1 ≠ 0 ∧
      Text.trim payload = Base64Url.encode
        (framed flags body ++ (h.keyed key (framed flags body)).toList) ∧
      SavedView.read.first body = .ok saved ∧
      found = if saved.view = view then some saved.state else none := by
  rcases framed_or_refused h (some key) view payload with
    ⟨hsize, flags, rest, hdecode⟩ | ⟨e, he, -⟩
  · have hsealed : ¬ Forged h key flags rest := by
      intro hforged
      rw [unpack_forged h key hsize hdecode hforged] at hok
      cases hok
    obtain ⟨hsigned, body, rfl⟩ := (not_forged_iff h key).1 hsealed
    rw [unpack_sealed h key hsize hsigned hdecode] at hok
    cases hread : SavedView.read.first body with
    | error defect =>
      rw [hread] at hok
      cases hok
    | ok saved =>
      rw [hread] at hok
      cases hok
      exact ⟨hsize, flags, body, saved, hsigned, Base64Url.decode_eq_ok_iff.1 hdecode, hread, rfl⟩
  · rw [he] at hok
    cases hok

theorem forged_of_unpack {view : String}
    (htampered : unpack h (some key) view payload = .error (.tampered view)) :
    payload.utf8ByteSize ≤ limit ∧ ∃ flags rest,
      Base64Url.decode (Text.trim payload) = .ok (framed flags rest) ∧
      Forged h key flags rest := by
  rcases framed_or_refused h (some key) view payload with
    ⟨hsize, flags, rest, hdecode⟩ | ⟨e, he, hne⟩
  · refine ⟨hsize, flags, rest, hdecode, Decidable.by_contra fun hsealed => ?_⟩
    obtain ⟨hsigned, body, rfl⟩ := (not_forged_iff h key).1 hsealed
    rw [unpack_sealed h key hsize hsigned hdecode] at htampered
    cases hread : SavedView.read.first body <;> rw [hread] at htampered <;> cases htampered
  · rw [he] at htampered
    exact absurd (Except.error.inj htampered) hne

/-- Under a key a payload is opened just if it is the text of a header that announces a digest, a
body that can be read, and the keyed digest of the two. It is reported as tampered with just if its
header is valid and the digest is not announced, cut short or wrong, whatever its body holds. -/
theorem unpack_under_key (h : Hash) (key : Digest) (view payload : String) :
    (∀ found, unpack h (some key) view payload = .ok found ↔
      payload.utf8ByteSize ≤ limit ∧ ∃ flags body saved,
        flags &&& 1 ≠ 0 ∧
        Text.trim payload = Base64Url.encode
          (framed flags body ++ (h.keyed key (framed flags body)).toList) ∧
        SavedView.read.first body = .ok saved ∧
        found = if saved.view = view then some saved.state else none) ∧
    (unpack h (some key) view payload = .error (.tampered view) ↔
      payload.utf8ByteSize ≤ limit ∧ ∃ flags rest,
        Base64Url.decode (Text.trim payload) = .ok (framed flags rest) ∧
        Forged h key flags rest) := by
  constructor
  · intro found
    refine ⟨sealed_of_unpack, ?_⟩
    rintro ⟨hsize, flags, body, saved, hsigned, htext, hread, rfl⟩
    have hdecode : Base64Url.decode (Text.trim payload) =
        .ok (framed flags (body ++ (h.keyed key (framed flags body)).toList)) :=
      Base64Url.decode_eq_ok_iff.2 htext
    rw [unpack_sealed h key hsize hsigned hdecode, hread]
    rfl
  · refine ⟨forged_of_unpack, ?_⟩
    rintro ⟨hsize, flags, rest, hdecode, hforged⟩
    exact unpack_forged h key hsize hdecode hforged view

end Envelope

end ViewState
