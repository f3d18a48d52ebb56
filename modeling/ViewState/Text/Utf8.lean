/-!
UTF-8 as lists of bytes. Decoding accepts exactly the encodings of texts.
-/
namespace ViewState.Text.Utf8

def encode (s : String) : List UInt8 := s.toByteArray.data.toList

def decode (bytes : List UInt8) : Option String := String.fromUTF8? ⟨bytes.toArray⟩

@[simp] theorem length_encode (s : String) : (encode s).length = s.utf8ByteSize := by
  simp only [encode, Array.length_toList]
  rfl

@[simp] theorem decode_encode (s : String) : decode (encode s) = some s := by
  have h : (⟨s.toByteArray.data.toList.toArray⟩ : ByteArray) = s.toByteArray := rfl
  simp only [decode, encode, h, String.fromUTF8?, s.isValidUTF8, dif_pos]
  rfl

theorem encode_of_decode {bytes : List UInt8} {s : String} (h : decode bytes = some s) :
    encode s = bytes := by
  unfold decode String.fromUTF8? at h
  split at h
  · cases h
    simp [encode, String.fromUTF8]
  · simp at h

theorem decode_eq_some_iff {bytes : List UInt8} {s : String} :
    decode bytes = some s ↔ bytes = encode s :=
  ⟨fun h => (encode_of_decode h).symm, fun h => h ▸ decode_encode s⟩

end ViewState.Text.Utf8
