import ViewState.Hash.Blake3
import ViewState.Proofs.Ticket
import ViewState.Proofs.Wire.Reading
import ViewState.Text.Blank

/-!
Which texts are read as a ticket. Its own text is, with or without white space around it; so are
texts that spell its sequence number in a longer numeral, or in which bytes follow the digest. Among
all of them its own text is the shortest.
-/
namespace ViewState

namespace PostedTicket

variable {bytes rest numeral : List UInt8} {p : PostedTicket}

theorem digest_of_run {d : Digest} (h : readDigest.run bytes = .ok (d, rest)) :
    bytes = d.toList ++ rest := by
  unfold readDigest at h
  obtain ⟨front, behind, hfront, hdigest⟩ := Wire.run_bind_eq_ok h
  obtain ⟨hlength, hbytes⟩ := Wire.readExactly_eq_ok_iff.1 hfront
  rw [dif_pos (by simpa using hlength)] at hdigest
  cases hdigest
  simpa using hbytes

theorem takes_numeral (hnumeral : Wire.Numeral p.sequence.toNat numeral)
    (hlength : numeral.length ≤ Wire.word64.bytes) :
    Wire.Takes read (numeral ++ p.digest.toList) p := by
  have hsame : PostedTicket.mk (UInt64.ofNat p.sequence.toNat) p.digest = p := by
    rw [UInt64.ofNat_toNat]
  have hsequence : Wire.Takes (Wire.readVarint Wire.word64) numeral p.sequence.toNat := fun rest =>
    Wire.readVarint_eq_ok_iff.2 ⟨p.sequence.toNat_lt, numeral, hnumeral, hlength, rfl⟩
  have hdigest := (takes_digest p.digest).map (PostedTicket.mk (UInt64.ofNat p.sequence.toNat))
  rw [hsame] at hdigest
  exact hsequence.bind hdigest

theorem read_eq_ok_iff :
    read.run bytes = .ok (p, rest) ↔
      ∃ numeral, Wire.Numeral p.sequence.toNat numeral ∧ numeral.length ≤ Wire.word64.bytes ∧
        bytes = numeral ++ p.digest.toList ++ rest := by
  constructor
  · intro h
    unfold read at h
    obtain ⟨sequence, behind, hsequence, hrest⟩ := Wire.run_bind_eq_ok h
    obtain ⟨digest, behind', hdigest, hticket⟩ := Wire.run_bind_eq_ok hrest
    obtain ⟨hsize, numeral, hnumeral, hlength, hbytes⟩ := Wire.readVarint_eq_ok_iff.1 hsequence
    cases hticket
    refine ⟨numeral, ?_, hlength, ?_⟩
    · rwa [UInt64.toNat_ofNat_of_lt' hsize]
    · rw [hbytes, digest_of_run hdigest, List.append_assoc]
  · rintro ⟨numeral, hnumeral, hlength, rfl⟩
    exact takes_numeral hnumeral hlength rest

theorem parse_eq_some_iff_decode {raw : String} :
    parse raw = some p ↔
      Text.trim raw ≠ "" ∧ (Text.trim raw).utf8ByteSize ≤ longest ∧
        ∃ bytes, Base64Url.decode (Text.trim raw) = .ok bytes ∧ read.first bytes = .ok p := by
  unfold parse
  generalize Text.trim raw = text
  by_cases hrefused : text.isEmpty ∨ longest < text.utf8ByteSize
  · rw [if_pos hrefused]
    constructor
    · intro hnone
      cases hnone
    · rintro ⟨hne, hsize, -⟩
      rcases hrefused with hempty | hlong
      · exact absurd (String.isEmpty_iff.1 hempty) hne
      · exact absurd hsize (Nat.not_le.2 hlong)
  · rw [if_neg hrefused]
    rw [not_or, String.isEmpty_iff, Nat.not_lt] at hrefused
    cases Base64Url.decode text with
    | error defect => simp [Except.toOption]
    | ok bytes =>
      cases hread : read.first bytes with
      | error defect => simp [Except.toOption, hread]
      | ok posted => simp [Except.toOption, hread, hrefused]

theorem parse_eq_some_iff {raw : String} :
    parse raw = some p ↔
      (Text.trim raw).utf8ByteSize ≤ longest ∧
        ∃ numeral rest, Wire.Numeral p.sequence.toNat numeral ∧
          numeral.length ≤ Wire.word64.bytes ∧
          Text.trim raw = Base64Url.encode (numeral ++ p.digest.toList ++ rest) := by
  rw [parse_eq_some_iff_decode]
  simp only [Base64Url.decode_eq_ok_iff, Wire.first_eq_ok_iff, read_eq_ok_iff]
  constructor
  · rintro ⟨-, hsize, bytes, htext, rest, numeral, hnumeral, hlength, rfl⟩
    exact ⟨hsize, numeral, rest, hnumeral, hlength, htext⟩
  · rintro ⟨hsize, numeral, rest, hnumeral, hlength, htext⟩
    refine ⟨?_, hsize, _, htext, rest, numeral, hnumeral, hlength, rfl⟩
    intro hempty
    have hbytes := congrArg String.utf8ByteSize (htext.symm.trans hempty)
    rw [Base64Url.utf8ByteSize_encode, List.length_append, List.length_append,
      Vector.length_toList, String.utf8ByteSize_empty] at hbytes
    omega

theorem forView_eq_some_iff {h : Hash} {view : String} {t : Ticket} :
    p.forView h view = some t ↔ p = t.posted h ∧ t.view = view := by
  constructor
  · intro ht
    unfold forView at ht
    split at ht
    · next hdigest =>
      cases ht
      exact ⟨by rw [Ticket.posted, ← hdigest], rfl⟩
    · cases ht
  · rintro ⟨rfl, rfl⟩
    exact if_pos rfl

end PostedTicket

namespace Ticket

variable (h : Hash)

/-- A ticket is read back from its text with any white space around it, and is then one for the
views whose digest is that of its own view. The text is URL-safe and never too long. -/
theorem read_back (t : Ticket) {before after : String}
    (hbefore : ∀ c ∈ before.toList, Text.isBlank c) (hafter : ∀ c ∈ after.toList, Text.isBlank c) :
    (∃ p, PostedTicket.parse (before ++ t.encode h ++ after) = some p ∧
      p.sequence = t.sequence ∧ p.forView h t.view = some t ∧
      ∀ view u, p.forView h view = some u ↔
        viewDigest h view = viewDigest h t.view ∧ u = ⟨view, t.sequence⟩) ∧
    (∀ c ∈ (t.encode h).toList, Base64Url.UrlSafe c) ∧
    (t.encode h).utf8ByteSize ≤ PostedTicket.longest := by
  refine ⟨⟨t.posted h, ?_, rfl, ?_, fun view u => ?_⟩, Base64Url.urlSafe_encode _,
    t.utf8ByteSize_encode_le h⟩
  · have hown := t.parse_encode h
    unfold PostedTicket.parse at hown ⊢
    rwa [Text.trim_between hbefore hafter]
  · exact PostedTicket.forView_eq_some_iff.2 ⟨rfl, rfl⟩
  · rw [PostedTicket.forView_eq_some_iff]
    constructor
    · rintro ⟨hposted, rfl⟩
      obtain ⟨hsequence, hdigest⟩ := PostedTicket.mk.inj hposted
      exact ⟨hdigest.symm, by rw [hsequence]⟩
    · rintro ⟨hdigest, rfl⟩
      exact ⟨by rw [posted, posted, hdigest], rfl⟩

/-- The longest text there is, between characters of white space. -/
theorem read_back_blanks :
    let t : Ticket := ⟨"/orders/edit.xhtml", 18446744073709551615⟩
    (∀ c ∈ " \t\n".toList, Text.isBlank c) ∧ (∀ c ∈ "\u00a0\u3000".toList, Text.isBlank c) ∧
      (∃ p, PostedTicket.parse (" \t\n" ++ t.encode Blake3.hash ++ "\u00a0\u3000") = some p ∧
        p.sequence = 18446744073709551615 ∧ p.forView Blake3.hash t.view = some t ∧
        ∀ view u, p.forView Blake3.hash view = some u ↔
          viewDigest Blake3.hash view = viewDigest Blake3.hash t.view ∧
            u = ⟨view, 18446744073709551615⟩) ∧
      (∀ c ∈ (t.encode Blake3.hash).toList, Base64Url.UrlSafe c) ∧
      (t.encode Blake3.hash).utf8ByteSize ≤ PostedTicket.longest := by
  intro t
  have hbefore : ∀ c ∈ " \t\n".toList, Text.isBlank c := List.all_eq_true.1 (by decide)
  have hafter : ∀ c ∈ "\u00a0\u3000".toList, Text.isBlank c := List.all_eq_true.1 (by decide)
  exact ⟨hbefore, hafter, read_back Blake3.hash t hbefore hafter⟩

/-- The bytes of a ticket's own text are the fewest. -/
theorem length_toWire_le_of_numeral (t : Ticket) {numeral : List UInt8}
    (hnumeral : Wire.Numeral t.sequence.toNat numeral) (rest : List UInt8) :
    (t.posted h).toWire.length ≤ (numeral ++ (viewDigest h t.view).toList ++ rest).length := by
  have := hnumeral.length_varint_le
  simp only [PostedTicket.toWire, posted, List.length_append]
  omega

/-- No other bytes that are read as a ticket are as few. -/
theorem eq_toWire_of_length_le (t : Ticket) {numeral rest : List UInt8}
    (hnumeral : Wire.Numeral t.sequence.toNat numeral)
    (hshort : (numeral ++ (viewDigest h t.view).toList ++ rest).length ≤
      (t.posted h).toWire.length) :
    numeral ++ (viewDigest h t.view).toList ++ rest = (t.posted h).toWire := by
  have hle := hnumeral.length_varint_le
  simp only [PostedTicket.toWire, posted, List.length_append] at hshort ⊢
  obtain rfl : rest = [] := List.length_eq_zero_iff.1 (by omega)
  rw [hnumeral.eq_varint (by omega), List.append_nil]

/-- A text is read as a ticket exactly if it spells, apart from white space around it, any numeral
of the sequence number, the digest of the view and any further bytes, and is not too long. The
ticket's own text is the shortest of these, and the only one of its length. -/
theorem read_as_iff (raw view : String) (t : Ticket) :
    (((PostedTicket.parse raw).bind fun p => p.forView h view) = some t ↔
      t.view = view ∧ (Text.trim raw).utf8ByteSize ≤ PostedTicket.longest ∧
        ∃ numeral rest, Wire.Numeral t.sequence.toNat numeral ∧
          numeral.length ≤ Wire.word64.bytes ∧
          Text.trim raw = Base64Url.encode (numeral ++ (viewDigest h view).toList ++ rest)) ∧
    (((PostedTicket.parse raw).bind fun p => p.forView h view) = some t →
      (t.encode h).utf8ByteSize ≤ (Text.trim raw).utf8ByteSize ∧
      (Text.trim raw = t.encode h ↔
        (Text.trim raw).utf8ByteSize = (t.encode h).utf8ByteSize)) := by
  have hread : ((PostedTicket.parse raw).bind fun p => p.forView h view) = some t ↔
      t.view = view ∧ (Text.trim raw).utf8ByteSize ≤ PostedTicket.longest ∧
        ∃ numeral rest, Wire.Numeral t.sequence.toNat numeral ∧
          numeral.length ≤ Wire.word64.bytes ∧
          Text.trim raw = Base64Url.encode (numeral ++ (viewDigest h view).toList ++ rest) := by
    simp only [Option.bind_eq_some_iff, PostedTicket.forView_eq_some_iff,
      PostedTicket.parse_eq_some_iff]
    constructor
    · rintro ⟨_, hparse, rfl, rfl⟩
      exact ⟨rfl, hparse⟩
    · rintro ⟨rfl, hparse⟩
      exact ⟨t.posted h, hparse, rfl, rfl⟩
  refine ⟨hread, fun hsome => ?_⟩
  obtain ⟨rfl, -, numeral, rest, hnumeral, -, htext⟩ := hread.1 hsome
  have hle := t.length_toWire_le_of_numeral h hnumeral rest
  rw [htext, encode, Base64Url.utf8ByteSize_encode, Base64Url.utf8ByteSize_encode]
  refine ⟨by omega, fun hsame => ?_, fun hsize => ?_⟩
  · rw [← Base64Url.utf8ByteSize_encode, ← Base64Url.utf8ByteSize_encode, hsame]
  · rw [t.eq_toWire_of_length_le h hnumeral (by omega)]

/-- A byte behind the digest. -/
theorem read_as_iff_followed :
    let t : Ticket := ⟨"/a.xhtml", 7⟩
    let raw := " B9ff3O0G6efhpUMTRvcL1mnZHyjyqxfWkiBQXolsQCLPAA"
    ((PostedTicket.parse raw).bind fun p => p.forView Blake3.hash t.view) = some t ∧
      (t.encode Blake3.hash).utf8ByteSize ≤ (Text.trim raw).utf8ByteSize ∧
      Text.trim raw ≠ t.encode Blake3.hash := by
  intro t raw
  have hread : ((PostedTicket.parse raw).bind fun p => p.forView Blake3.hash t.view) = some t := by
    decide +kernel
  obtain ⟨hle, hown⟩ := (read_as_iff Blake3.hash raw t.view t).2 hread
  refine ⟨hread, hle, fun hsame => ?_⟩
  have hsize : (Text.trim raw).utf8ByteSize ≠ (t.encode Blake3.hash).utf8ByteSize := by
    decide +kernel
  exact hsize (hown.1 hsame)

/-- A text with a longer numeral, and one with a byte behind the digest, are read as a ticket whose
own text is another. -/
theorem read_as_lengthened :
    let t : Ticket := ⟨"/a.xhtml", 7⟩
    t.encode Blake3.hash = "B9ff3O0G6efhpUMTRvcL1mnZHyjyqxfWkiBQXolsQCLP" ∧
      ∀ raw ∈ ["B9ff3O0G6efhpUMTRvcL1mnZHyjyqxfWkiBQXolsQCLPAA",
          "hwDX39ztBunn4aVDE0b3C9Zp2R8o8qsX1pIgUF6JbEAizw"],
        ((PostedTicket.parse raw).bind fun p => p.forView Blake3.hash t.view) = some t ∧
          Text.trim raw ≠ t.encode Blake3.hash := by
  decide +kernel

end Ticket

end ViewState
