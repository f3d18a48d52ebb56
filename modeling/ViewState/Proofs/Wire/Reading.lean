import ViewState.Proofs.Base64Url.Spelling
import ViewState.Proofs.Wire

/-!
What readers have taken, if they give a value. Groups of zeros may stand behind the groups of a
number, so it has many numerals, of which the writer's is the shortest; the reader takes all of them
up to its bound.
-/
namespace ViewState.Wire

theorem run_bind_eq_ok {α β : Type} {r : Reader α} {f : α → Reader β} {bytes rest : List UInt8}
    {b : β} (h : (r >>= f).run bytes = .ok (b, rest)) :
    ∃ a behind, r.run bytes = .ok (a, behind) ∧ (f a).run behind = .ok (b, rest) := by
  rw [StateT.run_bind] at h
  obtain ⟨⟨a, behind⟩, hr, hf⟩ := bind_eq_ok h
  exact ⟨a, behind, hr, hf⟩

theorem first_eq_ok_iff {α : Type} {r : Reader α} {bytes : List UInt8} {a : α} :
    r.first bytes = .ok a ↔ ∃ rest, r.run bytes = .ok (a, rest) := by
  unfold Reader.first
  cases r.run bytes with
  | error e => simp [Except.map]
  | ok found =>
    obtain ⟨b, rest⟩ := found
    simp [Except.map]

/-- Seven bits of a number in each byte, the least first; the high bit says that more follow. -/
inductive Numeral : Nat → List UInt8 → Prop
  | last {b : UInt8} (hb : b.toNat < 128) : Numeral b.toNat [b]
  | more {b : UInt8} (hb : 128 ≤ b.toNat) {high : Nat} {bs : List UInt8} (hbs : Numeral high bs) :
      Numeral (b.toNat - 128 + 128 * high) (b :: bs)

variable {n : Nat} {bs : List UInt8}

theorem varint_of_byte {b : UInt8} (hb : 128 ≤ b.toNat) {high : Nat} (hhigh : high ≠ 0) :
    varint (b.toNat - 128 + 128 * high) = b :: varint high := by
  have hbyte := b.toNat_lt
  have hdiv : (b.toNat - 128 + 128 * high) / 128 = high := by omega
  have hmod : (b.toNat - 128 + 128 * high) % 128 + 128 = b.toNat := by omega
  rw [varint_of_ge (by omega), hdiv, hmod, UInt8.ofNat_toNat]

theorem length_varint_of_byte (b : UInt8) : (varint (b.toNat - 128)).length = 1 := by
  have hbyte := b.toNat_lt
  rw [varint_of_lt (by omega)]
  rfl

namespace Numeral

theorem length_pos (h : Numeral n bs) : 0 < bs.length := by
  cases h <;> exact Nat.succ_pos _

/-- The writer's numeral is the shortest. -/
theorem length_varint_le (h : Numeral n bs) : (varint n).length ≤ bs.length := by
  induction h with
  | last hb => simp [varint_of_lt hb]
  | @more b hb high bs hbs ih =>
    by_cases hhigh : high = 0
    · rw [hhigh, Nat.mul_zero, Nat.add_zero, length_varint_of_byte]
      exact Nat.succ_pos _
    · rw [varint_of_byte hb hhigh]
      exact Nat.succ_le_succ ih

theorem eq_varint (h : Numeral n bs) (hshort : bs.length ≤ (varint n).length) : bs = varint n := by
  induction h with
  | @last b hb => rw [varint_of_lt hb, UInt8.ofNat_toNat]
  | @more b hb high bs hbs ih =>
    by_cases hhigh : high = 0
    · -- a group of zeros behind the byte makes the numeral longer than need be
      have hpos := hbs.length_pos
      rw [hhigh, Nat.mul_zero, Nat.add_zero, length_varint_of_byte, List.length_cons] at hshort
      omega
    · rw [varint_of_byte hb hhigh] at hshort ⊢
      rw [← ih (Nat.le_of_succ_le_succ hshort)]

theorem takes (h : Numeral n bs) {last : UInt8} {left : Nat} (hlength : bs.length ≤ left + 1)
    (hreach : n < reach last left) : Takes (readVarintUpTo last (left + 1)) bs n := by
  induction h generalizing left with
  | @last b hb =>
    intro rest
    have hends : ¬ (left = 0 ∧ last < b) := by
      rintro ⟨rfl, hlast⟩
      rw [UInt8.lt_iff_toNat_lt] at hlast
      rw [reach] at hreach
      omega
    rw [List.singleton_append, run_varintUpTo_cons,
      if_pos (show b < 128 from UInt8.lt_iff_toNat_lt.2 hb), if_neg hends]
  | @more b hb high bs hbs ih =>
    intro rest
    have hlarge : ¬ b < 128 := fun hsmall => Nat.not_lt.2 hb (UInt8.lt_iff_toNat_lt.1 hsmall)
    cases left with
    | zero =>
      have hpos := hbs.length_pos
      rw [List.length_cons] at hlength
      omega
    | succ left =>
      rw [reach] at hreach
      have hhigh : high < reach last left := by omega
      have hrest := ih (Nat.le_of_succ_le_succ hlength) hhigh
      rw [List.cons_append, run_varintUpTo_cons, if_neg hlarge, hrest]
      rfl

end Numeral

theorem numeral_of_run {last : UInt8} {left : Nat} {bytes rest : List UInt8}
    (h : (readVarintUpTo last (left + 1)).run bytes = .ok (n, rest)) :
    ∃ numeral, Numeral n numeral ∧ numeral.length ≤ left + 1 ∧ n < reach last left ∧
      bytes = numeral ++ rest := by
  -- the induction is on the bytes, so that both ends, of the bytes and of the bound, are seen
  induction bytes generalizing left n with
  | nil => cases h
  | cons b bytes ih =>
    rw [run_varintUpTo_cons] at h
    split at h
    · next hsmall =>
      split at h
      · cases h
      · next hends =>
        cases h
        have hb := UInt8.lt_iff_toNat_lt.1 hsmall
        have hreach : b.toNat < reach last left := by
          cases left with
          | zero => exact Nat.lt_succ_iff.2 (Nat.not_lt.1 fun hlast => hends ⟨rfl, hlast⟩)
          | succ left =>
            have := reach_pos last left
            rw [reach]
            have : (128 : UInt8).toNat = 128 := rfl
            omega
        exact ⟨[b], .last hb, Nat.succ_le_succ (Nat.zero_le _), hreach, rfl⟩
    · next hlarge =>
      have hb : 128 ≤ b.toNat := Nat.not_lt.1 fun hb => hlarge (UInt8.lt_iff_toNat_lt.2 hb)
      cases left with
      | zero => cases h
      | succ left =>
        cases hrun : (readVarintUpTo last (left + 1)).run bytes with
        | error e =>
          rw [hrun] at h
          cases h
        | ok found =>
          obtain ⟨high, rest'⟩ := found
          rw [hrun] at h
          cases h
          obtain ⟨numeral, hnumeral, hlength, hreach, rfl⟩ := ih hrun
          have hbyte := b.toNat_lt
          refine ⟨b :: numeral, .more hb hnumeral, Nat.succ_le_succ hlength, ?_, rfl⟩
          rw [reach]
          omega

/-- A word is read from any of its numerals that are not too long. -/
theorem readVarint_eq_ok_iff {bytes rest : List UInt8} :
    (readVarint word64).run bytes = .ok (n, rest) ↔
      n < UInt64.size ∧
        ∃ numeral, Numeral n numeral ∧ numeral.length ≤ word64.bytes ∧ bytes = numeral ++ rest := by
  constructor
  · intro h
    have hrun : (readVarintUpTo word64.last (9 + 1)).run bytes = .ok (n, rest) := h
    obtain ⟨numeral, hnumeral, hlength, hreach, hbytes⟩ := numeral_of_run hrun
    exact ⟨hreach, numeral, hnumeral, hlength, hbytes⟩
  · rintro ⟨hsize, numeral, hnumeral, hlength, rfl⟩
    have htakes : Takes (readVarintUpTo word64.last (9 + 1)) numeral n :=
      hnumeral.takes hlength hsize
    exact htakes rest

theorem readExactly_eq_ok_iff {bytes front rest : List UInt8} :
    (readExactly n).run bytes = .ok (front, rest) ↔ front.length = n ∧ bytes = front ++ rest := by
  constructor
  · intro h
    simp only [readExactly, StateT.run_bind, StateT.run_get, pure_bind, List.splitAt_eq] at h
    split at h
    · next hlength =>
      cases h
      exact ⟨hlength, (List.take_append_drop n bytes).symm⟩
    · cases h
  · rintro ⟨rfl, rfl⟩
    exact takes_exactly front rest

end ViewState.Wire
