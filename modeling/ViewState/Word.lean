/-!
Words of 64 bits whose arithmetic stops at the greatest word instead of wrapping round.
-/
namespace ViewState.Word

def greatest : UInt64 := 0xffffffffffffffff

/-- The word of a number, or the greatest word. -/
def clamp (n : Nat) : UInt64 := UInt64.ofNat (min n greatest.toNat)

def add (a b : UInt64) : UInt64 := clamp (a.toNat + b.toNat)

def next (a : UInt64) : UInt64 := add a 1

theorem toNat_greatest : greatest.toNat = UInt64.size - 1 := rfl

@[simp] theorem toNat_clamp (n : Nat) : (clamp n).toNat = min n (UInt64.size - 1) := by
  rw [clamp, toNat_greatest, UInt64.toNat_ofNat']
  have : UInt64.size = 18446744073709551616 := rfl
  omega

theorem toNat_add (a b : UInt64) : (add a b).toNat = min (a.toNat + b.toNat) (UInt64.size - 1) :=
  toNat_clamp _

theorem toNat_next (a : UInt64) : (next a).toNat = min (a.toNat + 1) (UInt64.size - 1) :=
  toNat_clamp _

theorem le_next (a : UInt64) : a ≤ next a := by
  have hsize : UInt64.size = 18446744073709551616 := rfl
  have := a.toNat_lt
  rw [UInt64.le_iff_toNat_le, toNat_next]
  omega

/-- A sum that stops at the greatest word is below the same words as the sum of the numbers. -/
theorem add_lt_iff {a b c : UInt64} : add a b < c ↔ a.toNat + b.toNat < c.toNat := by
  have hsize : UInt64.size = 18446744073709551616 := rfl
  have := c.toNat_lt
  rw [UInt64.lt_iff_toNat_lt, toNat_add]
  omega

/-- Only the greatest word is its own next. -/
theorem lt_next {a : UInt64} (h : a.toNat + 1 < UInt64.size) : a < next a := by
  rw [UInt64.lt_iff_toNat_lt, toNat_next]
  omega

end ViewState.Word
