import Mathlib.Algebra.GroupWithZero.Nat
import ViewState.Proofs.Wire.Reading

/-!
How far readers get. A reader pays for its value with bytes from the front: one for each number, one
for each byte of a text, and for a list what its items cost, whatever number of items was claimed.
So an item is read from fewer bytes than the list around it, and readers that differ only on longer
bytes make no difference there.
-/
namespace ViewState.Wire

variable {α β : Type}

/-- Where the reader gives `a`, it has taken at least `cost a` bytes. -/
def Spends (r : Reader α) (cost : α → Nat) : Prop :=
  ∀ (bytes rest : List UInt8) (a : α),
    r.run bytes = .ok (a, rest) → cost a + rest.length ≤ bytes.length

namespace Spends

variable {r : Reader α} {cost : α → Nat} {total : β → Nat}

theorem mono {less : α → Nat} (h : Spends r cost) (hless : ∀ a, less a ≤ cost a) :
    Spends r less := by
  intro bytes rest a hrun
  exact Nat.le_trans (Nat.add_le_add_right (hless a) _) (h bytes rest a hrun)

theorem pure {b : β} (hfree : total b = 0) : Spends (pure b) total := by
  intro bytes rest b' hrun
  cases hrun
  exact Nat.le_of_eq (by rw [hfree, Nat.zero_add])

/-- What the first value does not cost is left for the second reader. -/
theorem bind {f : α → Reader β} (hr : Spends r cost)
    (hf : ∀ a, Spends (f a) fun b => total b - cost a) : Spends (r >>= f) total := by
  intro bytes rest b hrun
  obtain ⟨a, behind, hfirst, hsecond⟩ := run_bind_eq_ok hrun
  have hpaid := hr bytes behind a hfirst
  have hdue : total b - cost a + rest.length ≤ behind.length := hf a behind rest b hsecond
  omega

theorem map {f : α → β} (hr : Spends r cost) (hf : ∀ a, total (f a) ≤ cost a) :
    Spends (do return f (← r)) total :=
  hr.bind fun a => .pure (Nat.sub_eq_zero_of_le (hf a))

end Spends

theorem spends_varint (bound : VarintBound) : Spends (readVarint bound) fun _ => 1 := by
  obtain ⟨left, last⟩ := bound
  intro bytes rest n hrun
  cases left with
  | zero => cases hrun
  | succ left =>
    obtain ⟨numeral, hnumeral, -, -, rfl⟩ := numeral_of_run hrun
    have hpos := hnumeral.length_pos
    rw [List.length_append]
    exact Nat.add_le_add_right hpos _

theorem spends_byte : Spends readByte fun _ => 1 := by
  intro bytes rest b hrun
  cases bytes with
  | nil => cases hrun
  | cons b' bytes =>
    cases hrun
    exact Nat.le_of_eq (Nat.add_comm ..)

theorem spends_exactly (n : Nat) : Spends (readExactly n) List.length := by
  intro bytes rest front hrun
  obtain ⟨-, rfl⟩ := readExactly_eq_ok_iff.1 hrun
  exact Nat.le_of_eq List.length_append.symm

theorem spends_bytes : Spends readBytes fun bs => 1 + bs.length :=
  (spends_varint word64).bind fun n => (spends_exactly n).mono fun bs => by omega

theorem spends_text : Spends readText fun s => 1 + s.utf8ByteSize := by
  refine spends_bytes.bind fun bs => ?_
  cases hdecode : Text.Utf8.decode bs with
  | none =>
    intro bytes rest s hrun
    cases hrun
  | some s =>
    have hlength : bs.length = s.utf8ByteSize := by
      rw [Text.Utf8.decode_eq_some_iff.1 hdecode, Text.Utf8.length_encode]
    exact .pure (by omega)

variable {item : Reader α} {cost : α → Nat}

theorem spends_times (h : Spends item cost) (n : Nat) :
    Spends (readTimes item n) fun as => (as.map cost).sum := by
  induction n with
  | zero => exact .pure rfl
  | succ n ih =>
    refine h.bind fun a => ih.map fun as => ?_
    rw [List.map_cons, List.sum_cons]
    exact Nat.le_of_eq (Nat.add_sub_cancel_left ..)

theorem spends_list (h : Spends item cost) :
    Spends (readList item) fun as => 1 + (as.map cost).sum :=
  (spends_varint word64).bind fun n => (spends_times h n).mono fun as => by omega

theorem spends_option (h : Spends item cost) :
    Spends (readOption item) fun o => 1 + o.elim 0 cost := by
  refine spends_byte.bind fun b => ?_
  split
  · exact .pure rfl
  · exact h.map fun a => by simp
  · intro bytes rest o hrun
    cases hrun

theorem spends_name : Spends readText String.utf8ByteSize :=
  spends_text.mono fun _ => Nat.le_add_left ..

theorem spends_entry (h : Spends item cost) :
    Spends (readEntry item) fun e => e.1.utf8ByteSize + cost e.2 :=
  spends_name.bind fun _ => h.map fun _ => Nat.le_of_eq (Nat.add_sub_cancel_left ..)

/-- An entry takes the place of another or stands beside the others. -/
theorem sum_insert_le (cost : String × α → Nat) (name : String) (a : α) (m : List (String × α)) :
    ((Assoc.insert name a m).map cost).sum ≤ cost (name, a) + (m.map cost).sum := by
  induction m with
  | nil => exact Nat.le_refl _
  | cons e m ih =>
    obtain ⟨name', a'⟩ := e
    rw [Assoc.insert]
    split
    · exact Nat.le_refl _
    · simp only [List.map_cons, List.sum_cons]
      omega
    · simp only [List.map_cons, List.sum_cons]
      omega

/-- Entries that others take the place of have been paid for all the same. -/
theorem sum_ofList_le (cost : String × α → Nat) (l : List (String × α)) :
    ((Assoc.ofList l).map cost).sum ≤ (l.map cost).sum := by
  suffices hfold : ∀ m : List (String × α),
      ((l.foldl (fun m e => Assoc.insert e.1 e.2 m) m).map cost).sum ≤
        (l.map cost).sum + (m.map cost).sum from hfold []
  induction l with
  | nil => exact fun m => by simp
  | cons e l ih =>
    intro m
    have hrest := ih (Assoc.insert e.1 e.2 m)
    have hinsert : _ ≤ cost e + _ := sum_insert_le cost e.1 e.2 m
    rw [List.foldl_cons, List.map_cons, List.sum_cons]
    omega

theorem spends_entries (h : Spends item cost) :
    Spends (readEntries item) fun m => 1 + (m.map fun e => e.1.utf8ByteSize + cost e.2).sum :=
  (spends_list (spends_entry h)).map fun l => Nat.add_le_add_left (sum_ofList_le _ l) 1

/-- The readers come to the same on fewer than `k` bytes. -/
def AgreeBelow (k : Nat) (r r' : Reader α) : Prop :=
  ∀ bytes : List UInt8, bytes.length < k → r.run bytes = r'.run bytes

namespace AgreeBelow

variable {k : Nat} {r r' : Reader α}

theorem refl (k : Nat) (r : Reader α) : AgreeBelow k r r := fun _ _ => rfl

theorem zero (r r' : Reader α) : AgreeBelow 0 r r' :=
  fun _ hlength => absurd hlength (Nat.not_lt_zero _)

/-- What is read behind a value is read from fewer bytes if the value has cost any. -/
theorem bind_paid {f f' : α → Reader β} (hr : Spends r fun _ => 1)
    (hf : ∀ a, AgreeBelow k (f a) (f' a)) : AgreeBelow (k + 1) (r >>= f) (r >>= f') := by
  intro bytes hlength
  rw [StateT.run_bind, StateT.run_bind]
  cases hrun : r.run bytes with
  | error defect => rfl
  | ok found =>
    obtain ⟨a, rest⟩ := found
    have hpaid : 1 + rest.length ≤ bytes.length := hr bytes rest a hrun
    exact hf a rest (by omega)

theorem bind {f f' : α → Reader β} (h : AgreeBelow k r r') (hr : Spends r' cost)
    (hf : ∀ a, AgreeBelow k (f a) (f' a)) : AgreeBelow k (r >>= f) (r' >>= f') := by
  intro bytes hlength
  rw [StateT.run_bind, StateT.run_bind, h bytes hlength]
  cases hrun : r'.run bytes with
  | error defect => rfl
  | ok found =>
    obtain ⟨a, rest⟩ := found
    have hpaid := hr bytes rest a hrun
    exact hf a rest (by omega)

theorem map {f : α → β} (h : AgreeBelow k r r') (hr : Spends r' cost) :
    AgreeBelow k (do return f (← r)) (do return f (← r')) :=
  h.bind hr fun _ => refl k _

theorem times (h : AgreeBelow k r r') (hr : Spends r' cost) (n : Nat) :
    AgreeBelow k (readTimes r n) (readTimes r' n) := by
  induction n with
  | zero => exact refl k _
  | succ n ih => exact h.bind hr fun a => ih.map (spends_times hr n)

theorem list (h : AgreeBelow k r r') (hr : Spends r' cost) :
    AgreeBelow k (readList r) (readList r') :=
  (refl k _).bind (spends_varint word64) fun n => h.times hr n

theorem entries (h : AgreeBelow k r r') (hr : Spends r' cost) :
    AgreeBelow k (readEntries r) (readEntries r') := by
  have hentry : AgreeBelow k (readEntry r) (readEntry r') :=
    (refl k _).bind spends_text fun name => h.map hr
  exact (hentry.list (spends_entry hr)).map (spends_list (spends_entry hr))

end AgreeBelow

end ViewState.Wire
