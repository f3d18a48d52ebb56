import ViewState.Proofs.SortedMap
import ViewState.Wire.Basic

/-!
Reading back what was written. Readers are put together from readers, so it is enough to know for
each of them which bytes it takes from the front, whatever follows. Numbers and lengths are words of
64 bits; beyond these the format has no reader.
-/
namespace ViewState.Wire

variable {α β : Type}

/-- The reader takes these bytes from the front, whatever follows, and gives the value. -/
def Takes (r : Reader α) (bytes : List UInt8) (a : α) : Prop :=
  ∀ rest, r.run (bytes ++ rest) = .ok (a, rest)

namespace Takes

theorem pure (a : α) : Takes (pure a) [] a := fun _ => rfl

theorem bind {r : Reader α} {f : α → Reader β} {bs cs : List UInt8} {a : α} {b : β}
    (hr : Takes r bs a) (hf : Takes (f a) cs b) : Takes (r >>= f) (bs ++ cs) b := by
  intro rest
  rw [StateT.run_bind, List.append_assoc, hr]
  exact hf rest

theorem map {r : Reader α} {bs : List UInt8} {a : α} (f : α → β) (hr : Takes r bs a) :
    Takes (do return f (← r)) bs (f a) := by
  simpa only [List.append_nil] using hr.bind (f := fun a => return f a) (.pure (f a))

theorem first {r : Reader α} {bs : List UInt8} {a : α} (hr : Takes r bs a) (rest : List UInt8) :
    r.first (bs ++ rest) = .ok a := by
  rw [Reader.first, hr]
  rfl

end Takes

/-- The reader finds these bytes at the front and fails on them, whatever follows. -/
def Refuses (r : Reader α) (bytes : List UInt8) (defect : Defect) : Prop :=
  ∀ rest, r.run (bytes ++ rest) = .error defect

namespace Refuses

theorem bind {r : Reader α} {bs : List UInt8} {defect : Defect} (hr : Refuses r bs defect)
    (f : α → Reader β) (cs : List UInt8) : Refuses (r >>= f) (bs ++ cs) defect := by
  intro rest
  rw [StateT.run_bind, List.append_assoc, hr]
  rfl

theorem first {r : Reader α} {bs : List UInt8} {defect : Defect} (hr : Refuses r bs defect)
    (rest : List UInt8) : r.first (bs ++ rest) = .error defect := by
  rw [Reader.first, hr]
  rfl

end Refuses

theorem Takes.bind_refuses {r : Reader α} {f : α → Reader β} {bs cs : List UInt8} {a : α}
    {defect : Defect} (hr : Takes r bs a) (hf : Refuses (f a) cs defect) :
    Refuses (r >>= f) (bs ++ cs) defect := by
  intro rest
  rw [StateT.run_bind, List.append_assoc, hr]
  exact hf rest

theorem varint_of_lt {n : Nat} (h : n < 128) : varint n = [UInt8.ofNat n] := by
  rw [varint, if_pos h]

theorem varint_of_ge {n : Nat} (h : 128 ≤ n) :
    varint n = UInt8.ofNat (n % 128 + 128) :: varint (n / 128) := by
  rw [varint, if_neg (by omega)]

theorem varint_ne_nil (n : Nat) : varint n ≠ [] := by
  rw [varint]
  split <;> simp

/-- The numbers below this have varints of at most `left + 1` bytes, the last of so many at most
`last`. -/
def reach (last : UInt8) : (left : Nat) → Nat
  | 0 => last.toNat + 1
  | left + 1 => 128 * reach last left

theorem reach_pos (last : UInt8) (left : Nat) : 0 < reach last left := by
  induction left with
  | zero => exact Nat.succ_pos _
  | succ left ih =>
    rw [reach]
    omega

theorem length_varint_le {left n : Nat} (h : n < reach 127 left) :
    (varint n).length ≤ left + 1 := by
  induction left generalizing n with
  | zero =>
    rw [varint_of_lt h]
    exact Nat.le_refl _
  | succ left ih =>
    by_cases hn : n < 128
    · rw [varint_of_lt hn]
      exact Nat.succ_le_succ (Nat.zero_le _)
    · rw [varint_of_ge (Nat.not_lt.1 hn), List.length_cons]
      exact Nat.succ_le_succ (ih (Nat.div_lt_of_lt_mul h))

theorem run_varintUpTo_cons (last : UInt8) (left : Nat) (b : UInt8) (bs : List UInt8) :
    (readVarintUpTo last (left + 1)).run (b :: bs) =
      if b < 128 then
        if left = 0 ∧ last < b then .error .unendingVarint else .ok (b.toNat, bs)
      else
        ((readVarintUpTo last left).run bs).map fun p => (b.toNat - 128 + 128 * p.1, p.2) := by
  rw [readVarintUpTo, StateT.run_bind]
  split
  · split
    · next hsmall hends =>
      simp only [StateT.run_get, pure_bind, StateT.run_bind, StateT.run_set, if_pos hsmall,
        if_pos hends]
      rfl
    · next hsmall hends =>
      simp only [StateT.run_get, pure_bind, StateT.run_bind, StateT.run_set, if_pos hsmall,
        if_neg hends]
      rfl
  · next hlarge =>
    simp only [StateT.run_get, pure_bind, StateT.run_bind, StateT.run_set, if_neg hlarge]
    rfl

section Places

variable {last : UInt8} {left n : Nat} {rest : List UInt8}

/-- The last byte of a varint is below 128 and says its number. -/
theorem run_varintUpTo_of_lt (hn : n < 128) :
    (readVarintUpTo last (left + 1)).run (varint n ++ rest) =
      if left = 0 ∧ last.toNat < n then .error .unendingVarint else .ok (n, rest) := by
  have hbyte : (UInt8.ofNat n).toNat = n := by
    rw [UInt8.toNat_ofNat']
    omega
  have hsmall : UInt8.ofNat n < 128 := by
    rw [UInt8.lt_iff_toNat_lt, hbyte]
    exact hn
  rw [varint_of_lt hn, List.singleton_append, run_varintUpTo_cons, if_pos hsmall, hbyte]
  simp only [UInt8.lt_iff_toNat_lt, hbyte]

/-- The bytes before it are at least 128 and say seven bits each. -/
theorem run_varintUpTo_of_ge (hn : 128 ≤ n) :
    (readVarintUpTo last (left + 1)).run (varint n ++ rest) =
      ((readVarintUpTo last left).run (varint (n / 128) ++ rest)).map
        fun p => (n % 128 + 128 * p.1, p.2) := by
  have hbyte : (UInt8.ofNat (n % 128 + 128)).toNat = n % 128 + 128 := by
    rw [UInt8.toNat_ofNat']
    omega
  have hlarge : ¬ UInt8.ofNat (n % 128 + 128) < 128 := by
    rw [UInt8.lt_iff_toNat_lt, hbyte]
    exact Nat.not_lt.2 (Nat.le_add_left 128 _)
  rw [varint_of_ge hn, List.cons_append, run_varintUpTo_cons, if_neg hlarge, hbyte,
    Nat.add_sub_cancel]

theorem takes_varintUpTo (hlast : last < 128) (h : n < reach last left) :
    Takes (readVarintUpTo last (left + 1)) (varint n) n := by
  have hlast : last.toNat < 128 := UInt8.lt_iff_toNat_lt.1 hlast
  induction left generalizing n with
  | zero =>
    intro rest
    have hn : n ≤ last.toNat := Nat.lt_succ_iff.1 h
    rw [run_varintUpTo_of_lt (Nat.lt_of_le_of_lt hn hlast),
      if_neg fun hends => Nat.not_lt.2 hn hends.2]
  | succ left ih =>
    intro rest
    by_cases hn : n < 128
    · rw [run_varintUpTo_of_lt hn, if_neg fun hends => Nat.succ_ne_zero left hends.1]
    · rw [run_varintUpTo_of_ge (Nat.not_lt.1 hn), ih (Nat.div_lt_of_lt_mul h)]
      simp only [Except.map, Nat.mod_add_div]

theorem refuses_varintUpTo (h : reach last left ≤ n) :
    Refuses (readVarintUpTo last (left + 1)) (varint n) .unendingVarint := by
  induction left generalizing n with
  | zero =>
    intro rest
    by_cases hn : n < 128
    · rw [run_varintUpTo_of_lt hn, if_pos ⟨rfl, h⟩]
    · rw [run_varintUpTo_of_ge (Nat.not_lt.1 hn)]
      rfl
  | succ left ih =>
    intro rest
    rw [reach] at h
    have hpos := reach_pos last left
    have hhigh : reach last left ≤ n / 128 := by
      omega
    rw [run_varintUpTo_of_ge (by omega), ih hhigh]
    rfl

end Places

theorem takes_varint {n : Nat} (h : n < UInt64.size) : Takes (readVarint word64) (varint n) n :=
  takes_varintUpTo (by decide) (show n < reach word64.last 9 from h)

/-- A number that is no word of 64 bits is written, but not read. -/
theorem refuses_varint {n : Nat} (h : UInt64.size ≤ n) :
    Refuses (readVarint word64) (varint n) .unendingVarint :=
  refuses_varintUpTo (show reach word64.last 9 ≤ n from h)

theorem takes_exactly (bs : List UInt8) : Takes (readExactly bs.length) bs bs := by
  intro rest
  simp only [readExactly, StateT.run_bind, StateT.run_get, pure_bind, List.splitAt_eq,
    List.take_left', List.drop_left', ↓reduceIte]
  rfl

theorem takes_bytes {bs : List UInt8} (h : bs.length < UInt64.size) :
    Takes readBytes (bytes bs) bs :=
  (takes_varint h).bind (takes_exactly bs)

theorem refuses_bytes {bs : List UInt8} (h : UInt64.size ≤ bs.length) :
    Refuses readBytes (bytes bs) .unendingVarint :=
  (refuses_varint h).bind readExactly bs

theorem takes_text {s : String} (h : s.utf8ByteSize < UInt64.size) :
    Takes readText (text s) s := by
  have hbytes : Takes readBytes (text s) (Text.Utf8.encode s) := takes_bytes (by simpa using h)
  intro rest
  rw [readText, StateT.run_bind, hbytes]
  simp only [Except.bind, bind]
  rw [Text.Utf8.decode_encode]
  rfl

theorem refuses_text {s : String} (h : UInt64.size ≤ s.utf8ByteSize) :
    Refuses readText (text s) .unendingVarint := by
  have hbytes : Refuses readBytes (text s) .unendingVarint :=
    refuses_bytes (by rwa [Text.Utf8.length_encode])
  intro rest
  rw [readText, StateT.run_bind, hbytes]
  rfl

theorem takes_times {item : Reader α} {write : α → List UInt8} {as : List α}
    (h : ∀ a ∈ as, Takes item (write a) a) :
    Takes (readTimes item as.length) (as.flatMap write) as := by
  induction as with
  | nil => exact .pure []
  | cons a as ih =>
    have hrest := ih fun b hb => h b (List.mem_cons_of_mem _ hb)
    exact (h a List.mem_cons_self).bind (hrest.map (a :: ·))

theorem takes_list {item : Reader α} {write : α → List UInt8} {as : List α}
    (hlength : as.length < UInt64.size) (h : ∀ a ∈ as, Takes item (write a) a) :
    Takes (readList item) (list write as) as :=
  (takes_varint hlength).bind (takes_times h)

theorem takes_entry {value : Reader α} {write : α → List UInt8} {e : String × α}
    (hname : e.1.utf8ByteSize < UInt64.size) (h : Takes value (write e.2) e.2) :
    Takes (readEntry value) (text e.1 ++ write e.2) e :=
  (takes_text hname).bind (h.map (e.1, ·))

/-- A map comes back if its names stand in order, as they do when it is written. -/
theorem takes_entries {value : Reader α} {write : α → List UInt8} {m : List (String × α)}
    (hsorted : Assoc.Sorted m) (hlength : m.length < UInt64.size)
    (h : ∀ e ∈ m, e.1.utf8ByteSize < UInt64.size ∧ Takes value (write e.2) e.2) :
    Takes (readEntries value) (entries write m) m := by
  have hlist : Takes (readList (readEntry value)) (entries write m) m :=
    takes_list hlength fun e he => takes_entry (h e he).1 (h e he).2
  have hmap := hlist.map Assoc.ofList
  rwa [Assoc.ofList_eq_self hsorted] at hmap

theorem takes_option {value : Reader α} {write : α → List UInt8} {o : Option α}
    (h : ∀ a ∈ o, Takes value (write a) a) : Takes (readOption value) (option write o) o := by
  cases o with
  | none => exact fun _ => rfl
  | some a =>
    have hbyte : Takes readByte [1] 1 := fun _ => rfl
    exact hbyte.bind ((h a rfl).map some)

theorem length_bytes (bs : List UInt8) : bs.length < (bytes bs).length := by
  have := List.length_pos_iff.2 (varint_ne_nil bs.length)
  rw [bytes, List.length_append]
  omega

theorem length_text (s : String) : s.utf8ByteSize < (text s).length := by
  have := length_bytes (Text.Utf8.encode s)
  rwa [Text.Utf8.length_encode] at this

theorem length_item_lt (write : α → List UInt8) {as : List α} {a : α} (h : a ∈ as) :
    (write a).length < (list write as).length := by
  have hsum : (write a).length ≤ (as.flatMap write).length :=
    (List.sublist_flatten_of_mem (List.mem_map_of_mem h)).length_le
  have := List.length_pos_iff.2 (varint_ne_nil as.length)
  rw [list, List.length_append]
  omega

theorem length_lt_list {write : α → List UInt8} {as : List α} (h : ∀ a ∈ as, write a ≠ []) :
    as.length < (list write as).length := by
  have hitems : as.length ≤ (as.flatMap write).length := by
    induction as with
    | nil => exact Nat.zero_le _
    | cons a as ih =>
      have hhead := List.length_pos_iff.2 (h a List.mem_cons_self)
      have htail := ih fun b hb => h b (List.mem_cons_of_mem _ hb)
      rw [List.flatMap_cons, List.length_append, List.length_cons]
      omega
  have := List.length_pos_iff.2 (varint_ne_nil as.length)
  rw [list, List.length_append]
  omega

theorem length_entry_lt (write : α → List UInt8) {m : List (String × α)} {e : String × α}
    (h : e ∈ m) :
    e.1.utf8ByteSize + (write e.2).length < (entries write m).length := by
  have hitem : (text e.1 ++ write e.2).length < (entries write m).length :=
    length_item_lt (fun e => text e.1 ++ write e.2) h
  have := length_text e.1
  rw [List.length_append] at hitem
  omega

theorem length_lt_entries (write : α → List UInt8) (m : List (String × α)) :
    m.length < (entries write m).length := by
  apply length_lt_list
  intro e _ hnil
  have := length_text e.1
  rw [(List.append_eq_nil_iff.1 hnil).1] at this
  exact Nat.not_lt_zero _ this

end ViewState.Wire
