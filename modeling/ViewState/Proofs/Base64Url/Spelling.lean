import ViewState.Proofs.Base64Url

/-!
The decoder of URL-safe base64 accepts one spelling of each bytes and no other text: it refuses pad
signs, lone symbols and bits left over, so what it has read determines what was written.
-/
namespace ViewState

theorem bind_eq_ok {ε α β : Type} {x : Except ε α} {f : α → Except ε β} {b : β}
    (h : x >>= f = .ok b) : ∃ a, x = .ok a ∧ f a = .ok b := by
  cases x with
  | error e => cases h
  | ok a => exact ⟨a, rfl, h⟩

theorem Text.Utf8.encode_inj {s t : String} (h : encode s = encode t) : s = t :=
  Option.some.inj (by rw [← decode_encode s, h, decode_encode])

namespace Base64Url

theorem symbol_of_value? {b : UInt8} {v : Nat} (h : value? b = some v) : v < 64 ∧ symbol v = b := by
  have hall : ∀ n < 256, ∀ v ∈ value? (UInt8.ofNat n), v < 64 ∧ symbol v = UInt8.ofNat n := by
    decide +kernel
  have hb := hall b.toNat b.toNat_lt v
  rw [UInt8.ofNat_toNat] at hb
  exact hb h

/-- Cutting undoes joining if no symbol is left alone and no bits are left over. -/
theorem sextets_joinBytes : ∀ {values : List Nat}, (∀ n ∈ values, n < 64) →
    values.length % 4 ≠ 1 → (joinBytes [] values).2 = 0 →
    sextets (joinBytes [] values).1.reverse = values
  | a :: b :: c :: d :: rest, hlt, hlength, hleft => by
    simp only [List.forall_mem_cons] at hlt
    obtain ⟨ha, hb, hc, hd, hrest⟩ := hlt
    rw [joinBytes, joinBytes_acc] at hleft ⊢
    have hlength' : rest.length % 4 ≠ 1 := by
      simp only [List.length_cons] at hlength
      omega
    have ih := sextets_joinBytes hrest hlength' hleft
    simp only [List.reverse_append, List.reverse_cons, List.reverse_nil, List.nil_append,
      List.cons_append, sextets_three, ih, UInt8.toNat_ofNat']
    simp only [List.cons.injEq, and_true]
    omega
  | [a, b, c], hlt, _, hleft => by
    simp only [List.forall_mem_cons] at hlt
    obtain ⟨ha, hb, hc, -⟩ := hlt
    simp only [joinBytes] at hleft
    simp only [joinBytes, List.reverse_cons, List.reverse_nil, List.nil_append, List.cons_append,
      sextets, splitBytes, UInt8.toNat_ofNat', List.cons.injEq, and_true]
    omega
  | [a, b], hlt, _, hleft => by
    simp only [List.forall_mem_cons] at hlt
    obtain ⟨ha, hb, -⟩ := hlt
    simp only [joinBytes] at hleft
    simp only [joinBytes, List.reverse_cons, List.reverse_nil, List.nil_append,
      List.cons_append, sextets, splitBytes, UInt8.toNat_ofNat', List.cons.injEq, and_true]
    omega
  | [_], _, hlength, _ => absurd rfl hlength
  | [], _, _, _ => rfl

theorem readGroups_eq_ok {input : List UInt8} {values : List Nat}
    (h : readGroups input = .ok values) :
    input = values.map symbol ∧ ∀ n ∈ values, n < 64 := by
  unfold readGroups at h
  split at h
  · cases h
  · next hnone =>
    cases h
    rw [List.findIdx?_eq_none_iff] at hnone
    induction input with
    | nil => simp
    | cons b input ih =>
      obtain ⟨v, hv⟩ : ∃ v, value? b = some v := by
        simpa [isSymbol, Option.isSome_iff_exists] using hnone b List.mem_cons_self
      obtain ⟨hinput, hlt⟩ := ih fun b hb => hnone b (List.mem_cons_of_mem _ hb)
      obtain ⟨hvlt, hsymbol⟩ := symbol_of_value? hv
      rw [List.filterMap_cons_some hv, List.map_cons, hsymbol, ← hinput]
      exact ⟨rfl, List.forall_mem_cons.2 ⟨hvlt, hlt⟩⟩

theorem padded_of_readLastGroup {input : List UInt8} {start place offset : Nat} {g : LastGroup}
    (h : readLastGroup start place (some offset) input = .ok g) : g.padded = true := by
  induction input generalizing place with
  | nil =>
    cases h
    rfl
  | cons b input ih =>
    unfold readLastGroup at h
    split at h
    · split at h
      · cases h
      · exact ih h
    · cases h

theorem readLastGroup_eq_ok {input : List UInt8} {start place : Nat} {g : LastGroup}
    (h : readLastGroup start place none input = .ok g) (hpad : g.padded = false) :
    input = g.values.map symbol ∧ ∀ n ∈ g.values, n < 64 := by
  induction input generalizing place g with
  | nil =>
    cases h
    simp
  | cons b input ih =>
    unfold readLastGroup at h
    split at h
    · split at h
      · cases h
      · rw [padded_of_readLastGroup h] at hpad
        cases hpad
    · cases hv : value? b with
      | none => simp [hv] at h
      | some v =>
        cases hrest : readLastGroup start (place + 1) none input with
        | error e => simp [hv, hrest, Except.map] at h
        | ok rest =>
          simp only [hv, hrest, Except.map, Except.ok.injEq] at h
          subst h
          obtain ⟨hinput, hlt⟩ := ih hrest hpad
          obtain ⟨hvlt, hsymbol⟩ := symbol_of_value? hv
          rw [List.map_cons, hsymbol, ← hinput]
          exact ⟨rfl, List.forall_mem_cons.2 ⟨hvlt, hlt⟩⟩

theorem eq_symbols_of_decodeBytes {input bytes : List UInt8} (h : decodeBytes input = .ok bytes) :
    input = symbols bytes := by
  generalize hstart : (input.length - 1) / 4 * 4 = start
  unfold decodeBytes at h
  obtain ⟨_, -, h⟩ := bind_eq_ok h
  simp only [hstart, List.splitAt_eq] at h
  obtain ⟨values, hvalues, h⟩ := bind_eq_ok h
  obtain ⟨last, hlast, h⟩ := bind_eq_ok h
  split at h
  · cases h
  next hplaces =>
  split at h
  · cases h
  next hpadded =>
  split at h
  · cases h
  next hleft =>
  obtain ⟨htake, hlt⟩ := readGroups_eq_ok hvalues
  obtain ⟨hdrop, hlt'⟩ := readLastGroup_eq_ok hlast (by simpa using hpadded)
  have hinput : input = (values ++ last.values).map symbol := by
    rw [List.map_append, ← htake, ← hdrop, List.take_append_drop]
  have hlength : (values ++ last.values).length % 4 ≠ 1 := by
    have hplaces' : 0 < input.length → 2 ≤ last.values.length := fun hpos =>
      Nat.not_lt.1 fun hshort => hplaces ⟨List.length_pos_iff.1 hpos, hshort⟩
    have hdropped := congrArg List.length hdrop
    have hall := congrArg List.length hinput
    rw [List.length_drop, List.length_map] at hdropped
    rw [List.length_map] at hall
    omega
  have hjoin := sextets_joinBytes (List.forall_mem_append.2 ⟨hlt, hlt'⟩) hlength
    (Decidable.not_not.1 hleft)
  cases h
  rw [symbols, ← sextets, hjoin]
  exact hinput

theorem decodeBytes_eq_ok_iff {input bytes : List UInt8} :
    decodeBytes input = .ok bytes ↔ input = symbols bytes :=
  ⟨eq_symbols_of_decodeBytes, fun h => h ▸ decodeBytes_symbols_eq bytes⟩

/-- Bytes have one spelling, and the decoder accepts no other text. -/
theorem decode_eq_ok_iff {text : String} {bytes : List UInt8} :
    decode text = .ok bytes ↔ text = encode bytes := by
  rw [decode, decodeBytes_eq_ok_iff, ← utf8_encode]
  exact ⟨Text.Utf8.encode_inj, fun h => h ▸ rfl⟩

end Base64Url

end ViewState
