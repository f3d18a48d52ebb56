import ViewState.Base64Url
import ViewState.Text.Blank

/-!
Bytes are read back from their symbols. The symbols are numbers below 64 in disguise, and the
decoder accepts such numbers if their count leaves no lone symbol behind and the unused bits are
zero. The text of some bytes holds URL-safe characters only, so there is no white space to trim from
it.
-/
namespace ViewState

theorem Text.Utf8.encode_ofList_ascii {bs : List UInt8} (h : ∀ b ∈ bs, b.toNat < 128) :
    encode (String.ofList (bs.map fun b => Char.ofNat b.toNat)) = bs := by
  have hchar : ∀ n < 128, String.utf8EncodeChar (Char.ofNat n) = [UInt8.ofNat n] := by
    decide +kernel
  have hbytes : (bs.map fun b => Char.ofNat b.toNat).flatMap String.utf8EncodeChar = bs := by
    rw [List.flatMap_map]
    induction bs with
    | nil => rfl
    | cons b bs ih =>
      rw [List.flatMap_cons, hchar _ (h b List.mem_cons_self), UInt8.ofNat_toNat,
        ih fun b hb => h b (List.mem_cons_of_mem _ hb)]
      rfl
  rw [encode, String.toByteArray_ofList, List.utf8Encode, hbytes]
  simp

namespace Base64Url

/-- The characters of the alphabet: letters and digits of ASCII, the hyphen and the underscore. -/
def UrlSafe (c : Char) : Prop := c.isAlphanum ∨ c = '-' ∨ c = '_'

instance (c : Char) : Decidable (UrlSafe c) := inferInstanceAs (Decidable (_ ∨ _))

theorem value?_symbol {n : Nat} (h : n < 64) : value? (symbol n) = some n := by
  revert n
  decide

theorem symbol_toNat_lt {n : Nat} (h : n < 64) : (symbol n).toNat < 128 := by
  revert n
  decide

theorem symbol_ne_padSign {n : Nat} (h : n < 64) : symbol n ≠ padSign := by
  revert n
  decide

theorem urlSafe_symbol {n : Nat} (h : n < 64) : UrlSafe (Char.ofNat (symbol n).toNat) := by
  revert n
  decide

theorem not_isBlank_symbol {n : Nat} (h : n < 64) :
    Text.isBlank (Char.ofNat (symbol n).toNat) = false := by
  revert n
  decide

theorem splitBytes_acc : ∀ (bytes : List UInt8) (acc : List Nat),
    splitBytes acc bytes = splitBytes [] bytes ++ acc
  | a :: b :: c :: rest, acc => by
    rw [splitBytes, splitBytes_acc rest, splitBytes, splitBytes_acc rest [_, _, _, _],
      List.append_assoc]
    rfl
  | [_, _], _ => rfl
  | [_], _ => rfl
  | [], _ => rfl

theorem joinBytes_acc : ∀ (values : List Nat) (acc : List UInt8),
    joinBytes acc values = ((joinBytes [] values).1 ++ acc, (joinBytes [] values).2)
  | a :: b :: c :: d :: rest, acc => by
    rw [joinBytes, joinBytes_acc rest, joinBytes, joinBytes_acc rest [_, _, _]]
    simp
  | [_, _, _], _ => rfl
  | [_, _], _ => rfl
  | [_], _ => rfl
  | [], _ => rfl

def sextets (bytes : List UInt8) : List Nat := (splitBytes [] bytes).reverse

theorem sextets_three (a b c : UInt8) (rest : List UInt8) :
    sextets (a :: b :: c :: rest) =
      let n := a.toNat * 65536 + b.toNat * 256 + c.toNat
      n / 262144 :: n / 4096 % 64 :: n / 64 % 64 :: n % 64 :: sextets rest := by
  rw [sextets, splitBytes, splitBytes_acc]
  simp [sextets]

theorem sextets_lt : ∀ (bytes : List UInt8), ∀ n ∈ sextets bytes, n < 64
  | a :: b :: c :: rest => by
    have ha := a.toNat_lt
    have hb := b.toNat_lt
    have hc := c.toNat_lt
    rw [sextets_three]
    simp only [List.forall_mem_cons]
    exact ⟨by omega, by omega, by omega, by omega, sextets_lt rest⟩
  | [a, b] => by
    have ha := a.toNat_lt
    have hb := b.toNat_lt
    simp [sextets, splitBytes]
    omega
  | [a] => by
    have ha := a.toNat_lt
    simp [sextets, splitBytes]
    omega
  | [] => by simp [sextets, splitBytes]

theorem length_sextets : ∀ bytes : List UInt8, (sextets bytes).length = (4 * bytes.length + 2) / 3
  | a :: b :: c :: rest => by
    rw [sextets_three]
    simp only [List.length_cons, length_sextets rest]
    omega
  | [_, _] => by simp [sextets, splitBytes]
  | [_] => by simp [sextets, splitBytes]
  | [] => by simp [sextets, splitBytes]

theorem ofNat_eq_of_mod {n : Nat} {b : UInt8} (h : n % 256 = b.toNat) : UInt8.ofNat n = b := by
  apply UInt8.toNat_inj.1
  rw [UInt8.toNat_ofNat', h]

/-- Joining undoes cutting and leaves no bits over. -/
theorem joinBytes_sextets : ∀ bytes : List UInt8, joinBytes [] (sextets bytes) = (bytes.reverse, 0)
  | a :: b :: c :: rest => by
    have ha := a.toNat_lt
    have hb := b.toNat_lt
    have hc := c.toNat_lt
    rw [sextets_three]
    dsimp only
    rw [joinBytes, joinBytes_acc, joinBytes_sextets rest]
    dsimp only
    rw [ofNat_eq_of_mod (b := c) (by omega), ofNat_eq_of_mod (b := b) (by omega),
      ofNat_eq_of_mod (b := a) (by omega)]
    simp
  | [a, b] => by
    have ha := a.toNat_lt
    have hb := b.toNat_lt
    simp only [sextets, splitBytes, List.reverse_cons, List.reverse_nil, List.nil_append,
      List.cons_append, joinBytes]
    rw [ofNat_eq_of_mod (b := b) (by omega), ofNat_eq_of_mod (b := a) (by omega)]
    simp
    omega
  | [a] => by
    have ha := a.toNat_lt
    simp only [sextets, splitBytes, List.reverse_cons, List.reverse_nil, List.nil_append,
      List.cons_append, joinBytes]
    rw [ofNat_eq_of_mod (b := a) (by omega)]
    simp
    omega
  | [] => rfl

theorem checkLoneByte_of_length {input : List UInt8} (h : input.length % 4 ≠ 1) :
    checkLoneByte input = .ok () := by
  unfold checkLoneByte
  split
  · next hone _ => exact absurd hone h
  · rfl

theorem filterMap_symbols {values : List Nat} (h : ∀ n ∈ values, n < 64) :
    (values.map symbol).filterMap value? = values := by
  induction values with
  | nil => rfl
  | cons n values ih =>
    rw [List.map_cons, List.filterMap_cons_some (value?_symbol (h n List.mem_cons_self)),
      ih fun m hm => h m (List.mem_cons_of_mem _ hm)]

theorem readGroups_symbols {values : List Nat} (h : ∀ n ∈ values, n < 64) :
    readGroups (values.map symbol) = .ok values := by
  have hall : ∀ b ∈ values.map symbol, isSymbol b := by
    intro b hb
    obtain ⟨n, hn, rfl⟩ := List.mem_map.1 hb
    simp [isSymbol, value?_symbol (h n hn)]
  have hnone : (values.map symbol).findIdx? (fun b => !isSymbol b) = none :=
    List.findIdx?_eq_none_iff.2 fun b hb => by simp [hall b hb]
  rw [readGroups, hnone]
  simp only [filterMap_symbols h]

theorem readLastGroup_symbols {values : List Nat} (h : ∀ n ∈ values, n < 64) (start place : Nat) :
    readLastGroup start place none (values.map symbol) = .ok ⟨values, false⟩ := by
  induction values generalizing place with
  | nil => rfl
  | cons n values ih =>
    have hn := h n List.mem_cons_self
    rw [List.map_cons, readLastGroup, if_neg (symbol_ne_padSign hn)]
    simp only [value?_symbol hn, ih fun m hm => h m (List.mem_cons_of_mem _ hm)]
    rfl

theorem decodeBytes_symbols {values : List Nat} (h : ∀ n ∈ values, n < 64)
    (hlength : values.length % 4 ≠ 1) {reversed : List UInt8}
    (hjoin : joinBytes [] values = (reversed, 0)) :
    decodeBytes (values.map symbol) = .ok reversed.reverse := by
  generalize hstart : (values.length - 1) / 4 * 4 = start
  have hgroups := readGroups_symbols fun n hn => h n (List.mem_of_mem_take (i := start) hn)
  have hlast := readLastGroup_symbols
    (fun n hn => h n (List.mem_of_mem_drop (i := start) hn)) start 0
  have hplaces : ¬ (values.map symbol ≠ [] ∧ (values.drop start).length < 2) := by
    rintro ⟨hne, hshort⟩
    have hpos : 0 < values.length := by simpa using List.length_pos_iff.2 hne
    rw [List.length_drop] at hshort
    omega
  have hlone : checkLoneByte (values.map symbol) = .ok () :=
    checkLoneByte_of_length (by rwa [List.length_map])
  rw [decodeBytes, hlone]
  simp only [List.length_map, hstart, List.splitAt_eq, ← List.map_take, ← List.map_drop, hgroups,
    hlast, bind, Except.bind, if_neg hplaces, List.take_append_drop, hjoin]
  rfl

theorem length_symbols (bytes : List UInt8) :
    (symbols bytes).length = (4 * bytes.length + 2) / 3 := by
  rw [symbols, List.length_map]
  exact length_sextets bytes

theorem decodeBytes_symbols_eq (bytes : List UInt8) : decodeBytes (symbols bytes) = .ok bytes := by
  have hlength : (sextets bytes).length % 4 ≠ 1 := by
    rw [length_sextets]
    omega
  have hdecode := decodeBytes_symbols (sextets_lt bytes) hlength (joinBytes_sextets bytes)
  rwa [List.reverse_reverse] at hdecode

theorem mem_toList_encode {bytes : List UInt8} {c : Char} (h : c ∈ (encode bytes).toList) :
    ∃ n < 64, c = Char.ofNat (symbol n).toNat := by
  rw [encode, String.toList_ofList, symbols, List.map_map] at h
  obtain ⟨n, hn, rfl⟩ := List.mem_map.1 h
  exact ⟨n, sextets_lt bytes n hn, rfl⟩

theorem utf8_encode (bytes : List UInt8) : Text.Utf8.encode (encode bytes) = symbols bytes := by
  apply Text.Utf8.encode_ofList_ascii
  intro b hb
  obtain ⟨n, hn, rfl⟩ := List.mem_map.1 hb
  exact symbol_toNat_lt (sextets_lt bytes n hn)

theorem utf8ByteSize_encode (bytes : List UInt8) :
    (encode bytes).utf8ByteSize = (4 * bytes.length + 2) / 3 := by
  rw [← Text.Utf8.length_encode, utf8_encode, length_symbols]

theorem decode_encode (bytes : List UInt8) : decode (encode bytes) = .ok bytes := by
  rw [decode, utf8_encode, decodeBytes_symbols_eq]

theorem urlSafe_encode (bytes : List UInt8) : ∀ c ∈ (encode bytes).toList, UrlSafe c := by
  intro c hc
  obtain ⟨n, hn, rfl⟩ := mem_toList_encode hc
  exact urlSafe_symbol hn

theorem trim_encode (bytes : List UInt8) : Text.trim (encode bytes) = encode bytes := by
  have hblank : ∀ c ∈ (encode bytes).toList, Text.isBlank c = false := by
    intro c hc
    obtain ⟨n, hn, rfl⟩ := mem_toList_encode hc
    exact not_isBlank_symbol hn
  rw [Text.trim_eq, Text.trimChars_eq_self, String.ofList_toList]
  · cases hhead : (encode bytes).toList.head? with
    | none => rfl
    | some c => simpa using hblank c (List.mem_of_head? hhead)
  · cases hlast : (encode bytes).toList.getLast? with
    | none => rfl
    | some c => simpa using hblank c (List.mem_of_getLast? hlast)

end Base64Url

end ViewState
