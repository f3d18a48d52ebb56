import ViewState.Proofs.Wire

/-!
The compact byte format as a rule for values of any shape, apart from the functions that write it: a
number is spelled in the fewest groups of seven bits, texts and lists with their length first, a
record as its fields in order. A value has exactly one spelling.
-/
namespace ViewState.Wire

/-- The fewest groups of seven bits for a number, the least first; the high bit of a byte says that
another follows. -/
structure Spelling (n : Nat) (bs : List UInt8) : Prop where
  value : bs.foldr (fun b high => b.toNat % 128 + 128 * high) 0 = n
  continued : ∀ b ∈ bs.dropLast, 128 ≤ b.toNat
  ended : ∃ b ∈ bs.getLast?, b.toNat < 128
  shortest : bs.getLast? = some 0 → bs = [0]

theorem spelling_varint (n : Nat) : Spelling n (varint n) := by
  induction n using varint.induct with
  | case1 n hn =>
    have hbyte : (UInt8.ofNat n).toNat = n := by
      rw [UInt8.toNat_ofNat']
      omega
    rw [varint_of_lt hn]
    exact
      { value := by simp only [List.foldr_cons, List.foldr_nil, hbyte]; omega
        continued := by simp
        ended := ⟨_, rfl, hbyte.symm ▸ hn⟩
        shortest := by simp }
  | case2 n hn ih =>
    have hbyte : (UInt8.ofNat (n % 128 + 128)).toNat = n % 128 + 128 := by
      rw [UInt8.toNat_ofNat']
      omega
    have hlast : (UInt8.ofNat (n % 128 + 128) :: varint (n / 128)).getLast? =
        (varint (n / 128)).getLast? := by
      rw [List.getLast?_cons, List.getLast?_eq_some_getLast (varint_ne_nil _), Option.getD_some]
    rw [varint_of_ge (Nat.not_lt.1 hn)]
    exact
      { value := by simp only [List.foldr_cons, ih.value, hbyte]; omega
        continued := by
          rw [List.dropLast_cons_of_ne_nil (varint_ne_nil _)]
          exact List.forall_mem_cons.2 ⟨hbyte.symm ▸ Nat.le_add_left 128 _, ih.continued⟩
        ended := hlast ▸ ih.ended
        shortest := fun hzero => by
          have hvalue := ih.value
          rw [ih.shortest (hlast ▸ hzero)] at hvalue
          simp at hvalue
          omega }

theorem Spelling.eq_varint {n : Nat} {bs : List UInt8} (h : Spelling n bs) : bs = varint n := by
  induction bs generalizing n with
  | nil =>
    obtain ⟨b, hb, -⟩ := h.ended
    cases hb
  | cons b bs ih =>
    have hvalue := h.value
    rw [List.foldr_cons] at hvalue
    cases bs with
    | nil =>
      obtain ⟨last, hlast, hsmall⟩ := h.ended
      obtain rfl : b = last := Option.some.inj hlast
      have hn : b.toNat = n := by
        rw [List.foldr_nil] at hvalue
        omega
      rw [varint_of_lt (hn ▸ hsmall), ← hn, UInt8.ofNat_toNat]
    | cons c cs =>
      have hb := h.continued b List.mem_cons_self
      have hlt := b.toNat_lt
      have hrest : Spelling ((c :: cs).foldr (fun b high => b.toNat % 128 + 128 * high) 0)
          (c :: cs) :=
        { value := rfl
          continued := fun d hd => h.continued d (List.mem_cons_of_mem _ hd)
          ended := h.ended
          shortest := fun hzero => by cases h.shortest hzero }
      have hhigh := ih hrest
      generalize (c :: cs).foldr _ _ = high at hvalue hrest hhigh
      have hpos : high ≠ 0 := by
        rintro rfl
        have hzero : (c :: cs).getLast? = some 0 := by
          rw [hhigh, varint_of_lt (by decide)]
          rfl
        cases h.shortest hzero
      have hmod : n % 128 + 128 = b.toNat := by omega
      have hdiv : n / 128 = high := by omega
      rw [varint_of_ge (by omega), hmod, hdiv, UInt8.ofNat_toNat, hhigh]

theorem spelling_iff {n : Nat} {bs : List UInt8} : Spelling n bs ↔ bs = varint n :=
  ⟨Spelling.eq_varint, fun h => h ▸ spelling_varint n⟩

inductive Value
  | number (n : Nat)
  | text (s : String)
  | absent
  | present (v : Value)
  | record (fields : List Value)
  | list (items : List Value)

namespace Value

mutual

def Spells : Value → List UInt8 → Prop
  | number n, bs => Spelling n bs
  | text s, bs => ∃ size, Spelling s.utf8ByteSize size ∧ bs = size ++ Text.Utf8.encode s
  | absent, bs => bs = [0]
  | present v, bs => ∃ rest, v.Spells rest ∧ bs = 1 :: rest
  | record fields, bs => SpellsEach fields bs
  | list items, bs =>
    ∃ size rest, Spelling items.length size ∧ SpellsEach items rest ∧ bs = size ++ rest

def SpellsEach : List Value → List UInt8 → Prop
  | [], bs => bs = []
  | v :: vs, bs => ∃ front rest, v.Spells front ∧ SpellsEach vs rest ∧ bs = front ++ rest

end

variable {α : Type}

theorem spells_number (n : Nat) (bs : List UInt8) : (number n).Spells bs ↔ bs = varint n :=
  spelling_iff

theorem spells_text (s : String) (bs : List UInt8) : (text s).Spells bs ↔ bs = Wire.text s := by
  simp only [Spells, spelling_iff, exists_eq_left, Wire.text, bytes, Text.Utf8.length_encode]

theorem spells_option (value : α → Value) (write : α → List UInt8) (o : Option α)
    (h : ∀ a ∈ o, ∀ bs, (value a).Spells bs ↔ bs = write a) (bs : List UInt8) :
    (o.elim absent fun a => present (value a)).Spells bs ↔ bs = option write o := by
  cases o with
  | none => rfl
  | some a => simp only [Option.elim_some, Spells, h a rfl, exists_eq_left, option]

theorem spellsEach_nil (bs : List UInt8) : SpellsEach [] bs ↔ bs = [] := Iff.rfl

theorem spellsEach_cons {v : Value} {vs : List Value} {front rest : List UInt8}
    (hv : ∀ bs, v.Spells bs ↔ bs = front) (hvs : ∀ bs, SpellsEach vs bs ↔ bs = rest)
    (bs : List UInt8) : SpellsEach (v :: vs) bs ↔ bs = front ++ rest := by
  simp only [SpellsEach, hv, hvs, exists_and_left, exists_eq_left]

theorem spellsEach_map (value : α → Value) (write : α → List UInt8) (as : List α)
    (h : ∀ a ∈ as, ∀ bs, (value a).Spells bs ↔ bs = write a) (bs : List UInt8) :
    SpellsEach (as.map value) bs ↔ bs = as.flatMap write := by
  induction as generalizing bs with
  | nil => rfl
  | cons a as ih =>
    have hrest := ih fun b hb => h b (List.mem_cons_of_mem _ hb)
    exact spellsEach_cons (h a List.mem_cons_self) hrest bs

theorem spells_list (value : α → Value) (write : α → List UInt8) (as : List α)
    (h : ∀ a ∈ as, ∀ bs, (value a).Spells bs ↔ bs = write a) (bs : List UInt8) :
    (list (as.map value)).Spells bs ↔ bs = Wire.list write as := by
  simp only [Spells, spelling_iff, spellsEach_map value write as h, List.length_map,
    exists_and_left, exists_eq_left, Wire.list]

theorem spells_entry (value : α → Value) (write : α → List UInt8) {e : String × α}
    (h : ∀ bs, (value e.2).Spells bs ↔ bs = write e.2) (bs : List UInt8) :
    (record [text e.1, value e.2]).Spells bs ↔ bs = Wire.text e.1 ++ write e.2 := by
  have hentry := spellsEach_cons (spells_text e.1) (spellsEach_cons h spellsEach_nil) bs
  rwa [List.append_nil] at hentry

end Value

end ViewState.Wire
