import ViewState.Text.Decimal

/-!
Numerals are read back to their numbers, so numbers with one numeral are equal. A text that ends in
a numeral behind a character that is no digit is cut there in one way only.
-/
namespace ViewState.Text.Decimal

def IsDigit (c : Char) : Prop := (digitValue? c).isSome

instance (c : Char) : Decidable (IsDigit c) := inferInstanceAs (Decidable (_ = true))

theorem digitValue?_digitChar {d : Nat} (h : d < 10) : digitValue? (digitChar d) = some d := by
  revert d
  decide

theorem isDigit_digitChar {d : Nat} (h : d < 10) : IsDigit (digitChar d) := by
  rw [IsDigit, digitValue?_digitChar h]
  rfl

theorem readFrom_append (acc : Nat) (cs ds : List Char) :
    readFrom acc (cs ++ ds) = (readFrom acc cs).bind fun n => readFrom n ds := by
  induction cs generalizing acc with
  | nil => rfl
  | cons c cs ih =>
    rw [List.cons_append, readFrom, readFrom]
    cases digitValue? c with
    | none => rfl
    | some d => exact ih _

theorem digits_of_lt {n : Nat} (h : n < 10) : digits n = [digitChar n] := by
  rw [digits, if_pos h]

theorem digits_of_ge {n : Nat} (h : 10 ≤ n) :
    digits n = digits (n / 10) ++ [digitChar (n % 10)] := by
  rw [digits, if_neg (Nat.not_lt.2 h)]

theorem digits_ne_nil (n : Nat) : digits n ≠ [] := by
  rw [digits]
  split <;> simp

theorem isDigit_of_mem_digits {n : Nat} {c : Char} (h : c ∈ digits n) : IsDigit c := by
  induction n using Nat.strongRecOn with
  | _ n ih =>
    by_cases hn : n < 10
    · rw [digits_of_lt hn, List.mem_singleton] at h
      exact h ▸ isDigit_digitChar hn
    · rw [digits_of_ge (Nat.not_lt.1 hn), List.mem_append, List.mem_singleton] at h
      rcases h with h | rfl
      · exact ih (n / 10) (by omega) h
      · exact isDigit_digitChar (Nat.mod_lt _ (by decide))

theorem readFrom_digits (n : Nat) : readFrom 0 (digits n) = some n := by
  induction n using Nat.strongRecOn with
  | _ n ih =>
    by_cases hn : n < 10
    · simp [digits_of_lt hn, readFrom, digitValue?_digitChar hn]
    · have hmod : n % 10 < 10 := Nat.mod_lt _ (by decide)
      rw [digits_of_ge (Nat.not_lt.1 hn), readFrom_append, ih (n / 10) (by omega)]
      simp only [Option.bind_some, readFrom, digitValue?_digitChar hmod]
      congr 1
      omega

theorem digits_injective {m n : Nat} (h : digits m = digits n) : m = n :=
  Option.some.inj (by rw [← readFrom_digits m, h, readFrom_digits])

/-- Where a numeral begins that stands at the end of a text. -/
theorem append_digits_inj {p q : List Char} {m n : Nat} (hp : ∀ c ∈ p.getLast?, ¬ IsDigit c)
    (hq : ∀ c ∈ q.getLast?, ¬ IsDigit c) (h : p ++ digits m = q ++ digits n) :
    p = q ∧ m = n := by
  have hend (r : List Char) (k : Nat) (hr : ∀ c ∈ r.getLast?, ¬ IsDigit c) :
      (r ++ digits k).reverse.takeWhile (fun c => decide (IsDigit c)) = (digits k).reverse := by
    rw [List.reverse_append, List.takeWhile_append_of_pos, List.append_right_eq_self]
    · rw [← List.head?_reverse] at hr
      cases hrev : r.reverse with
      | nil => rfl
      | cons c cs =>
        rw [hrev] at hr
        simp [hr c rfl]
    · intro c hc
      exact decide_eq_true (isDigit_of_mem_digits (List.mem_reverse.1 hc))
  have hdigits := hend p m hp
  rw [h, hend q n hq, List.reverse_inj] at hdigits
  exact ⟨List.append_cancel_right (hdigits ▸ h), (digits_injective hdigits).symm⟩

theorem exists_digits_eq_cons (n : Nat) : ∃ c cs, digits n = c :: cs ∧ IsDigit c := by
  obtain ⟨c, cs, h⟩ := List.exists_cons_of_ne_nil (digits_ne_nil n)
  have hmem : c ∈ digits n := h ▸ List.mem_cons_self
  exact ⟨c, cs, h, isDigit_of_mem_digits hmem⟩

theorem readDigits_digits (n : Nat) : readDigits (digits n) = some n := by
  obtain ⟨c, cs, h, -⟩ := exists_digits_eq_cons n
  have hread : readDigits (c :: cs) = readFrom 0 (c :: cs) := rfl
  rw [h, hread, ← h, readFrom_digits]

theorem readSigned_digits (n : Nat) : readSigned (digits n) = some (n : Int) := by
  obtain ⟨c, cs, h, hdigit⟩ := exists_digits_eq_cons n
  have hread : readSigned (c :: cs) = (readDigits (c :: cs)).map Int.ofNat := by
    unfold readSigned
    split
    · next heq =>
      cases heq
      exact absurd hdigit (by decide)
    · next heq =>
      cases heq
      exact absurd hdigit (by decide)
    · rfl
  rw [h, hread, ← h, readDigits_digits]
  rfl

theorem readInt64_ofInt {n : Int} (hlow : -0x8000000000000000 ≤ n)
    (hhigh : n < 0x8000000000000000) :
    readInt64 (ofInt n) = some n := by
  have hread : readSigned (ofInt n).toList = some n := by
    cases n with
    | ofNat n =>
      rw [ofInt, ofNat, String.toList_ofList]
      exact readSigned_digits n
    | negSucc n =>
      rw [ofInt, String.toList_ofList, readSigned, readDigits_digits]
      rfl
  rw [readInt64, hread]
  exact Option.filter_some_pos (decide_eq_true ⟨hlow, hhigh⟩)

theorem readWord64_ofNat {n : Nat} (h : n < UInt64.size) : readWord64 (ofNat n) = some n := by
  obtain ⟨c, cs, hcons, hdigit⟩ := exists_digits_eq_cons n
  rw [readWord64, ofNat, String.toList_ofList, hcons]
  split
  · next heq =>
    cases heq
    exact absurd hdigit (by decide)
  · rw [← hcons, readDigits_digits]
    exact Option.filter_some_pos (decide_eq_true h)

/-- A numeral has no sign inside, and one in front at most. -/
theorem mem_ofInt {n : Int} {c : Char} (h : c ∈ (ofInt n).toList) : c = '-' ∨ IsDigit c := by
  cases n with
  | ofNat n =>
    rw [ofInt, ofNat, String.toList_ofList] at h
    exact .inr (isDigit_of_mem_digits h)
  | negSucc n =>
    rw [ofInt, String.toList_ofList, List.mem_cons] at h
    exact h.imp_right isDigit_of_mem_digits

end ViewState.Text.Decimal
