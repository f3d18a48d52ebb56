import ViewState.Identifier.Counter
import ViewState.Proofs.Text.Decimal

/-!
How identifiers are spelled. A place is given by the counts of the open sections, from the innermost
out, and each place under a stem has an identifier of its own. Under stems of different families
no two identifiers are equal.
-/
namespace ViewState.Identifier

open Text.Decimal (IsDigit digits)

theorem toList_numbered (stem : String) (n : Nat) :
    (numbered stem n).toList = stem.toList ++ digits n := by
  simp [numbered, Text.Decimal.ofNat]

def spell (stem : String) : List Nat → String
  | [] => stem
  | [n] => numbered stem n
  | n :: m :: outer => numbered (spell stem (m :: outer) ++ "_") n

/-- A stem that no digit ends, so that the number behind it can be told from it. -/
def Stem (stem : String) : Prop := ∀ c ∈ stem.toList.getLast?, ¬ IsDigit c

theorem stem_of_getLast? {stem : String} {c : Char} (hlast : stem.toList.getLast? = some c)
    (hc : ¬ IsDigit c) : Stem stem := by
  intro c' hc'
  rw [hlast] at hc'
  cases hc'
  exact hc

theorem exists_digit_of_spell (stem : String) (n : Nat) (outer : List Nat) :
    ∃ c cs, IsDigit c ∧ (spell stem (n :: outer)).toList = stem.toList ++ c :: cs := by
  induction outer generalizing n with
  | nil =>
    obtain ⟨c, cs, hcs⟩ := List.exists_cons_of_ne_nil (Text.Decimal.digits_ne_nil n)
    refine ⟨c, cs, Text.Decimal.isDigit_of_mem_digits (n := n) (by simp [hcs]), ?_⟩
    rw [spell, toList_numbered, hcs]
  | cons m outer ih =>
    obtain ⟨c, cs, hc, hspell⟩ := ih m
    refine ⟨c, cs ++ "_".toList ++ digits n, hc, ?_⟩
    rw [spell, toList_numbered, String.toList_append, hspell]
    simp

theorem stem_ne_spell (stem : String) (n : Nat) (outer : List Nat) :
    stem ≠ spell stem (n :: outer) ++ "_" := by
  intro h
  obtain ⟨c, cs, -, hspell⟩ := exists_digit_of_spell stem n outer
  have hlength := congrArg (fun s => s.toList.length) h
  simp only [String.toList_append, List.length_append, hspell, List.length_cons] at hlength
  omega

theorem stem_underscore (s : String) : Stem (s ++ "_") :=
  stem_of_getLast? (c := '_') (by simp [String.toList_append]) (by decide)

theorem numbered_inj {stem stem' : String} (hstem : Stem stem) (hstem' : Stem stem') {m n : Nat}
    (h : numbered stem m = numbered stem' n) : stem = stem' ∧ m = n := by
  have hlist := congrArg String.toList h
  rw [toList_numbered, toList_numbered] at hlist
  obtain ⟨hstems, hmn⟩ := Text.Decimal.append_digits_inj hstem hstem' hlist
  exact ⟨String.toList_inj.1 hstems, hmn⟩

theorem spell_inj {stem : String} (hstem : Stem stem) {p q : List Nat} (hp : p ≠ []) (hq : q ≠ [])
    (h : spell stem p = spell stem q) : p = q := by
  induction p generalizing q with
  | nil => exact absurd rfl hp
  | cons m outer ih =>
    obtain ⟨n, outer', rfl⟩ := List.exists_cons_of_ne_nil hq
    cases outer with
    | nil =>
      cases outer' with
      | nil =>
        obtain ⟨-, rfl⟩ := numbered_inj hstem hstem h
        rfl
      | cons n' outer' =>
        obtain ⟨heq, -⟩ := numbered_inj hstem (stem_underscore _) h
        exact absurd heq (stem_ne_spell stem n' outer')
    | cons m' outer =>
      cases outer' with
      | nil =>
        obtain ⟨heq, -⟩ := numbered_inj (stem_underscore _) hstem h
        exact absurd heq.symm (stem_ne_spell stem m' outer)
      | cons n' outer' =>
        obtain ⟨heq, rfl⟩ := numbered_inj (stem_underscore _) (stem_underscore _) h
        rw [ih (List.cons_ne_nil _ _) (List.cons_ne_nil _ _) ((String.append_left_inj _).1 heq)]

/-- What a table holds is what would be spelled out. -/
def Table.Faithful (t : Table) : Prop :=
  ∀ stem count id, t.get? stem count = some id → id = numbered stem count.toNat

theorem Table.faithful_ofSize (stem : String) (size : Nat) : (Table.ofSize stem size).Faithful := by
  intro stem' count id h
  unfold Table.get? at h
  split at h
  · next hstem =>
    obtain ⟨rfl, hcount⟩ := hstem
    have hpos : 0 < count.toNat := Nat.pos_of_ne_zero fun hzero => hcount (UInt64.toNat_inj.1 hzero)
    simp only [Table.ofSize, Array.getElem?_ofFn, Option.dite_none_right_eq_some] at h
    obtain ⟨-, h⟩ := h
    cases h
    rw [Nat.sub_add_cancel hpos]
  · cases h

end ViewState.Identifier
