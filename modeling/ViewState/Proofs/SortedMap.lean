import ViewState.SortedMap

/-!
The laws of sorted maps. An entry stands in the list exactly if its key is found with its value, so
each operation is described by what it does to look-ups, and two maps that answer alike are equal.
-/
namespace ViewState

variable {κ α β : Type} [Ord κ]

namespace Assoc

theorem Sorted.tail {p : κ × α} {l : List (κ × α)} (h : Sorted (p :: l)) : Sorted l :=
  (List.pairwise_cons.1 h).2

theorem Sorted.head_lt {p q : κ × α} {l : List (κ × α)} (h : Sorted (p :: l)) (hq : q ∈ l) :
    compare p.1 q.1 = .lt :=
  (List.pairwise_cons.1 h).1 q hq

variable [Std.TransOrd κ]

theorem ne_of_compare {k k' : κ} (h : compare k k' ≠ .eq) : k ≠ k' := by
  rintro rfl
  exact h Std.ReflOrd.compare_self

theorem Sorted.head_ne {p q : κ × α} {l : List (κ × α)} (h : Sorted (p :: l)) (hq : q ∈ l) :
    q.1 ≠ p.1 :=
  (ne_of_compare (by simp [h.head_lt hq])).symm

/-- A key below the first one is none of the keys. -/
theorem Sorted.ne_of_lt_head {p q : κ × α} {l : List (κ × α)} (h : Sorted (p :: l)) {k : κ}
    (hk : compare k p.1 = .lt) (hq : q ∈ p :: l) : q.1 ≠ k := by
  have hlt : compare k q.1 = .lt := by
    rcases List.mem_cons.1 hq with rfl | hq
    · exact hk
    · exact Std.TransCmp.lt_trans hk (h.head_lt hq)
  exact (ne_of_compare (by simp [hlt])).symm

/-- Lists that ascend strictly by some key are fixed by their members. -/
theorem eq_of_ascending {γ : Type} (key : γ → κ) {l₁ l₂ : List γ}
    (h₁ : l₁.Pairwise fun x y => compare (key x) (key y) = .lt)
    (h₂ : l₂.Pairwise fun x y => compare (key x) (key y) = .lt)
    (h : ∀ x, x ∈ l₁ ↔ x ∈ l₂) : l₁ = l₂ := by
  have nodup {l : List γ} (hl : l.Pairwise fun x y => compare (key x) (key y) = .lt) :
      l.Nodup := by
    apply hl.imp
    intro x y hxy
    rintro rfl
    rw [Std.ReflOrd.compare_self] at hxy
    cases hxy
  have hperm := (List.perm_ext_iff_of_nodup (nodup h₁) (nodup h₂)).2 h
  refine hperm.eq_of_pairwise (fun x y _ _ hxy hyx => ?_) h₁ h₂
  rw [Std.OrientedCmp.gt_of_lt hxy] at hyx
  cases hyx

theorem Sorted.eq_of_mem_iff {l₁ l₂ : List (κ × α)} (h₁ : Sorted l₁) (h₂ : Sorted l₂)
    (h : ∀ p, p ∈ l₁ ↔ p ∈ l₂) : l₁ = l₂ :=
  eq_of_ascending Prod.fst h₁ h₂ h

theorem insert_of_lt {l : List (κ × α)} {k : κ} (a : α)
    (h : ∀ p ∈ l, compare p.1 k = .lt) : insert k a l = l ++ [(k, a)] := by
  induction l with
  | nil => rfl
  | cons q rest ih =>
    obtain ⟨k', b⟩ := q
    have hk : compare k k' = .gt := Std.OrientedCmp.gt_of_lt (h (k', b) List.mem_cons_self)
    rw [insert, hk]
    simp [ih fun p hp => h p (List.mem_cons_of_mem _ hp)]

theorem ofList_eq_self {l : List (κ × α)} (h : Sorted l) : ofList l = l := by
  suffices hfold : ∀ m, Sorted (m ++ l) → l.foldl (fun m p => insert p.1 p.2 m) m = m ++ l from
    hfold [] h
  induction l with
  | nil => simp
  | cons p rest ih =>
    intro m hm
    have hlt := (List.pairwise_append.1 hm).2.2
    have hp : insert p.1 p.2 m = m ++ [p] :=
      insert_of_lt p.2 fun q hq => hlt q hq p List.mem_cons_self
    rw [List.foldl_cons, hp, ih h.tail _ (by simpa using hm)]
    simp

variable [Std.LawfulEqOrd κ]

theorem lookup_eq_some_iff {l : List (κ × α)} (h : Sorted l) {k : κ} {a : α} :
    lookup k l = some a ↔ (k, a) ∈ l := by
  induction l with
  | nil => simp [lookup]
  | cons p rest ih =>
    obtain ⟨k', b⟩ := p
    rw [lookup]
    cases hk : compare k k' with
    | lt =>
      simp only [reduceCtorEq, false_iff]
      exact fun hmem => h.ne_of_lt_head hk hmem rfl
    | eq =>
      cases Std.LawfulEqCmp.eq_of_compare hk
      have hne : (k, a) ∉ rest := fun hmem => h.head_ne hmem rfl
      simp [hne, eq_comm]
    | gt =>
      have hne : k ≠ k' := ne_of_compare (by simp [hk])
      simp [ih h.tail, hne]

theorem mem_insert_iff {l : List (κ × α)} (h : Sorted l) {k : κ} {a : α} {p : κ × α} :
    p ∈ insert k a l ↔ p = (k, a) ∨ (p ∈ l ∧ p.1 ≠ k) := by
  induction l with
  | nil => simp [insert]
  | cons q rest ih =>
    obtain ⟨k', b⟩ := q
    rw [insert]
    cases hk : compare k k' with
    | lt =>
      rw [List.mem_cons]
      exact or_congr_right ⟨fun hp => ⟨hp, h.ne_of_lt_head hk hp⟩, And.left⟩
    | eq =>
      cases Std.LawfulEqCmp.eq_of_compare hk
      rw [List.mem_cons]
      refine or_congr_right ⟨fun hp => ⟨List.mem_cons_of_mem _ hp, h.head_ne hp⟩, ?_⟩
      rintro ⟨hp, hne⟩
      exact (List.mem_cons.1 hp).resolve_left fun he => hne (congrArg Prod.fst he)
    | gt =>
      have hne : k' ≠ k := (ne_of_compare (by simp [hk])).symm
      rw [List.mem_cons, ih h.tail, List.mem_cons]
      constructor
      · rintro (rfl | rfl | hp)
        · exact .inr ⟨.inl rfl, hne⟩
        · exact .inl rfl
        · exact .inr ⟨.inr hp.1, hp.2⟩
      · rintro (rfl | ⟨rfl | hp, hp'⟩)
        · exact .inr (.inl rfl)
        · exact .inl rfl
        · exact .inr (.inr ⟨hp, hp'⟩)

theorem mem_erase_iff {l : List (κ × α)} (h : Sorted l) {k : κ} {p : κ × α} :
    p ∈ erase k l ↔ p ∈ l ∧ p.1 ≠ k := by
  induction l with
  | nil => simp [erase]
  | cons q rest ih =>
    obtain ⟨k', b⟩ := q
    rw [erase]
    cases hk : compare k k' with
    | lt => exact ⟨fun hp => ⟨hp, h.ne_of_lt_head hk hp⟩, And.left⟩
    | eq =>
      cases Std.LawfulEqCmp.eq_of_compare hk
      refine ⟨fun hp => ⟨List.mem_cons_of_mem _ hp, h.head_ne hp⟩, ?_⟩
      rintro ⟨hp, hne⟩
      exact (List.mem_cons.1 hp).resolve_left fun he => hne (congrArg Prod.fst he)
    | gt =>
      have hne : k' ≠ k := (ne_of_compare (by simp [hk])).symm
      rw [List.mem_cons, ih h.tail, List.mem_cons]
      constructor
      · rintro (rfl | hp)
        · exact ⟨.inl rfl, hne⟩
        · exact ⟨.inr hp.1, hp.2⟩
      · rintro ⟨rfl | hp, hp'⟩
        · exact .inl rfl
        · exact .inr ⟨hp, hp'⟩

end Assoc

namespace SortedMap

@[simp] theorem get?_empty (k : κ) : (∅ : SortedMap κ α).get? k = none := rfl

@[simp] theorem contains_empty (k : κ) : (∅ : SortedMap κ α).contains k = false := rfl

theorem ext_entries {m n : SortedMap κ α} (h : m.entries = n.entries) : m = n := by
  cases m
  cases n
  cases h
  rfl

@[simp] theorem isEmpty_iff {m : SortedMap κ α} : m.isEmpty ↔ m = ∅ := by
  rw [isEmpty, List.isEmpty_iff]
  exact ⟨fun h => ext_entries h, fun h => h ▸ rfl⟩

def eraseAll (m : SortedMap κ α) (ks : List κ) : SortedMap κ α := ks.foldl erase m

theorem eraseAll_append (m : SortedMap κ α) (ks ks' : List κ) :
    m.eraseAll (ks ++ ks') = (m.eraseAll ks).eraseAll ks' :=
  List.foldl_append

variable [Std.TransOrd κ] [Std.LawfulEqOrd κ]

theorem mem_entries {m : SortedMap κ α} {k : κ} {a : α} :
    (k, a) ∈ m.entries ↔ m.get? k = some a :=
  (Assoc.lookup_eq_some_iff m.sorted).symm

theorem ext_get? {m n : SortedMap κ α} (h : ∀ k, m.get? k = n.get? k) : m = n := by
  apply ext_entries
  apply m.sorted.eq_of_mem_iff n.sorted
  rintro ⟨k, a⟩
  rw [mem_entries, mem_entries, h]

theorem eq_empty_iff {m : SortedMap κ α} : m = ∅ ↔ ∀ k, m.get? k = none :=
  ⟨fun h k => h ▸ get?_empty k, fun h => ext_get? h⟩

theorem exists_get?_of_ne_empty {m : SortedMap κ α} (h : m ≠ ∅) : ∃ k a, m.get? k = some a := by
  obtain ⟨e, he⟩ := List.exists_mem_of_ne_nil m.entries fun hnil => h (ext_entries hnil)
  exact ⟨e.1, e.2, mem_entries.1 he⟩

theorem mem_keys {m : SortedMap κ α} {k : κ} : k ∈ m.keys ↔ ∃ a, m.get? k = some a := by
  simp [keys, ← mem_entries]

theorem get?_insert [DecidableEq κ] (m : SortedMap κ α) (k k' : κ) (a : α) :
    (m.insert k a).get? k' = if k' = k then some a else m.get? k' := by
  apply Option.ext
  intro b
  rw [← mem_entries, insert, Assoc.mem_insert_iff m.sorted, mem_entries]
  split
  · next hk => simp [hk, eq_comm]
  · next hk => simp [hk]

theorem get?_erase [DecidableEq κ] (m : SortedMap κ α) (k k' : κ) :
    (m.erase k).get? k' = if k' = k then none else m.get? k' := by
  apply Option.ext
  intro b
  rw [← mem_entries, erase, Assoc.mem_erase_iff m.sorted, mem_entries]
  by_cases hk : k' = k <;> simp [hk]

theorem get?_filter (m : SortedMap κ α) (p : κ → α → Bool) (k : κ) :
    (m.filter p).get? k = (m.get? k).filter (p k) := by
  apply Option.ext
  intro b
  rw [← mem_entries, filter, List.mem_filter, mem_entries, Option.filter_eq_some_iff]

theorem contains_insert [DecidableEq κ] (m : SortedMap κ α) (k k' : κ) (a : α) :
    (m.insert k a).contains k' ↔ k' = k ∨ m.contains k' := by
  rw [contains, get?_insert]
  by_cases hk : k' = k <;> simp [hk, contains]

theorem contains_erase [DecidableEq κ] (m : SortedMap κ α) (k k' : κ) :
    (m.erase k).contains k' ↔ k' ≠ k ∧ m.contains k' := by
  rw [contains, get?_erase]
  by_cases hk : k' = k <;> simp [hk, contains]

theorem erase_eq_self [DecidableEq κ] {m : SortedMap κ α} {k : κ} (h : ¬ m.contains k) :
    m.erase k = m := by
  apply ext_get?
  intro k'
  rw [get?_erase]
  split
  · next hk =>
    rw [hk, eq_comm, ← Option.not_isSome_iff_eq_none]
    exact h
  · rfl

theorem contains_insertAll [DecidableEq κ] (m : SortedMap κ α) (l : List (κ × α)) (k : κ) :
    (l.foldl (fun m p => m.insert p.1 p.2) m).contains k ↔ k ∈ l.map Prod.fst ∨ m.contains k := by
  induction l generalizing m with
  | nil => simp
  | cons p l ih =>
    rw [List.foldl_cons, ih, contains_insert, List.map_cons, List.mem_cons, or_left_comm, or_assoc]

theorem contains_eraseAll [DecidableEq κ] (m : SortedMap κ α) (ks : List κ) (k : κ) :
    (m.eraseAll ks).contains k ↔ k ∉ ks ∧ m.contains k := by
  induction ks generalizing m with
  | nil => simp [eraseAll]
  | cons k' ks ih =>
    have := ih (m.erase k')
    rw [eraseAll, List.foldl_cons, ← eraseAll, this, contains_erase, List.mem_cons, not_or,
      and_left_comm, and_assoc]

theorem filter_lt_eq_empty {m : SortedMap κ α} {k : κ}
    (h : ∀ k' a, m.get? k' = some a → compare k k' ≠ .lt) :
    (m.filter fun k' _ => compare k k' = .lt) = ∅ := by
  apply eq_empty_iff.2
  intro k'
  rw [get?_filter, Option.filter_eq_none_iff]
  intro a ha hlt
  exact h k' a ha (of_decide_eq_true hlt)

/-- The `n` least entries are gone and all others are left. -/
theorem get?_drop [DecidableEq κ] (m : SortedMap κ α) (n : Nat) (k : κ) :
    (m.drop n).get? k = if k ∈ (m.entries.take n).map Prod.fst then none else m.get? k := by
  have hsorted : Assoc.Sorted (m.entries.take n ++ m.entries.drop n) := by
    rw [List.take_append_drop]
    exact m.sorted
  apply Option.ext
  intro b
  rw [← mem_entries, drop]
  split
  · next hk =>
    obtain ⟨e, he, rfl⟩ := List.mem_map.1 hk
    simp only [reduceCtorEq, iff_false]
    intro hb
    have hlt := (List.pairwise_append.1 hsorted).2.2 e he _ hb
    exact Assoc.ne_of_compare (by rw [hlt]; decide) rfl
  · next hk =>
    have hb : (k, b) ∉ m.entries.take n := fun he => hk (List.mem_map_of_mem he)
    have hsplit : (k, b) ∈ m.entries ↔ (k, b) ∈ m.entries.take n ∨ (k, b) ∈ m.entries.drop n := by
      rw [← List.mem_append, List.take_append_drop]
    rw [← mem_entries, hsplit, or_iff_right hb]

/-- Of a map cut down to its `bound` greatest keys, an entry is left exactly if fewer than `bound`
greater keys are left. -/
theorem get?_drop_eq_some_iff {m : SortedMap κ α} {k : κ} {a : α} (h : m.get? k = some a)
    (bound : Nat) :
    (m.drop (m.size - bound)).get? k = some a ↔
      ((m.drop (m.size - bound)).filter fun k' _ => compare k k' = .lt).size < bound := by
  obtain ⟨less, greater, hm⟩ := List.append_of_mem (mem_entries.2 h)
  obtain ⟨-, hcons, hless⟩ := List.pairwise_append.1 (hm ▸ m.sorted)
  have hgreater : ∀ e ∈ greater, compare k e.1 = .lt := fun e he =>
    Assoc.Sorted.head_lt hcons he
  rw [← mem_entries]
  simp only [size, drop, filter, hm, List.length_append, List.length_cons]
  generalize hn : less.length + (greater.length + 1) - bound = n
  by_cases hcut : n ≤ less.length
  · have hnone : (less.drop n).filter (fun e => compare k e.1 = .lt) = [] := by
      apply List.filter_eq_nil_iff.2
      intro e he
      have hlt := hless e (List.mem_of_mem_drop he) (k, a) List.mem_cons_self
      simp [Std.OrientedCmp.gt_of_lt hlt]
    have hall : greater.filter (fun e => compare k e.1 = .lt) = greater :=
      List.filter_eq_self.2 fun e he => by simpa using hgreater e he
    rw [List.drop_append_of_le_length hcut, List.filter_append, hnone, List.filter_cons, hall]
    simp
    omega
  · have hdrop : (less ++ (k, a) :: greater).drop n = greater.drop (n - less.length - 1) := by
      rw [List.drop_append, List.drop_of_length_le (by omega), List.nil_append]
      conv => lhs; rw [show n - less.length = n - less.length - 1 + 1 by omega]
      rw [List.drop_succ_cons]
    have hall : (greater.drop (n - less.length - 1)).filter (fun e => compare k e.1 = .lt) =
        greater.drop (n - less.length - 1) :=
      List.filter_eq_self.2 fun e he => by simpa using hgreater e (List.mem_of_mem_drop he)
    have hgone : (k, a) ∉ greater.drop (n - less.length - 1) := fun hmem =>
      Assoc.Sorted.head_ne hcons (List.mem_of_mem_drop hmem) rfl
    rw [hdrop, hall, List.length_drop]
    simp only [hgone, false_iff]
    omega

end SortedMap

namespace SortedSet

variable [Std.TransOrd κ] [Std.LawfulEqOrd κ]

theorem mem_keys_ofList {l : List κ} {k : κ} : k ∈ (ofList l).keys ↔ k ∈ l := by
  suffices hfold : ∀ m : List (κ × Unit), Assoc.Sorted m →
      (k ∈ ((l.map (·, ())).foldl (fun m p => Assoc.insert p.1 p.2 m) m).map Prod.fst ↔
        k ∈ l ∨ k ∈ m.map Prod.fst) by
    simpa [ofList, SortedMap.ofList, Assoc.ofList, SortedMap.keys] using hfold [] List.Pairwise.nil
  induction l with
  | nil => simp
  | cons k' l ih =>
    intro m hm
    rw [List.map_cons, List.foldl_cons, ih _ (hm.insert k' ())]
    have hkeys : k ∈ (Assoc.insert k' () m).map Prod.fst ↔ k = k' ∨ k ∈ m.map Prod.fst := by
      simp only [List.mem_map, Assoc.mem_insert_iff hm]
      constructor
      · rintro ⟨p, rfl | ⟨hp, -⟩, rfl⟩
        · exact .inl rfl
        · exact .inr ⟨p, hp, rfl⟩
      · rintro (rfl | ⟨p, hp, rfl⟩)
        · exact ⟨(k, ()), .inl rfl, rfl⟩
        · by_cases hk : p.1 = k'
          · exact ⟨(k', ()), .inl rfl, hk.symm⟩
          · exact ⟨p, .inr ⟨hp, hk⟩, rfl⟩
    rw [hkeys, List.mem_cons, or_left_comm, or_assoc]

theorem mem_keys_iff_contains {s : SortedSet κ} {k : κ} : k ∈ s.keys ↔ s.contains k := by
  rw [SortedMap.mem_keys, SortedMap.contains, Option.isSome_iff_exists]

theorem contains_union [DecidableEq κ] (s t : SortedSet κ) (k : κ) :
    (union s t).contains k ↔ s.contains k ∨ t.contains k := by
  have hfold : ∀ ks : List κ, (ks.foldl add s).contains k ↔ s.contains k ∨ k ∈ ks := by
    intro ks
    induction ks generalizing s with
    | nil => simp
    | cons k' ks ih =>
      rw [List.foldl_cons, ih, add, SortedMap.contains_insert, List.mem_cons, or_assoc,
        or_left_comm]
  rw [union, hfold, mem_keys_iff_contains]

theorem ext_contains {s t : SortedSet κ} (h : ∀ k, s.contains k ↔ t.contains k) : s = t := by
  apply SortedMap.ext_get?
  intro k
  have hk := h k
  unfold SortedMap.contains at hk
  cases hs : s.get? k <;> cases ht : t.get? k <;> simp_all

end SortedSet

end ViewState
