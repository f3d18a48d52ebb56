/-!
Finite maps as association lists in strictly ascending key order. The list functions stand on
their own, so that a recursive type can hold such a list; `SortedMap` adds the order as a proof.
A sorted map is fixed by its look-ups, so two of them are equal when they answer alike.
-/
namespace ViewState

variable {κ α β : Type} [Ord κ]

namespace Assoc

/-- Keys ascend strictly, hence none occurs twice. -/
def Sorted (l : List (κ × α)) : Prop :=
  l.Pairwise fun p q => compare p.1 q.1 = .lt

instance (l : List (κ × α)) : Decidable (Sorted l) :=
  inferInstanceAs (Decidable (List.Pairwise _ l))

/-- The value of key `k`. Looks no further than the first greater key. -/
def lookup (k : κ) : List (κ × α) → Option α
  | [] => none
  | (k', a) :: rest =>
    match compare k k' with
    | .lt => none
    | .eq => some a
    | .gt => lookup k rest

/-- Sets key `k` to `a`, in its place in the order. -/
def insert (k : κ) (a : α) : List (κ × α) → List (κ × α)
  | [] => [(k, a)]
  | (k', b) :: rest =>
    match compare k k' with
    | .lt => (k, a) :: (k', b) :: rest
    | .eq => (k, a) :: rest
    | .gt => (k', b) :: insert k a rest

def erase (k : κ) : List (κ × α) → List (κ × α)
  | [] => []
  | (k', b) :: rest =>
    match compare k k' with
    | .lt => (k', b) :: rest
    | .eq => rest
    | .gt => (k', b) :: erase k rest

/-- The map of a list of pairs; of two pairs with one key the later counts. -/
def ofList (l : List (κ × α)) : List (κ × α) :=
  l.foldl (fun m p => insert p.1 p.2 m) []

theorem mem_insert {k : κ} {a : α} {p : κ × α} {l : List (κ × α)} (h : p ∈ insert k a l) :
    p = (k, a) ∨ p ∈ l := by
  induction l with
  | nil => simpa [insert] using h
  | cons q rest ih =>
    obtain ⟨k', b⟩ := q
    rw [insert] at h
    split at h
    · simpa using h
    · rcases List.mem_cons.1 h with h | h
      · exact .inl h
      · exact .inr (List.mem_cons_of_mem _ h)
    · rcases List.mem_cons.1 h with h | h
      · exact .inr (h ▸ List.mem_cons_self)
      · exact (ih h).imp id (List.mem_cons_of_mem _)

theorem erase_sublist (k : κ) (l : List (κ × α)) : (erase k l).Sublist l := by
  induction l with
  | nil => exact .slnil
  | cons q rest ih =>
    obtain ⟨k', b⟩ := q
    rw [erase]
    split
    · exact List.Sublist.refl _
    · exact List.sublist_cons_self _ _
    · exact ih.cons_cons _

theorem Sorted.erase {l : List (κ × α)} (h : Sorted l) (k : κ) : Sorted (Assoc.erase k l) :=
  List.Pairwise.sublist (erase_sublist k l) h

theorem Sorted.filter {l : List (κ × α)} (h : Sorted l) (p : κ × α → Bool) :
    Sorted (l.filter p) :=
  List.Pairwise.filter p h

variable [Std.TransOrd κ] [Std.LawfulEqOrd κ]

theorem Sorted.insert {l : List (κ × α)} (h : Sorted l) (k : κ) (a : α) :
    Sorted (Assoc.insert k a l) := by
  induction l with
  | nil => simp [Assoc.insert, Sorted]
  | cons q rest ih =>
    obtain ⟨k', b⟩ := q
    have hhead := (List.pairwise_cons.1 h).1
    have hrest : Sorted rest := (List.pairwise_cons.1 h).2
    rw [Assoc.insert]
    split
    · rename_i hlt
      refine List.pairwise_cons.2 ⟨fun p hp => ?_, h⟩
      rcases List.mem_cons.1 hp with rfl | hp
      · exact hlt
      · exact Std.TransCmp.lt_trans hlt (hhead p hp)
    · rename_i heq
      cases Std.LawfulEqCmp.eq_of_compare heq
      exact List.pairwise_cons.2 ⟨hhead, hrest⟩
    · rename_i hgt
      refine List.pairwise_cons.2 ⟨fun p hp => ?_, ih hrest⟩
      rcases mem_insert hp with rfl | hp
      · exact Std.OrientedCmp.gt_iff_lt.1 hgt
      · exact hhead p hp

theorem sorted_ofList (l : List (κ × α)) : Sorted (ofList l) := by
  suffices h : ∀ m : List (κ × α), Sorted m →
      Sorted (l.foldl (fun m p => Assoc.insert p.1 p.2 m) m) from h [] List.Pairwise.nil
  induction l with
  | nil => exact fun m hm => hm
  | cons p l ih => exact fun m hm => ih _ (hm.insert p.1 p.2)

end Assoc

/-- A finite map with its keys in ascending order. -/
structure SortedMap (κ α : Type) [Ord κ] where
  entries : List (κ × α)
  sorted : Assoc.Sorted entries

namespace SortedMap

def empty : SortedMap κ α := ⟨[], List.Pairwise.nil⟩

instance : EmptyCollection (SortedMap κ α) := ⟨empty⟩

instance : Inhabited (SortedMap κ α) := ⟨∅⟩

def get? (m : SortedMap κ α) (k : κ) : Option α := Assoc.lookup k m.entries

def contains (m : SortedMap κ α) (k : κ) : Bool := (m.get? k).isSome

def size (m : SortedMap κ α) : Nat := m.entries.length

def isEmpty (m : SortedMap κ α) : Bool := m.entries.isEmpty

def keys (m : SortedMap κ α) : List κ := m.entries.map Prod.fst

def values (m : SortedMap κ α) : List α := m.entries.map Prod.snd

def erase (m : SortedMap κ α) (k : κ) : SortedMap κ α :=
  ⟨Assoc.erase k m.entries, m.sorted.erase k⟩

def filter (m : SortedMap κ α) (p : κ → α → Bool) : SortedMap κ α :=
  ⟨m.entries.filter fun e => p e.1 e.2, m.sorted.filter _⟩

def drop (m : SortedMap κ α) (n : Nat) : SortedMap κ α :=
  ⟨m.entries.drop n, List.Pairwise.sublist (List.drop_sublist n _) m.sorted⟩

variable [Std.TransOrd κ] [Std.LawfulEqOrd κ]

def insert (m : SortedMap κ α) (k : κ) (a : α) : SortedMap κ α :=
  ⟨Assoc.insert k a m.entries, m.sorted.insert k a⟩

def ofList (l : List (κ × α)) : SortedMap κ α := ⟨Assoc.ofList l, Assoc.sorted_ofList l⟩

end SortedMap

abbrev SortedSet (κ : Type) [Ord κ] : Type := SortedMap κ Unit

namespace SortedSet

variable [Std.TransOrd κ] [Std.LawfulEqOrd κ]

def ofList (l : List κ) : SortedSet κ := SortedMap.ofList (l.map (·, ()))

def add (s : SortedSet κ) (k : κ) : SortedSet κ := SortedMap.insert s k ()

def union (s t : SortedSet κ) : SortedSet κ := t.keys.foldl add s

end SortedSet

end ViewState
