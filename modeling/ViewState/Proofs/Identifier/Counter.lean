import ViewState.Proofs.Identifier.Spelling

/-!
Counters hand out identifiers in document order: a section comes behind its boundary and before what
is counted after it is closed. So what was handed out once lies behind for good.
-/
namespace ViewState.Identifier

/-- The place `p` comes before the place `q` in a document. -/
def Precedes (p q : List Nat) : Prop := List.Lex (· < ·) p.reverse q.reverse

theorem Precedes.trans {p q r : List Nat} (h : Precedes p q) (h' : Precedes q r) : Precedes p r :=
  List.lt_trans h h'

theorem Precedes.irrefl (p : List Nat) : ¬ Precedes p p := List.lt_irrefl p.reverse

theorem lex_append (outer : List Nat) {p q : List Nat} (h : List.Lex (· < ·) p q) :
    List.Lex (· < ·) (outer ++ p) (outer ++ q) := by
  induction outer with
  | nil => exact h
  | cons n outer ih => exact .cons ih

theorem precedes_of_lt {m n : Nat} (h : m < n) (outer : List Nat) :
    Precedes (m :: outer) (n :: outer) := by
  simpa [Precedes] using lex_append outer.reverse (.rel h)

theorem precedes_section (n : Nat) (outer : List Nat) : Precedes outer (n :: outer) := by
  simpa [Precedes] using lex_append outer.reverse (q := [n]) .nil

theorem section_precedes {m n : Nat} (h : m < n) (k : Nat) (outer : List Nat) :
    Precedes (k :: m :: outer) (n :: outer) := by
  simpa [Precedes] using lex_append outer.reverse (p := [m, k]) (.rel h)

/-- The place `q` is the place `p` or comes after it. -/
def Ahead (p q : List Nat) : Prop := q = p ∨ Precedes p q

theorem Precedes.trans_ahead {p q r : List Nat} (h : Precedes p q) (h' : Ahead q r) :
    Precedes p r := by
  rcases h' with rfl | h'
  · exact h
  · exact h.trans h'

theorem Ahead.trans {p q r : List Nat} (h : Ahead p q) (h' : Ahead q r) : Ahead p r := by
  rcases h with rfl | h
  · exact h'
  · exact .inr (h.trans_ahead h')

def successor : List Nat → List Nat
  | [] => []
  | n :: outer => (n + 1) :: outer

theorem successor_ne_nil {p : List Nat} (hp : p ≠ []) : successor p ≠ [] := by
  obtain ⟨n, outer, rfl⟩ := List.exists_cons_of_ne_nil hp
  exact List.cons_ne_nil _ _

/-- What a step of a counter does to its place, and the place that is named then. -/
inductive Advance : List Nat → Option (List Nat) → List Nat → Prop
  | idle (p : List Nat) : Advance p none p
  | next (p : List Nat) : Advance p (some (successor p)) (successor p)
  | opened (p : List Nat) : Advance p (some (successor p)) (0 :: successor p)
  | closed (n : Nat) (p : List Nat) (hp : p ≠ []) : Advance (n :: p) none p

namespace Advance

variable {p q : List Nat} {named : Option (List Nat)}

/-- The place that is named lies just ahead, and behind afterwards. -/
theorem named_eq (h : Advance p named q) (hp : p ≠ []) {r : List Nat} (hr : named = some r) :
    r = successor p ∧ Precedes r (successor q) := by
  obtain ⟨n, outer, rfl⟩ := List.exists_cons_of_ne_nil hp
  cases h with
  | idle => cases hr
  | next =>
    cases hr
    exact ⟨rfl, precedes_of_lt (Nat.lt_succ_self _) outer⟩
  | opened =>
    cases hr
    exact ⟨rfl, precedes_section 1 _⟩
  | closed => cases hr

theorem ahead (h : Advance p named q) (hp : p ≠ []) : Ahead (successor p) (successor q) := by
  cases h with
  | idle => exact .inl rfl
  | next => exact .inr ((Advance.next p).named_eq hp rfl).2
  | opened => exact .inr ((Advance.opened p).named_eq hp rfl).2
  | closed n q hq =>
    obtain ⟨m, outer, rfl⟩ := List.exists_cons_of_ne_nil hq
    exact .inr (section_precedes (Nat.lt_succ_self m) (n + 1) outer)

theorem exists_le (h : Advance p named q) (hp : p ≠ []) {n : Nat} (hn : n ∈ q) :
    ∃ m ∈ p, n ≤ m + 1 := by
  obtain ⟨k, outer, rfl⟩ := List.exists_cons_of_ne_nil hp
  have hsuccessor : ∀ n ∈ successor (k :: outer), ∃ m ∈ k :: outer, n ≤ m + 1 := by
    intro n hn
    rcases List.mem_cons.1 hn with rfl | hn
    · exact ⟨k, List.mem_cons_self, Nat.le_refl _⟩
    · exact ⟨n, List.mem_cons_of_mem _ hn, Nat.le_succ n⟩
  cases h with
  | idle => exact ⟨n, hn, Nat.le_succ n⟩
  | next => exact hsuccessor n hn
  | opened =>
    rcases List.mem_cons.1 hn with rfl | hn
    · exact ⟨k, List.mem_cons_self, Nat.zero_le _⟩
    · exact hsuccessor n hn
  | closed => exact ⟨n, List.mem_cons_of_mem _ hn, Nat.le_succ n⟩

end Advance

namespace Counter

/-- The counts of the open sections, from the innermost out. -/
def place (c : Counter) : List Nat := (c.nested ++ [c.outermost]).map fun s => s.count.toNat

/-- Each section extends the identifier counted last in the section around it. -/
def Linked (outermost : Section) : List Section → Prop
  | [] => True
  | s :: around => s.stem = (around.headD outermost).current ++ "_" ∧ Linked outermost around

structure Regular (stem : String) (c : Counter) : Prop where
  stem_eq : c.outermost.stem = stem
  linked : Linked c.outermost c.nested
  faithful : ∀ t ∈ c.table, t.Faithful

theorem regular_ofStem (stem : String) {table : Option Table} (h : ∀ t ∈ table, t.Faithful) :
    (ofStem stem table).Regular stem := ⟨rfl, trivial, h⟩

variable {stem : String} {c c' : Counter}

theorem place_ne_nil (c : Counter) : c.place ≠ [] := by simp [place]

theorem current_of_linked {outermost : Section} {nested : List Section}
    (h : Linked outermost nested) :
    (nested.headD outermost).current =
      spell outermost.stem ((nested ++ [outermost]).map fun s => s.count.toNat) := by
  induction nested with
  | nil => rfl
  | cons s around ih =>
    have haround := ih h.2
    cases around with
    | nil =>
      rw [List.headD_cons, Section.current, h.1, haround]
      rfl
    | cons s' around =>
      rw [List.headD_cons, Section.current, h.1, haround]
      rfl

theorem current_eq_section (h : ∀ t ∈ c.table, t.Faithful) :
    c.current = (c.nested.headD c.outermost).current := by
  unfold current
  cases c.nested with
  | nil =>
    cases hid : c.table.bind fun t => t.get? c.outermost.stem c.outermost.count with
    | none => rfl
    | some id =>
      obtain ⟨t, ht, hget⟩ := Option.bind_eq_some_iff.1 hid
      rw [h t ht _ _ _ hget]
      rfl
  | cons s around => rfl

theorem Regular.current_eq (h : c.Regular stem) : c.current = spell stem c.place := by
  rw [current_eq_section h.faithful, current_of_linked h.linked, h.stem_eq]
  rfl

theorem Regular.skip (h : c.Regular stem) : c.skip.Regular stem := by
  obtain ⟨outermost, nested, table⟩ := c
  cases nested with
  | nil => exact ⟨h.stem_eq, trivial, h.faithful⟩
  | cons s around => exact ⟨h.stem_eq, h.linked, h.faithful⟩

theorem place_skip (hroom : ∀ n ∈ c.place, n + 1 < UInt64.size) :
    c.skip.place = successor c.place := by
  have hnext {w : UInt64} (hw : w.toNat + 1 < UInt64.size) : (Word.next w).toNat = w.toNat + 1 := by
    rw [Word.toNat_next]
    omega
  obtain ⟨outermost, nested, table⟩ := c
  cases nested with
  | nil =>
    have hw := hnext (hroom outermost.count.toNat (by simp [place]))
    simp [skip, place, successor, Section.advance, hw]
  | cons s around =>
    have hw := hnext (hroom s.count.toNat (by simp [place]))
    simp [skip, place, successor, Section.advance, hw]

/-- What a counter can do, and the identifier that it hands out then. -/
inductive Step : Counter → Option String → Counter → Prop
  | idle (c : Counter) : Step c none c
  | next (c : Counter) : Step c (some c.next.1) c.next.2
  | opened (c : Counter) : Step c (some c.openSection.1) c.openSection.2
  | closed {c c' : Counter} (h : c.close? = some c') : Step c none c'

theorem Step.regular {out : Option String} (hstep : Step c out c') (h : c.Regular stem) :
    c'.Regular stem := by
  cases hstep with
  | idle => exact h
  | next => exact h.skip
  | opened =>
    have hskip := h.skip
    refine ⟨hskip.stem_eq, ⟨?_, hskip.linked⟩, hskip.faithful⟩
    show c.skip.current ++ "_" = (c.skip.nested.headD c.skip.outermost).current ++ "_"
    rw [current_eq_section hskip.faithful]
  | closed hclose =>
    obtain ⟨outermost, nested, table⟩ := c
    cases nested with
    | nil => cases hclose
    | cons s around =>
      cases hclose
      exact ⟨h.stem_eq, h.linked.2, h.faithful⟩

/-- As long as the numbers last, a counter hands out the identifiers of the places that it comes
by. -/
theorem Step.advance {out : Option String} (hstep : Step c out c') (h : c.Regular stem)
    (hroom : ∀ n ∈ c.place, n + 1 < UInt64.size) :
    ∃ named, Advance c.place named c'.place ∧ out = named.map (spell stem) := by
  have hskip := place_skip hroom
  have hcurrent : c.skip.current = spell stem (successor c.place) := by
    rw [h.skip.current_eq, hskip]
  cases hstep with
  | idle => exact ⟨none, .idle _, rfl⟩
  | next =>
    refine ⟨some (successor c.place), ?_, congrArg some hcurrent⟩
    rw [show c.next.2.place = successor c.place from hskip]
    exact .next _
  | opened =>
    refine ⟨some (successor c.place), ?_, congrArg some hcurrent⟩
    rw [show c.openSection.2.place = 0 :: c.skip.place from rfl, hskip]
    exact .opened _
  | closed hclose =>
    obtain ⟨outermost, nested, table⟩ := c
    cases nested with
    | nil => cases hclose
    | cons s around =>
      cases hclose
      exact ⟨none, .closed _ _ (by simp), rfl⟩

end Counter

end ViewState.Identifier
