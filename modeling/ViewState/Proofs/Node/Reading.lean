import ViewState.Persistence
import ViewState.Proofs.Wire.Spending

/-!
What becomes of any bytes as a tree, whoever wrote them. Children and facets are read from fewer
bytes than the node around them, so the reading comes to an end and no bound on the depth decides
anything. Every node has cost six bytes, one for each field, and every byte of a text one.
-/
namespace ViewState

open Wire (AgreeBelow Spends)

theorem Role.spends_read : Spends read fun _ => 1 := by
  refine (Wire.spends_varint Wire.word32).bind fun n => ?_
  split
  · exact .pure rfl
  · exact .pure rfl
  · intro bytes rest role hrun
    cases hrun

namespace Node

mutual

/-- The number of bytes of all texts of a tree, the names of attributes and facets among them. -/
def textSize : Node → Nat
  | ⟨kind, creationId, _, attributes, children, facets⟩ =>
    kind.utf8ByteSize + creationId.elim 0 String.utf8ByteSize +
      (attributes.map fun a => a.1.utf8ByteSize + a.2.utf8ByteSize).sum +
      textSizeOfList children + textSizeOfFacets facets

def textSizeOfList : List Node → Nat
  | [] => 0
  | n :: ns => n.textSize + textSizeOfList ns

def textSizeOfFacets : List (String × Node) → Nat
  | [] => 0
  | (name, n) :: fs => name.utf8ByteSize + n.textSize + textSizeOfFacets fs

end

/-- Six for each node of a tree, and one for each byte of a text. -/
def weight (n : Node) : Nat := 6 * n.size + n.textSize

theorem weightOfList (ns : List Node) :
    6 * sizeOfList ns + textSizeOfList ns = (ns.map weight).sum := by
  induction ns with
  | nil => rfl
  | cons n ns ih =>
    rw [sizeOfList, textSizeOfList, List.map_cons, List.sum_cons, ← ih, weight]
    omega

theorem weightOfFacets (fs : List (String × Node)) :
    6 * sizeOfFacets fs + textSizeOfFacets fs =
      (fs.map fun f => f.1.utf8ByteSize + f.2.weight).sum := by
  induction fs with
  | nil => rfl
  | cons f fs ih =>
    obtain ⟨name, n⟩ := f
    rw [sizeOfFacets, textSizeOfFacets, List.map_cons, List.sum_cons, ← ih]
    dsimp only [weight]
    omega

theorem weight_eq (n : Node) :
    n.weight = 6 + n.kind.utf8ByteSize + n.creationId.elim 0 String.utf8ByteSize +
      (n.attributes.map fun a => a.1.utf8ByteSize + a.2.utf8ByteSize).sum +
      (n.children.map weight).sum + (n.facets.map fun f => f.1.utf8ByteSize + f.2.weight).sum := by
  obtain ⟨kind, creationId, role, attributes, children, facets⟩ := n
  rw [← weightOfList, ← weightOfFacets, weight, size, textSize]
  dsimp only
  omega

def readFields (inner : Wire.Reader Node) : Wire.Reader Node := do
  let kind ← Wire.readText
  let creationId ← Wire.readOption Wire.readText
  let role ← Role.read
  let attributes ← Wire.readEntries Wire.readText
  let children ← Wire.readList inner
  let facets ← Wire.readEntries inner
  return ⟨kind, creationId, role, attributes, children, facets⟩

theorem readUpTo_succ (depth : Nat) : readUpTo (depth + 1) = readFields (readUpTo depth) := by
  rw [readUpTo, readFields]

theorem spends_fields {inner : Wire.Reader Node} (h : Spends inner weight) :
    Spends (readFields inner) weight := by
  refine Wire.spends_text.bind fun kind => ?_
  refine (Wire.spends_option Wire.spends_name).bind fun creationId => ?_
  refine Role.spends_read.bind fun role => ?_
  refine (Wire.spends_entries Wire.spends_name).bind fun attributes => ?_
  refine (Wire.spends_list h).bind fun children => ?_
  refine (Wire.spends_entries h).map fun facets => ?_
  rw [weight_eq]
  dsimp only
  omega

theorem spends_upTo (depth : Nat) : Spends (readUpTo depth) weight := by
  induction depth with
  | zero =>
    intro bytes rest n hrun
    cases hrun
  | succ depth ih =>
    rw [readUpTo_succ]
    exact spends_fields ih

theorem run_read (bytes : List UInt8) :
    read.run bytes = (readUpTo (bytes.length + 1)).run bytes := by
  unfold read
  rw [StateT.run_bind, StateT.run_get, pure_bind]

theorem spends_read : Spends read weight := by
  intro bytes rest n hrun
  rw [run_read] at hrun
  exact spends_upTo _ bytes rest n hrun

/-- Below a bound, what a node is read as depends on what the nodes in it are read as below a
smaller one. -/
theorem agree_fields {k : Nat} {inner inner' : Wire.Reader Node} (h : AgreeBelow k inner inner')
    (hspends : Spends inner' weight) :
    AgreeBelow (k + 1) (readFields inner) (readFields inner') := by
  have hpaid : Spends Wire.readText fun _ => 1 := Wire.spends_text.mono fun _ => Nat.le_add_right ..
  refine .bind_paid hpaid fun kind => ?_
  refine .bind (.refl k _) (Wire.spends_option Wire.spends_name) fun creationId => ?_
  refine .bind (.refl k _) Role.spends_read fun role => ?_
  refine .bind (.refl k _) (Wire.spends_entries Wire.spends_name) fun attributes => ?_
  refine (h.list hspends).bind (Wire.spends_list hspends) fun children => ?_
  exact (h.entries hspends).map (Wire.spends_entries hspends)

theorem agree_upTo {k depth depth' : Nat} (h : k ≤ depth) (h' : k ≤ depth') :
    AgreeBelow k (readUpTo depth) (readUpTo depth') := by
  induction k generalizing depth depth' with
  | zero => exact .zero _ _
  | succ k ih =>
    obtain ⟨d, rfl⟩ := Nat.exists_eq_succ_of_ne_zero (Nat.ne_zero_of_lt h)
    obtain ⟨d', rfl⟩ := Nat.exists_eq_succ_of_ne_zero (Nat.ne_zero_of_lt h')
    rw [readUpTo_succ, readUpTo_succ]
    exact agree_fields (ih (Nat.le_of_succ_le_succ h) (Nat.le_of_succ_le_succ h')) (spends_upTo d')

theorem agree_read (depth : Nat) : AgreeBelow depth read (readUpTo depth) := by
  intro bytes hlength
  rw [run_read]
  exact agree_upTo (Nat.le_refl _) hlength bytes (Nat.lt_succ_self _)

/-- The nodes in a node are read as nodes are, however deep they stand. -/
theorem read_eq : read = readFields read := by
  funext bytes
  have hfields := agree_fields (agree_read bytes.length) (spends_upTo bytes.length)
  have hrun := hfields bytes (Nat.lt_succ_self _)
  rw [← readUpTo_succ, ← run_read] at hrun
  exact hrun.symm

/-- The recursion settles what is read: a reader that keeps to it on all bytes up to a length reads
bytes of that length as nodes are read. -/
theorem eq_read {r : Wire.Reader Node} {bytes : List UInt8}
    (hr : ∀ front : List UInt8, front.length ≤ bytes.length →
      r.run front = (readFields r).run front) :
    r.run bytes = read.run bytes := by
  have hagree (k : Nat) (hk : k ≤ bytes.length + 1) : AgreeBelow k r read := by
    induction k with
    | zero => exact .zero _ _
    | succ k ih =>
      have hfields := agree_fields (ih (Nat.le_of_succ_le hk)) spends_read
      intro front hlength
      rw [hr front (by omega), hfields front hlength, ← read_eq]
  exact hagree (bytes.length + 1) (Nat.le_refl _) bytes (Nat.lt_succ_self _)

theorem decode_eq_ok_iff {bytes : List UInt8} {n : Node} :
    codec.decode bytes = .ok n ↔ ∃ rest, read.run bytes = .ok (n, rest) := by
  rw [← Wire.first_eq_ok_iff]
  show (read.first bytes).mapError _ = .ok n ↔ _
  cases read.first bytes with
  | error e => exact iff_of_false (by nofun) (by nofun)
  | ok m =>
    constructor
    · intro h
      rw [Except.ok.inj h]
    · intro h
      rw [Except.ok.inj h]
      rfl

/-- Decoding ends on all bytes: it follows a recursion that settles its outcome by what becomes of
bytes no longer than these. A tree that it gives has no more nodes and texts than the bytes pay for,
whatever numbers of items they claim. -/
theorem decode_bounded (bytes : List UInt8) :
    read = readFields read ∧
    (∀ r : Wire.Reader Node,
      (∀ front : List UInt8, front.length ≤ bytes.length →
        r.run front = (readFields r).run front) →
      codec.decode bytes = (r.first bytes).mapError (.malformed ∘ .state)) ∧
    ∀ n : Node, codec.decode bytes = .ok n → 6 * n.size + n.textSize ≤ bytes.length := by
  refine ⟨read_eq, fun r hr => ?_, fun n hn => ?_⟩
  · have hfirst : r.first bytes = read.first bytes := by
      rw [Wire.Reader.first, eq_read hr, Wire.Reader.first]
    rw [hfirst]
    rfl
  · obtain ⟨rest, hrun⟩ := decode_eq_ok_iff.1 hn
    have hpaid := spends_read bytes rest n hrun
    rw [weight] at hpaid
    omega

/-- Two facets with one name are paid for and one of them is left. -/
theorem decode_bounded_overwritten :
    let bytes : List UInt8 :=
      [0, 0, 0, 0, 0, 2, 1, 102, 0, 0, 0, 0, 0, 0, 1, 102, 0, 0, 0, 0, 0, 0]
    let n := (ofKind "").withFacet "f" (ofKind "")
    codec.decode bytes = .ok n ∧ 6 * n.size + n.textSize ≤ bytes.length := by
  intro bytes n
  have hn : codec.decode bytes = .ok n := by rfl
  exact ⟨hn, (decode_bounded bytes).2.2 n hn⟩

end Node

end ViewState
