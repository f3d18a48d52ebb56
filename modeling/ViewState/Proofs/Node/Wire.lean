import ViewState.Node.Wire
import ViewState.Proofs.Wire

/-!
The wire form of a tree is read back to the tree. The reader bounds the depth of what it reads by
the number of bytes, which is no restriction, since the wire form of a child is shorter than that of
its parent.
-/
namespace ViewState

theorem Role.takes (r : Role) : Wire.Takes Role.read r.toWire r := by
  have number (n : Nat) (h : n < 16) :
      Wire.Takes (Wire.readVarint Wire.word32) (Wire.varint n) n :=
    Wire.takes_varintUpTo (by decide)
      (show n < Wire.reach Wire.word32.last 4 from Nat.lt_trans h (by decide))
  cases r with
  | component =>
    intro rest
    rw [toWire, read, StateT.run_bind, number 0 (by decide)]
    rfl
  | wrapper =>
    intro rest
    rw [toWire, read, StateT.run_bind, number 1 (by decide)]
    rfl

namespace Node

theorem childrenToWire_eq (ns : List Node) : childrenToWire ns = ns.flatMap toWire := by
  induction ns with
  | nil => rfl
  | cons n ns ih => rw [childrenToWire, ih, List.flatMap_cons]

theorem facetsToWire_eq (fs : List (String × Node)) :
    facetsToWire fs = fs.flatMap fun f => Wire.text f.1 ++ f.2.toWire := by
  induction fs with
  | nil => rfl
  | cons f fs ih =>
    obtain ⟨name, n⟩ := f
    rw [facetsToWire, ih, List.flatMap_cons]

theorem toWire_eq (n : Node) :
    n.toWire = Wire.text n.kind ++ (Wire.option Wire.text n.creationId ++ (n.role.toWire ++
      (Wire.entries Wire.text n.attributes ++ (Wire.list toWire n.children ++
        Wire.entries toWire n.facets)))) := by
  obtain ⟨kind, creationId, role, attributes, children, facets⟩ := n
  rw [toWire, childrenToWire_eq, facetsToWire_eq]
  simp only [Wire.list, Wire.entries, List.append_assoc]

theorem allOrdered_iff {ns : List Node} : AllOrdered ns ↔ ∀ n ∈ ns, n.Ordered := by
  induction ns with
  | nil => simp [AllOrdered]
  | cons n ns ih => simp [AllOrdered, ih]

theorem facetsOrdered_iff {fs : List (String × Node)} :
    FacetsOrdered fs ↔ ∀ f ∈ fs, f.2.Ordered := by
  induction fs with
  | nil => simp [FacetsOrdered]
  | cons f fs ih =>
    obtain ⟨name, n⟩ := f
    simp [FacetsOrdered, ih]

theorem ordered_iff {n : Node} :
    n.Ordered ↔ Assoc.Sorted n.attributes ∧ Assoc.Sorted n.facets ∧
      (∀ c ∈ n.children, c.Ordered) ∧ ∀ f ∈ n.facets, f.2.Ordered := by
  obtain ⟨kind, creationId, role, attributes, children, facets⟩ := n
  rw [Ordered, allOrdered_iff, facetsOrdered_iff]

theorem length_kind_lt (n : Node) : n.kind.utf8ByteSize < n.toWire.length := by
  have := Wire.length_text n.kind
  rw [toWire_eq, List.length_append]
  omega

theorem toWire_ne_nil (n : Node) : n.toWire ≠ [] :=
  List.length_pos_iff.1 (Nat.lt_of_le_of_lt (Nat.zero_le _) n.length_kind_lt)

theorem length_field_lt {n : Node} {field : List UInt8}
    (h : field ∈ [Wire.option Wire.text n.creationId, Wire.entries Wire.text n.attributes,
      Wire.list toWire n.children, Wire.entries toWire n.facets]) :
    field.length < n.toWire.length := by
  have hkind := Wire.length_text n.kind
  rw [toWire_eq]
  simp only [List.length_append]
  simp only [List.mem_cons, List.not_mem_nil, or_false] at h
  rcases h with rfl | rfl | rfl | rfl <;> omega

theorem length_creationId_lt {n : Node} {id : String} (h : id ∈ n.creationId) :
    id.utf8ByteSize < n.toWire.length := by
  have htext := Wire.length_text id
  have hfield : (Wire.option Wire.text n.creationId).length < n.toWire.length :=
    length_field_lt (by simp)
  rw [Option.mem_def.1 h, Wire.option, List.length_cons] at hfield
  omega

mutual

/-- The lengths of all texts and lists of a tree are words of 64 bits. -/
def Addressable : Node → Prop
  | ⟨kind, creationId, _, attributes, children, facets⟩ =>
    (kind.utf8ByteSize < UInt64.size ∧ (∀ id ∈ creationId, id.utf8ByteSize < UInt64.size) ∧
      ∀ a ∈ attributes, a.1.utf8ByteSize < UInt64.size ∧ a.2.utf8ByteSize < UInt64.size) ∧
    (attributes.length < UInt64.size ∧ children.length < UInt64.size ∧
      facets.length < UInt64.size) ∧
    AllAddressable children ∧ FacetsAddressable facets

def AllAddressable : List Node → Prop
  | [] => True
  | n :: ns => n.Addressable ∧ AllAddressable ns

def FacetsAddressable : List (String × Node) → Prop
  | [] => True
  | (name, n) :: fs => name.utf8ByteSize < UInt64.size ∧ n.Addressable ∧ FacetsAddressable fs

end

theorem allAddressable_iff {ns : List Node} : AllAddressable ns ↔ ∀ n ∈ ns, n.Addressable := by
  induction ns with
  | nil => simp [AllAddressable]
  | cons n ns ih => simp [AllAddressable, ih]

theorem facetsAddressable_iff {fs : List (String × Node)} :
    FacetsAddressable fs ↔ ∀ f ∈ fs, f.1.utf8ByteSize < UInt64.size ∧ f.2.Addressable := by
  induction fs with
  | nil => simp [FacetsAddressable]
  | cons f fs ih =>
    obtain ⟨name, n⟩ := f
    simp [FacetsAddressable, ih, and_assoc]

theorem addressable_iff {n : Node} :
    n.Addressable ↔
      (n.kind.utf8ByteSize < UInt64.size ∧ (∀ id ∈ n.creationId, id.utf8ByteSize < UInt64.size) ∧
        ∀ a ∈ n.attributes, a.1.utf8ByteSize < UInt64.size ∧ a.2.utf8ByteSize < UInt64.size) ∧
      (n.attributes.length < UInt64.size ∧ n.children.length < UInt64.size ∧
        n.facets.length < UInt64.size) ∧
      (∀ c ∈ n.children, c.Addressable) ∧
      ∀ f ∈ n.facets, f.1.utf8ByteSize < UInt64.size ∧ f.2.Addressable := by
  obtain ⟨kind, creationId, role, attributes, children, facets⟩ := n
  rw [Addressable, allAddressable_iff, facetsAddressable_iff]

/-- A tree whose wire form has a word for its length is addressable: no text and no list of it is
longer than that. -/
theorem addressable_of_length (n : Node) (h : n.toWire.length < UInt64.size) : n.Addressable := by
  have hattributes : (Wire.entries Wire.text n.attributes).length < n.toWire.length :=
    length_field_lt (by simp)
  have hchildren : (Wire.list toWire n.children).length < n.toWire.length :=
    length_field_lt (by simp)
  have hfacets : (Wire.entries toWire n.facets).length < n.toWire.length :=
    length_field_lt (by simp)
  refine addressable_iff.2 ⟨⟨Nat.lt_trans n.length_kind_lt h,
    fun id hid => Nat.lt_trans (length_creationId_lt hid) h, fun a ha => ?_⟩,
    ⟨?_, ?_, ?_⟩, fun c hc => ?_, fun f hf => ⟨?_, ?_⟩⟩
  · have hentry := Wire.length_entry_lt Wire.text ha
    have htext := Wire.length_text a.2
    omega
  · have hlength := Wire.length_lt_entries Wire.text n.attributes
    omega
  · have hlength : n.children.length < (Wire.list toWire n.children).length :=
      Wire.length_lt_list fun c _ => c.toWire_ne_nil
    omega
  · have hlength := Wire.length_lt_entries toWire n.facets
    omega
  · have hitem := Wire.length_item_lt toWire hc
    exact addressable_of_length c (by omega)
  · have hentry := Wire.length_entry_lt toWire hf
    omega
  · have hentry := Wire.length_entry_lt toWire hf
    exact addressable_of_length f.2 (by omega)
termination_by n.toWire.length

/-- The induction is on the bound of the depth: children and facets are written with fewer bytes
than their node, so the bound for them is large enough. -/
theorem takes_upTo {depth : Nat} {n : Node} (hordered : n.Ordered) (hwords : n.Addressable)
    (hdepth : n.toWire.length ≤ depth) : Wire.Takes (readUpTo depth) n.toWire n := by
  induction depth generalizing n with
  | zero => exact absurd (List.length_eq_zero_iff.1 (Nat.le_zero.1 hdepth)) n.toWire_ne_nil
  | succ depth ih =>
    obtain ⟨hattributes, hfacets, hchildren, hfacet⟩ := ordered_iff.1 hordered
    obtain ⟨⟨hkind, hid, hattribute⟩, ⟨hattributes', hchildren', hfacets'⟩, hchild, hentry⟩ :=
      addressable_iff.1 hwords
    have kind := Wire.takes_text hkind
    have creationId : Wire.Takes (Wire.readOption Wire.readText)
        (Wire.option Wire.text n.creationId) n.creationId :=
      Wire.takes_option fun id hid' => Wire.takes_text (hid id hid')
    have attributes : Wire.Takes (Wire.readEntries Wire.readText)
        (Wire.entries Wire.text n.attributes) n.attributes :=
      Wire.takes_entries hattributes hattributes' fun a ha =>
        ⟨(hattribute a ha).1, Wire.takes_text (hattribute a ha).2⟩
    have children : Wire.Takes (Wire.readList (readUpTo depth))
        (Wire.list toWire n.children) n.children := by
      have hlt : (Wire.list toWire n.children).length < n.toWire.length :=
        length_field_lt (by simp)
      apply Wire.takes_list hchildren'
      intro c hc
      have hitem := Wire.length_item_lt toWire hc
      exact ih (hchildren c hc) (hchild c hc) (by omega)
    have facets : Wire.Takes (Wire.readEntries (readUpTo depth))
        (Wire.entries toWire n.facets) n.facets := by
      have hlt : (Wire.entries toWire n.facets).length < n.toWire.length :=
        length_field_lt (by simp)
      apply Wire.takes_entries hfacets hfacets'
      intro f hf
      have hlength := Wire.length_entry_lt toWire hf
      exact ⟨(hentry f hf).1, ih (hfacet f hf) (hentry f hf).2 (by omega)⟩
    have role := n.role.takes
    rw [toWire_eq]
    cases n
    exact kind.bind (creationId.bind (role.bind (attributes.bind (children.bind (facets.map _)))))

theorem takes {n : Node} (hordered : n.Ordered) (hwords : n.Addressable) :
    Wire.Takes read n.toWire n := by
  intro rest
  have hdepth : n.toWire.length ≤ (n.toWire ++ rest).length + 1 := by
    rw [List.length_append]
    omega
  unfold read
  rw [StateT.run_bind, StateT.run_get, pure_bind]
  exact takes_upTo hordered hwords hdepth rest

end Node

end ViewState
