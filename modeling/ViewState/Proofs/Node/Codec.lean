import ViewState.Persistence
import ViewState.Proofs.Node.Wire
import ViewState.Proofs.Wire.Format

/-!
The codec of view trees against the rule of the format. A tree is a record of its fields; its wire
form is the one spelling of that record, it is decoded to the tree whatever follows, and no wire
form begins another.
-/
namespace ViewState

open Wire (Value)

def Role.number : Role → Nat
  | component => 0
  | wrapper => 1

namespace Node

mutual

def value : Node → Value
  | ⟨kind, creationId, role, attributes, children, facets⟩ =>
    .record [.text kind, creationId.elim .absent fun id => .present (.text id),
      .number role.number, .list (attributes.map fun a => .record [.text a.1, .text a.2]),
      .list (valuesOfList children), .list (valuesOfFacets facets)]

def valuesOfList : List Node → List Value
  | [] => []
  | n :: ns => n.value :: valuesOfList ns

def valuesOfFacets : List (String × Node) → List Value
  | [] => []
  | (name, n) :: fs => .record [.text name, n.value] :: valuesOfFacets fs

end

theorem valuesOfList_eq (ns : List Node) : valuesOfList ns = ns.map value := by
  induction ns with
  | nil => rfl
  | cons n ns ih => rw [valuesOfList, ih, List.map_cons]

theorem valuesOfFacets_eq (fs : List (String × Node)) :
    valuesOfFacets fs = fs.map fun f => .record [.text f.1, f.2.value] := by
  induction fs with
  | nil => rfl
  | cons f fs ih =>
    obtain ⟨name, n⟩ := f
    rw [valuesOfFacets, ih, List.map_cons]

theorem spells_value (n : Node) (bs : List UInt8) : n.value.Spells bs ↔ bs = n.toWire := by
  obtain ⟨kind, creationId, role, attributes, children, facets⟩ := n
  have hid := Value.spells_option Value.text Wire.text creationId fun id _ =>
    Value.spells_text id
  have hrole : ∀ bs, (Value.number role.number).Spells bs ↔ bs = role.toWire := by
    cases role <;> exact Value.spells_number _
  have hattributes := Value.spells_list
    (fun a : String × String => .record [.text a.1, .text a.2])
    (fun a => Wire.text a.1 ++ Wire.text a.2) attributes fun a _ =>
      Value.spells_entry Value.text Wire.text (Value.spells_text a.2)
  have hchildren := Value.spells_list value toWire children fun c hc => spells_value c
  have hfacets := Value.spells_list (fun f : String × Node => .record [.text f.1, f.2.value])
    (fun f => Wire.text f.1 ++ f.2.toWire) facets fun f hf =>
      Value.spells_entry value toWire (spells_value f.2)
  rw [toWire_eq, value, valuesOfList_eq, valuesOfFacets_eq]
  have hlists := Value.spellsEach_cons hattributes
    (Value.spellsEach_cons hchildren (Value.spellsEach_cons hfacets Value.spellsEach_nil))
  have hfields := Value.spellsEach_cons (Value.spells_text kind)
    (Value.spellsEach_cons hid (Value.spellsEach_cons hrole hlists)) bs
  rwa [List.append_nil] at hfields
termination_by n
decreasing_by
  · have := List.sizeOf_lt_of_mem hc
    simp only [Node.mk.sizeOf_spec]
    omega
  · have := List.sizeOf_lt_of_mem hf
    have : sizeOf f.2 < sizeOf f := by
      cases f
      simp only [Prod.mk.sizeOf_spec]
      omega
    simp only [Node.mk.sizeOf_spec]
    omega

theorem decode_append {n : Node} (hordered : n.Ordered) (hwords : n.Addressable)
    (tail : List UInt8) : codec.decode (n.toWire ++ tail) = .ok n := by
  show (read.first (n.toWire ++ tail)).mapError _ = _
  rw [(takes hordered hwords).first tail]
  rfl

theorem toWire_append_inj {m n : Node} (hm : m.Ordered) (hm' : m.Addressable) (hn : n.Ordered)
    (hn' : n.Addressable) {tail tail' : List UInt8} (h : m.toWire ++ tail' = n.toWire ++ tail) :
    m = n ∧ tail' = tail := by
  have hread := takes hm hm' tail'
  rw [h, takes hn hn' tail] at hread
  cases hread
  exact ⟨rfl, rfl⟩

/-- A tree, with its names in order and its lengths in words, is encoded as the format spells it and
in no other way. It is decoded from there whatever follows, so no other tree is encoded to these
bytes nor to any bytes that they begin with or that begin with them. -/
theorem codec_spells_and_inverts {n : Node} (hordered : n.Ordered) (hwords : n.Addressable) :
    (∀ request, ∃ bytes, codec.encode request n = .ok bytes ∧
      (∀ bs, n.value.Spells bs ↔ bs = bytes) ∧
      ∀ tail, codec.decode (bytes ++ tail) = .ok n) ∧
    ∀ m : Node, m.Ordered → m.Addressable → ∀ request request' bytes bytes' tail tail',
      codec.encode request n = .ok bytes → codec.encode request' m = .ok bytes' →
        bytes' ++ tail' = bytes ++ tail → m = n ∧ tail' = tail := by
  constructor
  · intro request
    exact ⟨n.toWire, rfl, n.spells_value, decode_append hordered hwords⟩
  · intro m hm hm' request request' bytes bytes' tail tail' hbytes hbytes' heq
    cases hbytes
    cases hbytes'
    exact toWire_append_inj hm hm' hordered hwords heq

/-- A grouping facet, texts beyond ASCII, one of 128 bytes, and two bytes that begin no value. -/
theorem codec_spells_and_inverts_page :
    let button : Node := ⟨"button", some "ok", .component, [("label", "é✓")], [], []⟩
    let group : Node := ⟨"wrapper", none, .wrapper, [], [button, .ofKind ""], []⟩
    let long := String.ofList (List.replicate 64 'é')
    let n : Node := ⟨"page", none, .component, [("a", long), ("b", "")], [button],
      [("actions", group)]⟩
    n.Ordered ∧ n.Addressable ∧ codec.decode (n.toWire ++ [255, 128]) = .ok n := by
  intro button group long n
  have hordered : n.Ordered := by
    simp only [n, button, group, Ordered, AllOrdered, FacetsOrdered, ofKind]
    decide
  have hwords : n.Addressable := by
    simp only [n, button, group, long, Addressable, AllAddressable, FacetsAddressable, ofKind]
    decide +kernel
  obtain ⟨hcodec, -⟩ := codec_spells_and_inverts hordered hwords
  obtain ⟨bytes, hbytes, -, hdecode⟩ := hcodec (.new "s")
  cases hbytes
  exact ⟨hordered, hwords, hdecode [255, 128]⟩

end Node

end ViewState
