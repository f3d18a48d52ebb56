import Mathlib.Algebra.GroupWithZero.Nat
import Mathlib.Algebra.Order.BigOperators.Group.List
import Mathlib.Algebra.Order.Group.Nat
import ViewState.Proofs.Node.Wire
import ViewState.Proofs.SortedMap

/-!
The order of a document. Every node of a tree is reached from the root by steps down to facets and
children. It stands before all that is in it, facets stand before children, and these in the order
of their names and of their indices. A search by creation id gives the first node in this order that
carries it, and the size of a tree is the number of nodes that a walk in this order comes to.
-/
namespace ViewState

/-- In a list that ascends, the first element of a kind is the one that stands before all others of
that kind. -/
theorem find?_eq_some_iff_of_ascending {α : Type} {r : α → α → Prop} {p : α → Bool} {l : List α}
    (hasymm : ∀ {a b}, r a b → ¬ r b a) (h : l.Pairwise r) {a : α} :
    l.find? p = some a ↔ a ∈ l ∧ p a ∧ ∀ b ∈ l, p b → b = a ∨ r a b := by
  constructor
  · intro hfind
    obtain ⟨ha, before, after, rfl, hbefore⟩ := List.find?_eq_some_iff_append.1 hfind
    obtain ⟨-, hafter, -⟩ := List.pairwise_append.1 h
    refine ⟨List.mem_append_right _ List.mem_cons_self, ha, fun b hb hpb => ?_⟩
    rcases List.mem_append.1 hb with hb | hb
    · have hnot := hbefore b hb
      rw [hpb] at hnot
      cases hnot
    · exact (List.mem_cons.1 hb).imp_right ((List.pairwise_cons.1 hafter).1 b)
  · rintro ⟨hmem, ha, hleast⟩
    obtain ⟨before, after, rfl⟩ := List.append_of_mem hmem
    refine List.find?_eq_some_iff_append.2 ⟨ha, before, after, rfl, fun b hb => ?_⟩
    have hba : r b a := (List.pairwise_append.1 h).2.2 b hb a List.mem_cons_self
    cases hpb : p b with
    | false => rfl
    | true =>
      rcases hleast b (List.mem_append_left _ hb) hpb with rfl | hab
      · exact absurd hba (hasymm hba)
      · exact absurd hba (hasymm hab)

namespace Node

inductive Step
  | facet (name : String)
  | child (index : Nat)
deriving DecidableEq

/-- Facets come in the order of their names, and before the children. -/
def Step.Before : Step → Step → Prop
  | facet name, facet name' => compare name name' = .lt
  | facet _, child _ => True
  | child _, facet _ => False
  | child i, child j => i < j

theorem Step.Before.asymm {s t : Step} (h : s.Before t) : ¬ t.Before s := by
  cases s with
  | facet name =>
    cases t with
    | facet name' =>
      intro h'
      have hgt := Std.OrientedCmp.gt_of_lt h
      rw [show compare name' name = .lt from h'] at hgt
      cases hgt
    | child j => exact id
  | child i =>
    cases t with
    | facet name => exact False.elim h
    | child j => exact Nat.lt_asymm h

/-- Document order: the first steps that differ decide. A node stands before all that is in it, so
steps stand before those that go on from their end. -/
def Precedes (steps steps' : List Step) : Prop := List.Lex Step.Before steps steps'

theorem Precedes.asymm {steps steps' : List Step} (h : Precedes steps steps') :
    ¬ Precedes steps' steps :=
  List.lex_asymm Step.Before.asymm h

def part? (n : Node) : Step → Option Node
  | .facet name => Assoc.lookup name n.facets
  | .child i => n.children[i]?

def descend (n : Node) : List Step → Option Node
  | [] => some n
  | s :: steps => (n.part? s).bind fun part => part.descend steps

/-- The facets of a node and then its children, each with the step to it. -/
def parts (n : Node) : List (Step × Node) :=
  n.facets.map (fun f => (.facet f.1, f.2)) ++ n.children.zipIdx.map fun c => (.child c.2, c.1)

theorem map_snd_parts (n : Node) : n.parts.map Prod.snd = n.facets.map Prod.snd ++ n.children := by
  rw [parts, List.map_append, List.map_map, List.map_map]
  exact congrArg _ (List.zipIdx_map_fst 0 n.children)

theorem mem_parts {n : Node} (h : Assoc.Sorted n.facets) {s : Step} {part : Node} :
    (s, part) ∈ n.parts ↔ n.part? s = some part := by
  cases s with
  | facet name => simp [parts, part?, Assoc.lookup_eq_some_iff h]
  | child i => simp [parts, part?, List.mem_zipIdx_iff_getElem?]

theorem parts_ascend {n : Node} (h : Assoc.Sorted n.facets) :
    n.parts.Pairwise fun p q => p.1.Before q.1 := by
  refine List.pairwise_append.2 ⟨List.pairwise_map.2 h, ?_, ?_⟩
  · have hindices : (n.children.zipIdx.map Prod.snd).Pairwise (· < ·) := by
      rw [List.zipIdx_map_snd]
      exact List.pairwise_lt_range'
    exact List.pairwise_map.2 ((List.pairwise_map.1 hindices).imp id)
  · intro p hp q hq
    obtain ⟨f, -, rfl⟩ := List.mem_map.1 hp
    obtain ⟨c, -, rfl⟩ := List.mem_map.1 hq
    trivial

theorem Ordered.part {n : Node} (h : n.Ordered) {p : Step × Node} (hp : p ∈ n.parts) :
    p.2.Ordered := by
  obtain ⟨-, -, hchildren, hfacets⟩ := ordered_iff.1 h
  rcases List.mem_append.1 hp with hp | hp
  · obtain ⟨f, hf, rfl⟩ := List.mem_map.1 hp
    exact hfacets f hf
  · obtain ⟨c, hc, rfl⟩ := List.mem_map.1 hp
    exact hchildren c.1 (List.fst_mem_of_mem_zipIdx hc)

theorem sizeOfList_eq (ns : List Node) : sizeOfList ns = (ns.map size).sum := by
  induction ns with
  | nil => rfl
  | cons n ns ih => rw [sizeOfList, ih, List.map_cons, List.sum_cons]

theorem sizeOfFacets_eq (fs : List (String × Node)) :
    sizeOfFacets fs = ((fs.map Prod.snd).map size).sum := by
  induction fs with
  | nil => rfl
  | cons f fs ih =>
    obtain ⟨name, n⟩ := f
    rw [sizeOfFacets, ih, List.map_cons, List.map_cons, List.sum_cons]

theorem size_eq (n : Node) : n.size = 1 + (n.parts.map fun p => p.2.size).sum := by
  have hparts : (n.parts.map Prod.snd).map size = n.parts.map fun p => p.2.size := List.map_map
  rw [map_snd_parts, List.map_append] at hparts
  obtain ⟨kind, creationId, role, attributes, children, facets⟩ := n
  rw [size, sizeOfFacets_eq, sizeOfList_eq, Nat.add_assoc, ← List.sum_append, ← hparts]

theorem size_part_lt {n : Node} {p : Step × Node} (hp : p ∈ n.parts) : p.2.size < n.size := by
  have hle : p.2.size ≤ (n.parts.map fun p => p.2.size).sum :=
    List.le_sum_of_mem (List.mem_map_of_mem hp)
  rw [size_eq n]
  omega

/-- What holds of a node whenever it holds of its parts holds of every node. Facets and children
need no cases of their own here. -/
@[elab_as_elim]
theorem parts_induction {motive : Node → Prop} (n : Node)
    (node : ∀ n : Node, (∀ p ∈ n.parts, motive p.2) → motive n) : motive n :=
  node n fun p hp =>
    have := size_part_lt hp
    parts_induction p.2 node
termination_by n.size

theorem findInList?_eq (id : String) (ns : List Node) :
    findInList? id ns = ns.findSome? (find? id) := by
  induction ns with
  | nil => rfl
  | cons n ns ih =>
    rw [findInList?, ih, List.findSome?_cons]
    cases n.find? id <;> rfl

theorem findInFacets?_eq (id : String) (fs : List (String × Node)) :
    findInFacets? id fs = (fs.map Prod.snd).findSome? (find? id) := by
  induction fs with
  | nil => rfl
  | cons f fs ih =>
    obtain ⟨name, n⟩ := f
    rw [findInFacets?, ih, List.map_cons, List.findSome?_cons]
    cases n.find? id <;> rfl

theorem find?_eq (id : String) (n : Node) :
    n.find? id = if n.hasId id then some n else n.parts.findSome? fun p => p.2.find? id := by
  have hparts := List.findSome?_map (p := find? id) (f := Prod.snd) (l := n.parts)
  rw [map_snd_parts, List.findSome?_append] at hparts
  obtain ⟨kind, creationId, role, attributes, children, facets⟩ := n
  rw [find?, findInFacets?_eq, findInList?_eq, hparts]
  simp only [hasId, decide_eq_true_eq]
  rfl

mutual

/-- All nodes of a tree, each with the steps down to it: the node itself, then what the walks
through its facets come to, then what those through its children do. -/
def walk : Node → List (List Step × Node)
  | n@⟨_, _, _, _, children, facets⟩ => ([], n) :: (walkFacets facets ++ walkChildren 0 children)

def walkFacets : List (String × Node) → List (List Step × Node)
  | [] => []
  | (name, n) :: fs => n.walk.map (fun w => (.facet name :: w.1, w.2)) ++ walkFacets fs

/-- The first of the children stands at index `i`. -/
def walkChildren (i : Nat) : List Node → List (List Step × Node)
  | [] => []
  | n :: ns => n.walk.map (fun w => (.child i :: w.1, w.2)) ++ walkChildren (i + 1) ns

end

def walkFrom (p : Step × Node) : List (List Step × Node) :=
  p.2.walk.map fun w => (p.1 :: w.1, w.2)

theorem mem_walkFrom {p : Step × Node} {steps : List Step} {m : Node} :
    (steps, m) ∈ walkFrom p ↔ ∃ rest, steps = p.1 :: rest ∧ (rest, m) ∈ p.2.walk := by
  simp [walkFrom, eq_comm, and_comm]

theorem walkFacets_eq (fs : List (String × Node)) :
    walkFacets fs = (fs.map fun f => (.facet f.1, f.2)).flatMap walkFrom := by
  induction fs with
  | nil => rfl
  | cons f fs ih =>
    obtain ⟨name, n⟩ := f
    rw [walkFacets, ih, List.map_cons, List.flatMap_cons, walkFrom]

theorem walkChildren_eq (i : Nat) (ns : List Node) :
    walkChildren i ns = ((ns.zipIdx i).map fun c => (.child c.2, c.1)).flatMap walkFrom := by
  induction ns generalizing i with
  | nil => rfl
  | cons n ns ih =>
    rw [walkChildren, ih, List.zipIdx_cons, List.map_cons, List.flatMap_cons, walkFrom]

theorem walk_eq (n : Node) : n.walk = ([], n) :: n.parts.flatMap walkFrom := by
  obtain ⟨kind, creationId, role, attributes, children, facets⟩ := n
  rw [walk, walkFacets_eq, walkChildren_eq, parts, List.flatMap_append]

theorem mem_walk {n m : Node} (h : n.Ordered) {steps : List Step} :
    (steps, m) ∈ n.walk ↔ n.descend steps = some m := by
  induction steps generalizing n with
  | nil =>
    rw [walk_eq]
    simp [mem_walkFrom, descend, eq_comm]
  | cons s steps ih =>
    obtain ⟨-, hfacets, -⟩ := ordered_iff.1 h
    rw [descend, Option.bind_eq_some_iff, walk_eq, List.mem_cons, List.mem_flatMap]
    constructor
    · rintro (heq | ⟨p, hp, hmem⟩)
      · cases heq
      · obtain ⟨rest, heq, hrest⟩ := mem_walkFrom.1 hmem
        cases heq
        exact ⟨p.2, (mem_parts hfacets).1 hp, (ih (h.part hp)).1 hrest⟩
    · rintro ⟨part, hpart, hdown⟩
      have hp := (mem_parts hfacets).2 hpart
      exact .inr ⟨(s, part), hp, mem_walkFrom.2 ⟨steps, rfl, (ih (h.part hp)).2 hdown⟩⟩

theorem walk_ascends {n : Node} (h : n.Ordered) :
    n.walk.Pairwise fun w w' => Precedes w.1 w'.1 := by
  induction n using parts_induction with
  | node n ih =>
    obtain ⟨-, hfacets, -⟩ := ordered_iff.1 h
    rw [walk_eq, List.pairwise_cons, List.pairwise_flatMap]
    -- the node before all others, then the nodes of one part, then those of two parts
    refine ⟨?_, fun p hp => ?_, (parts_ascend hfacets).imp fun hbefore => ?_⟩
    · rintro ⟨steps, m⟩ hmem
      obtain ⟨p, -, hmem⟩ := List.mem_flatMap.1 hmem
      obtain ⟨rest, rfl, -⟩ := mem_walkFrom.1 hmem
      exact .nil
    · exact List.pairwise_map.2 ((ih p hp (h.part hp)).imp .cons)
    · rintro ⟨steps, m⟩ hmem ⟨steps', m'⟩ hmem'
      obtain ⟨rest, rfl, -⟩ := mem_walkFrom.1 hmem
      obtain ⟨rest', rfl, -⟩ := mem_walkFrom.1 hmem'
      exact .rel hbefore

theorem length_walk (n : Node) : n.walk.length = n.size := by
  induction n using parts_induction with
  | node n ih =>
    have hparts : n.parts.map (fun p => (walkFrom p).length) = n.parts.map fun p => p.2.size :=
      List.map_congr_left fun p hp => by rw [walkFrom, List.length_map, ih p hp]
    rw [walk_eq, List.length_cons, List.length_flatMap, hparts, size_eq, Nat.add_comm]

theorem find?_eq_find?_walk (id : String) (n : Node) :
    n.find? id = (n.walk.find? fun w => w.2.hasId id).map Prod.snd := by
  induction n using parts_induction with
  | node n ih =>
    have hpart (p : Step × Node) (hp : p ∈ n.parts) :
        p.2.find? id = ((walkFrom p).find? fun w => w.2.hasId id).map Prod.snd := by
      rw [ih p hp, walkFrom, List.find?_map, Option.map_map]
      rfl
    rw [find?_eq, walk_eq, List.find?_cons]
    cases hid : n.hasId id with
    | true => rfl
    | false =>
      rw [if_neg Bool.false_ne_true, List.find?_flatMap, List.map_findSome?]
      have hresults := congrArg (List.findSome? fun found => found) (List.map_congr_left hpart)
      simpa only [List.findSome?_map, Function.comp_def] using hresults

/-- Steps lead down to a node that carries an id, and all others to such a node come later. -/
structure IsFirst (n : Node) (id : String) (steps : List Step) (m : Node) : Prop where
  reached : n.descend steps = some m
  carries : m.creationId = some id
  least : ∀ other m', n.descend other = some m' → m'.creationId = some id →
    other = steps ∨ Precedes steps other

theorem find?_eq_some_iff {n m : Node} (h : n.Ordered) {id : String} :
    n.find? id = some m ↔ ∃ steps, n.IsFirst id steps m := by
  rw [find?_eq_find?_walk, Option.map_eq_some_iff]
  simp only [find?_eq_some_iff_of_ascending Precedes.asymm (walk_ascends h)]
  constructor
  · rintro ⟨⟨steps, m⟩, ⟨hmem, hid, hleast⟩, rfl⟩
    refine ⟨steps, (mem_walk h).1 hmem, of_decide_eq_true hid, fun other m' hdown hid' => ?_⟩
    have hother := hleast (other, m') ((mem_walk h).2 hdown) (decide_eq_true hid')
    exact hother.imp_left (congrArg Prod.fst)
  · rintro ⟨steps, hdown, hid, hleast⟩
    refine ⟨(steps, m), ⟨(mem_walk h).2 hdown, decide_eq_true hid, ?_⟩, rfl⟩
    rintro ⟨other, m'⟩ hmem hid'
    have hdown' := (mem_walk h).1 hmem
    rcases hleast other m' hdown' (of_decide_eq_true hid') with rfl | hlater
    · -- the same steps lead down to one node only
      rw [hdown] at hdown'
      cases hdown'
      exact .inl rfl
    · exact .inr hlater

theorem find?_eq_none_iff {n : Node} (h : n.Ordered) {id : String} :
    n.find? id = none ↔ ∀ steps m, n.descend steps = some m → m.creationId ≠ some id := by
  rw [find?_eq_find?_walk, Option.map_eq_none_iff, List.find?_eq_none]
  constructor
  · intro hnone steps m hdown hid
    exact hnone (steps, m) ((mem_walk h).2 hdown) (decide_eq_true hid)
  · rintro hnone ⟨steps, m⟩ hmem hid
    exact hnone steps m ((mem_walk h).1 hmem) (of_decide_eq_true hid)

theorem ordered_ofKind (kind : String) : (ofKind kind).Ordered :=
  ordered_iff.2 ⟨.nil, .nil, by simp [ofKind], by simp [ofKind]⟩

theorem Ordered.withId {n : Node} (h : n.Ordered) (id : String) : (n.withId id).Ordered := by
  have hfields := ordered_iff.1 h
  exact ordered_iff.2 hfields

theorem Ordered.withAttribute {n : Node} (h : n.Ordered) (name value : String) :
    (n.withAttribute name value).Ordered := by
  obtain ⟨hattributes, hrest⟩ := ordered_iff.1 h
  exact ordered_iff.2 ⟨hattributes.insert name value, hrest⟩

theorem Ordered.withChild {n child : Node} (h : n.Ordered) (hchild : child.Ordered) :
    (n.withChild child).Ordered := by
  obtain ⟨hattributes, hfacets, hchildren, hinner⟩ := ordered_iff.1 h
  refine ordered_iff.2 ⟨hattributes, hfacets, fun c hc => ?_, hinner⟩
  rcases List.mem_append.1 hc with hc | hc
  · exact hchildren c hc
  · rwa [List.mem_singleton.1 hc]

/-- A facet is put in its place by its name, whenever it is added. -/
theorem Ordered.withFacet {n facet : Node} (h : n.Ordered) (name : String)
    (hfacet : facet.Ordered) : (n.withFacet name facet).Ordered := by
  obtain ⟨hattributes, hfacets, hchildren, hinner⟩ := ordered_iff.1 h
  refine ordered_iff.2 ⟨hattributes, hfacets.insert name facet, hchildren, fun f hf => ?_⟩
  rcases Assoc.mem_insert hf with rfl | hf
  · exact hfacet
  · exact hinner f hf

/-- The walk through a tree whose names are in order comes to all nodes that steps lead down to and
to no others, in document order. A search by creation id gives the first of them that carries it,
before all others that do, and nothing exactly if none does. The size of the tree is the length of
the walk. -/
theorem search_in_document_order {n : Node} (h : n.Ordered) :
    (n.walk.Pairwise fun w w' => Precedes w.1 w'.1) ∧
    (∀ steps m, (steps, m) ∈ n.walk ↔ n.descend steps = some m) ∧
    (∀ id, n.find? id = (n.walk.find? fun w => w.2.hasId id).map Prod.snd) ∧
    (∀ id m, n.find? id = some m ↔ ∃ steps, n.IsFirst id steps m) ∧
    (∀ id, n.find? id = none ↔ ∀ steps m, n.descend steps = some m → m.creationId ≠ some id) ∧
    n.size = n.walk.length :=
  ⟨walk_ascends h, fun _ _ => mem_walk h, fun id => n.find?_eq_find?_walk id,
    fun _ _ => find?_eq_some_iff h, fun _ => find?_eq_none_iff h, n.length_walk.symm⟩

/-- An id on a child, on a facet, and deeper inside a facet that was added last and is the first by
name. -/
theorem search_in_document_order_repeated :
    let deep := ((ofKind "deep").withId "x").withAttribute "title" "é"
    let page := (((ofKind "page").withChild ((ofKind "child").withId "x")).withFacet "b"
      ((ofKind "facet").withId "x")).withFacet "a" ((ofKind "group").withChild deep)
    page.Ordered ∧ page.find? "x" = some deep ∧
    page.IsFirst "x" [.facet "a", .child 0] deep ∧
    page.find? "y" = none ∧ (∀ steps m, page.descend steps = some m → m.creationId ≠ some "y") ∧
    page.size = 5 := by
  intro deep page
  have hordered : page.Ordered :=
    (((ordered_ofKind _).withChild ((ordered_ofKind _).withId _)).withFacet _
      ((ordered_ofKind _).withId _)).withFacet _
        ((ordered_ofKind _).withChild (((ordered_ofKind _).withId _).withAttribute _ _))
  obtain ⟨-, hwalk, -, hfirst, hnone, hsize⟩ := search_in_document_order hordered
  have hdeep : page.find? "x" = some deep := by rfl
  have hother : page.find? "y" = none := by rfl
  have hplace : ∀ w ∈ page.walk, w.2 = deep → w.1 = [.facet "a", .child 0] := by decide
  obtain ⟨steps, hsteps⟩ := (hfirst "x" deep).1 hdeep
  obtain rfl := hplace (steps, deep) ((hwalk steps deep).2 hsteps.reached) rfl
  exact ⟨hordered, hdeep, hsteps, hother, (hnone "y").1 hother, hsize⟩

end Node

end ViewState
