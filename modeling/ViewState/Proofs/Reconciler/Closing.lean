import ViewState.Proofs.Reconciler.Run

/-!
One level from its opening to its closing. A level is opened with the marks of a node and of the
nodes that it owns. When the level is closed, the owned nodes that are still marked are removed; the
level around loses its mark of the node, and nothing else if it marks none of the owned nodes.
-/
namespace ViewState

namespace Node

/-- The nodes that a facet adds to those of its owner: itself if it has a creation id, otherwise the
nodes that it groups. -/
def group (facet : Node) : List Node :=
  if facet.creationId.isSome then [facet] else if facet.isWrapper then facet.children else []

/-- The nodes that are marked together with a node. -/
def owned (n : Node) : List Node := n.children ++ n.facets.flatMap fun f => f.2.group

def creationIds (ns : List Node) : List String := ns.filterMap creationId

@[simp] theorem creationIds_nil : creationIds [] = [] := rfl

theorem creationIds_cons (n : Node) (ns : List Node) :
    creationIds (n :: ns) = n.creationId.toList ++ creationIds ns := by
  cases h : n.creationId <;> simp [creationIds, h]

@[simp] theorem creationIds_append (ns ms : List Node) :
    creationIds (ns ++ ms) = creationIds ns ++ creationIds ms :=
  List.filterMap_append

theorem keys_markAt (place : Place) (ns : List Node) :
    (ns.filterMap (markAt place)).map Prod.fst = creationIds ns := by
  rw [List.map_filterMap, creationIds]
  congr
  funext n
  cases h : n.creationId <;> simp [markAt, h]

theorem keys_facetMarks (name : String) (facet : Node) :
    (facetMarks name facet).map Prod.fst = creationIds facet.group := by
  cases h : facet.creationId with
  | some id => simp [facetMarks, markAt, group, creationIds, h]
  | none =>
    simp only [facetMarks, markAt, group, h, Option.map_none, Option.isSome_none]
    split
    · exact keys_markAt _ _
    · rfl

def level (n : Node) : Level := n.marks.foldl (fun level m => level.insert m.1 m.2) ∅

theorem mem_keys_marks {n : Node} {id : String} :
    id ∈ n.marks.map Prod.fst ↔ id = n.ownId ∨ id ∈ creationIds n.owned := by
  have hfacets : (n.facets.flatMap fun f => facetMarks f.1 f.2).map Prod.fst =
      creationIds (n.facets.flatMap fun f => f.2.group) := by
    induction n.facets with
    | nil => rfl
    | cons f fs ih => simp [ih, keys_facetMarks]
  rw [marks, owned]
  simp [hfacets, keys_markAt, or_comm, or_left_comm]

theorem contains_level {n : Node} {id : String} :
    n.level.contains id ↔ id = n.ownId ∨ id ∈ creationIds n.owned := by
  rw [level, SortedMap.contains_insertAll, mem_keys_marks]
  simp

section

variable (keep : String → Bool)

def stays (n : Node) : Bool := n.creationId.all keep

def sweepFacet (facet : Node) : Option Node :=
  if facet.creationId.isSome then
    if facet.stays keep then some facet else none
  else if facet.isWrapper then
    let children := facet.children.filter (stays keep)
    if children.isEmpty then none else some { facet with children }
  else some facet

def sweepFacets (fs : List (String × Node)) : List (String × Node) :=
  fs.filterMap fun f => (f.2.sweepFacet keep).map (f.1, ·)

def sweep (n : Node) : Node :=
  { n with children := n.children.filter (stays keep), facets := sweepFacets keep n.facets }

end

end Node

namespace Reconciler

open Node

/-- The levels around a level that is closed with a node: the nearest loses its mark of the node. -/
def forget (id : String) : List Level → List Level
  | [] => []
  | level :: outer => level.erase id :: outer

theorem contains_of_forget {id id' : String} {levels : List Level} {level : Level}
    (h : level ∈ forget id levels) (hid : level.contains id') :
    ∃ level ∈ levels, level.contains id' := by
  cases levels with
  | nil => cases h
  | cons next rest =>
    rcases List.mem_cons.1 h with rfl | h
    · exact ⟨next, List.mem_cons_self, ((SortedMap.contains_erase ..).1 hid).2⟩
    · exact ⟨level, List.mem_cons_of_mem _ h, hid⟩

theorem begin_eq {r : Reconciler} (h : r.Pooled) (n : Node) :
    r.begin n = (.ok (), ⟨n.level :: r.levels, r.openLevel.spare⟩) := by
  rw [begin, mark, h.openLevel.1]
  rfl

theorem takeMark_of_contains {level : Level} {outer : List Level} {id : String}
    (h : level.contains id) :
    takeMark (level :: outer) id = (true, level.erase id :: forget id outer) := by
  simp only [takeMark, h, if_true]
  cases outer <;> rfl

theorem closeLevel_of_open {r : Reconciler} (hopen : r.levels ≠ []) (n : Node) :
    r.closeLevel n =
      let start : Walk := ⟨(takeMark r.levels n.ownId).2, []⟩
      let children := start.children n.children
      let facets := children.2.facets n.facets
      (.ok facets.2.removed, { n with children := children.1, facets := facets.1 },
        ⟨facets.2.levels.tail, ∅ :: r.spare⟩) := by
  rw [closeLevel, if_neg (mt List.isEmpty_iff.1 hopen)]

section

variable {R : Walk → Walk → Prop} (refl : ∀ w, R w w)
  (trans : ∀ {w w' w''}, R w w' → R w' w'' → R w w'') (visit : ∀ w n, R w (w.visit n).2)

include refl trans visit

theorem Walk.children_induction (w : Walk) (ns : List Node) : R w (w.children ns).2 := by
  induction ns generalizing w with
  | nil => exact refl w
  | cons n ns ih => exact trans (visit w n) (ih (w.visit n).2)

theorem Walk.facet_induction (w : Walk) (facet : Node) : R w (w.facet facet).2 := by
  unfold Walk.facet
  split
  · exact visit w facet
  · split
    · exact children_induction refl trans visit w facet.children
    · exact refl w

theorem Walk.facets_induction (w : Walk) (fs : List (String × Node)) : R w (w.facets fs).2 := by
  induction fs generalizing w with
  | nil => exact refl w
  | cons f fs ih => exact trans (facet_induction refl trans visit w f.2) (ih (w.facet f.2).2)

/-- A relation between a walk and what one visit makes of it holds between the beginning and the end
of the walk over all nodes that a node owns. -/
theorem Walk.owned_induction (w : Walk) (n : Node) :
    R w ((w.children n.children).2.facets n.facets).2 :=
  trans (children_induction refl trans visit w n.children)
    (facets_induction refl trans visit _ n.facets)

end

/-- What the walk is to find at some nodes: the innermost level marks those that are not kept, the
levels around mark none. -/
structure Decides (keep : String → Bool) (level : Level) (outer : List Level) (ids : List String) :
    Prop where
  marked : ∀ id ∈ ids, level.contains id = !keep id
  outside : ∀ level ∈ outer, ∀ id ∈ ids, ¬ level.contains id
  distinct : ids.Nodup

section

variable {keep : String → Bool} {level : Level} {outer : List Level} {ids ids' : List String}

theorem Decides.left (h : Decides keep level outer (ids ++ ids')) :
    Decides keep level outer ids where
  marked id hid := h.marked id (List.mem_append_left _ hid)
  outside level hlevel id hid := h.outside level hlevel id (List.mem_append_left _ hid)
  distinct := (List.nodup_append.1 h.distinct).1

/-- Nodes that come later are decided on as if the earlier ones had not been visited. -/
theorem Decides.right (h : Decides keep level outer (ids ++ ids')) :
    Decides keep (level.eraseAll ids) outer ids' where
  marked id hid := by
    have hnot : id ∉ ids := fun hmem => (List.nodup_append.1 h.distinct).2.2 id hmem id hid rfl
    rw [← h.marked id (List.mem_append_right _ hid), Bool.eq_iff_iff, SortedMap.contains_eraseAll]
    exact and_iff_right hnot
  outside level hlevel id hid := h.outside level hlevel id (List.mem_append_right _ hid)
  distinct := (List.nodup_append.1 h.distinct).2.1

theorem takeMark_of_outside {id : String} (h : ∀ level ∈ outer, ¬ level.contains id) :
    takeMark (level :: outer) id = (level.contains id, level.erase id :: outer) := by
  cases hid : level.contains id with
  | false => simp [takeMark, hid, SortedMap.erase_eq_self]
  | true =>
    rw [takeMark_of_contains hid]
    cases outer with
    | nil => rfl
    | cons next rest =>
      rw [forget, SortedMap.erase_eq_self (h next List.mem_cons_self)]

theorem visit_eq {n : Node} (h : Decides keep level outer n.creationId.toList)
    (removed : List String) :
    ∃ removed', (Walk.mk (level :: outer) removed).visit n =
      (n.stays keep, ⟨level.eraseAll n.creationId.toList :: outer, removed'⟩) := by
  cases hid : n.creationId with
  | none => exact ⟨removed, by simp [Walk.visit, stays, hid, SortedMap.eraseAll]⟩
  | some id =>
    rw [hid] at h
    have htake : takeMark (level :: outer) id = (level.contains id, level.erase id :: outer) :=
      takeMark_of_outside fun level hlevel => h.outside level hlevel id List.mem_cons_self
    have hmark := h.marked id List.mem_cons_self
    simp only [Walk.visit, stays, hid, htake, hmark]
    exact ⟨_, by simp [SortedMap.eraseAll]; rfl⟩

theorem children_eq {ns : List Node} (h : Decides keep level outer (creationIds ns))
    (removed : List String) :
    ∃ removed', (Walk.mk (level :: outer) removed).children ns =
      (ns.filter (stays keep), ⟨level.eraseAll (creationIds ns) :: outer, removed'⟩) := by
  induction ns generalizing level removed with
  | nil => exact ⟨removed, rfl⟩
  | cons n ns ih =>
    rw [creationIds_cons] at h
    obtain ⟨removed₁, hvisit⟩ := visit_eq h.left removed
    obtain ⟨removed₂, hrest⟩ := ih h.right removed₁
    refine ⟨removed₂, ?_⟩
    simp only [Walk.children, hvisit, hrest, creationIds_cons, SortedMap.eraseAll_append]
    rw [List.filter_cons]

theorem facet_eq {facet : Node} (h : Decides keep level outer (creationIds facet.group))
    (removed : List String) :
    ∃ removed', (Walk.mk (level :: outer) removed).facet facet =
      (facet.sweepFacet keep, ⟨level.eraseAll (creationIds facet.group) :: outer, removed'⟩) := by
  cases hid : facet.creationId.isSome with
  | true =>
    have hgroup : creationIds facet.group = facet.creationId.toList := by
      simp [group, hid, creationIds_cons]
    rw [hgroup] at h ⊢
    obtain ⟨removed', hvisit⟩ := visit_eq h removed
    exact ⟨removed', by simp [Walk.facet, sweepFacet, hid, hvisit]⟩
  | false =>
    cases hwrap : facet.isWrapper with
    | true =>
      have hgroup : facet.group = facet.children := by simp [group, hid, hwrap]
      rw [hgroup] at h ⊢
      obtain ⟨removed', hchildren⟩ := children_eq h removed
      exact ⟨removed', by simp [Walk.facet, sweepFacet, hid, hwrap, hchildren]⟩
    | false =>
      exact ⟨removed, by simp [Walk.facet, sweepFacet, group, hid, hwrap, SortedMap.eraseAll]⟩

theorem facets_eq {fs : List (String × Node)}
    (h : Decides keep level outer (creationIds (fs.flatMap fun f => f.2.group)))
    (removed : List String) :
    ∃ removed', (Walk.mk (level :: outer) removed).facets fs =
      (sweepFacets keep fs,
        ⟨level.eraseAll (creationIds (fs.flatMap fun f => f.2.group)) :: outer, removed'⟩) := by
  induction fs generalizing level removed with
  | nil => exact ⟨removed, rfl⟩
  | cons f fs ih =>
    obtain ⟨name, facet⟩ := f
    rw [List.flatMap_cons, creationIds_append] at h
    obtain ⟨removed₁, hfacet⟩ := facet_eq h.left removed
    obtain ⟨removed₂, hrest⟩ := ih h.right removed₁
    refine ⟨removed₂, ?_⟩
    simp only [Walk.facets, hfacet, hrest, List.flatMap_cons, creationIds_append,
      SortedMap.eraseAll_append, sweepFacets, List.filterMap_cons]
    cases facet.sweepFacet keep <;> rfl

theorem closeLevel_eq {r : Reconciler} {n : Node} (hr : r.levels = level :: outer)
    (hmarked : level.contains n.ownId) (hown : n.ownId ∉ creationIds n.owned)
    (h : Decides keep level outer (creationIds n.owned)) :
    ∃ removed, r.closeLevel n =
      (.ok removed, n.sweep keep, ⟨forget n.ownId outer, ∅ :: r.spare⟩) := by
  have hwalk : Decides keep (level.erase n.ownId) (forget n.ownId outer) (creationIds n.owned) :=
    { marked := fun id hid => by
        have hne : id ≠ n.ownId := fun he => hown (he ▸ hid)
        rw [← h.marked id hid, Bool.eq_iff_iff, SortedMap.contains_erase]
        exact and_iff_right hne
      outside := fun level hlevel id hid hcontains =>
        have ⟨level, hmem, hlevel⟩ := contains_of_forget hlevel hcontains
        h.outside level hmem id hid hlevel
      distinct := h.distinct }
  rw [owned, creationIds_append] at hwalk
  obtain ⟨removed₁, hchildren⟩ := children_eq hwalk.left []
  obtain ⟨removed₂, hfacets⟩ := facets_eq hwalk.right removed₁
  refine ⟨removed₂, ?_⟩
  simp only [closeLevel, hr, List.isEmpty_cons, takeMark_of_contains hmarked, hchildren, hfacets]
  rfl

end

end Reconciler

end ViewState
