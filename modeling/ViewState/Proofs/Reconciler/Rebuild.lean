import Mathlib.Data.List.Nodup
import Mathlib.Data.List.Pairwise
import ViewState.Proofs.Reconciler.Closing

/-!
A rebuild of a tree that reaches down into the nodes to keep, each on a level of its own inside that
of its owner. If the creation ids of the tree are distinct and the levels around do not mark them,
no level takes a mark that another one needs: the rebuild removes exactly the nodes that it could
have kept and did not.
-/
namespace ViewState

namespace Node

mutual

def ids : Node → List String
  | ⟨_, creationId, _, _, children, facets⟩ =>
    creationId.toList ++ (idsOfList children ++ idsOfFacets facets)

def idsOfList : List Node → List String
  | [] => []
  | n :: ns => n.ids ++ idsOfList ns

def idsOfFacets : List (String × Node) → List String
  | [] => []
  | (_, n) :: fs => n.ids ++ idsOfFacets fs

end

theorem idsOfList_eq (ns : List Node) : idsOfList ns = ns.flatMap ids := by
  induction ns with
  | nil => rfl
  | cons n ns ih => rw [idsOfList, ih, List.flatMap_cons]

theorem idsOfFacets_eq (fs : List (String × Node)) :
    idsOfFacets fs = fs.flatMap fun f => f.2.ids := by
  induction fs with
  | nil => rfl
  | cons f fs ih =>
    obtain ⟨name, n⟩ := f
    rw [idsOfFacets, ih, List.flatMap_cons]

theorem ids_eq (n : Node) :
    n.ids = n.creationId.toList ++
      (n.children.flatMap ids ++ n.facets.flatMap fun f => f.2.ids) := by
  obtain ⟨kind, creationId, role, attributes, children, facets⟩ := n
  rw [ids, idsOfList_eq, idsOfFacets_eq]

theorem ids_group_sublist (facet : Node) : (facet.group.flatMap ids).Sublist facet.ids := by
  unfold group
  split
  · simp
  · split
    · rw [ids_eq facet]
      exact (List.sublist_append_left ..).trans (List.sublist_append_right ..)
    · exact List.nil_sublist _

/-- The identifier of a node, and those of the trees that it owns. -/
def ownIds (n : Node) : List String := n.ownId :: n.owned.flatMap ids

theorem ids_owned_sublist (n : Node) :
    (n.owned.flatMap ids).Sublist
      (n.children.flatMap ids ++ n.facets.flatMap fun f => f.2.ids) := by
  rw [owned, List.flatMap_append]
  refine (List.Sublist.refl _).append ?_
  induction n.facets with
  | nil => exact List.nil_sublist _
  | cons f fs ih =>
    rw [List.flatMap_cons, List.flatMap_append, List.flatMap_cons]
    exact (ids_group_sublist f.2).append ih

theorem creationIds_sublist (ns : List Node) : (creationIds ns).Sublist (ns.flatMap ids) := by
  induction ns with
  | nil => exact List.nil_sublist _
  | cons n ns ih =>
    rw [creationIds_cons, List.flatMap_cons, ids_eq]
    exact (List.sublist_append_left ..).append ih

mutual

/-- A tree without the nodes that are not kept, down to where the rebuild reaches. -/
def pruned (keep : String → Bool) : Node → Node
  | ⟨kind, creationId, role, attributes, children, facets⟩ =>
    ⟨kind, creationId, role, attributes, prunedList keep children, prunedFacets keep facets⟩

def prunedList (keep : String → Bool) : List Node → List Node
  | [] => []
  | n :: ns =>
    match n.creationId with
    | none => n :: prunedList keep ns
    | some id => if keep id then n.pruned keep :: prunedList keep ns else prunedList keep ns

def prunedFacets (keep : String → Bool) : List (String × Node) → List (String × Node)
  | [] => []
  | (name, ⟨kind, some id, role, attributes, children, facets⟩) :: fs =>
    if keep id then
      (name, pruned keep ⟨kind, some id, role, attributes, children, facets⟩) ::
        prunedFacets keep fs
    else prunedFacets keep fs
  | (name, ⟨kind, none, .wrapper, attributes, children, facets⟩) :: fs =>
    match prunedList keep children with
    | [] => prunedFacets keep fs
    | c :: cs =>
      (name, ⟨kind, none, .wrapper, attributes, c :: cs, facets⟩) :: prunedFacets keep fs
  | (name, ⟨kind, none, .component, attributes, children, facets⟩) :: fs =>
    (name, ⟨kind, none, .component, attributes, children, facets⟩) :: prunedFacets keep fs

end

variable (keep : String → Bool)

/-- An owned node before its level is closed: rebuilt if it is to be kept. -/
def rebuilt (n : Node) : Node := if n.creationId.any keep then n.pruned keep else n

def rebuiltFacet (facet : Node) : Node :=
  if facet.creationId.isSome then facet.rebuilt keep
  else if facet.isWrapper then { facet with children := facet.children.map (rebuilt keep) }
  else facet

def unswept (n : Node) : Node :=
  { n with
    children := n.children.map (rebuilt keep)
    facets := n.facets.map fun f => (f.1, f.2.rebuiltFacet keep) }

@[simp] theorem creationId_pruned (n : Node) : (n.pruned keep).creationId = n.creationId := by
  obtain ⟨kind, creationId, role, attributes, children, facets⟩ := n
  rw [pruned]

@[simp] theorem creationId_rebuilt (n : Node) : (n.rebuilt keep).creationId = n.creationId := by
  unfold rebuilt
  split <;> simp

theorem creationIds_rebuilt (ns : List Node) :
    creationIds (ns.map (rebuilt keep)) = creationIds ns := by
  have hcomp : creationId ∘ rebuilt keep = creationId := funext (creationId_rebuilt keep)
  rw [creationIds, List.filterMap_map, hcomp, creationIds]

theorem creationIds_rebuiltFacet (facet : Node) :
    creationIds (facet.rebuiltFacet keep).group = creationIds facet.group := by
  cases hid : facet.creationId with
  | some id => simp [rebuiltFacet, group, hid, creationIds_cons]
  | none =>
    cases hwrap : facet.isWrapper with
    | true =>
      rw [isWrapper] at hwrap
      simp [rebuiltFacet, group, isWrapper, hid, hwrap, creationIds_rebuilt]
    | false => simp [rebuiltFacet, group, hid, hwrap]

theorem creationIds_rebuiltFacets (fs : List (String × Node)) :
    creationIds ((fs.map fun f => (f.1, f.2.rebuiltFacet keep)).flatMap fun f => f.2.group) =
      creationIds (fs.flatMap fun f => f.2.group) := by
  induction fs with
  | nil => rfl
  | cons f fs ih => simp [creationIds_rebuiltFacet, ih]

theorem creationIds_unswept (n : Node) :
    creationIds (n.unswept keep).owned = creationIds n.owned := by
  rw [owned, owned, unswept, creationIds_append, creationIds_append, creationIds_rebuilt,
    creationIds_rebuiltFacets]

theorem sweep_rebuilt (ns : List Node) :
    (ns.map (rebuilt keep)).filter (stays keep) = prunedList keep ns := by
  induction ns with
  | nil => rfl
  | cons n ns ih =>
    rw [List.map_cons, List.filter_cons, ih, prunedList]
    cases hid : n.creationId with
    | none => simp [stays, rebuilt, hid]
    | some id => by_cases hkeep : keep id <;> simp [stays, rebuilt, hid, hkeep]

theorem sweepFacets_rebuilt (fs : List (String × Node)) :
    sweepFacets keep (fs.map fun f => (f.1, f.2.rebuiltFacet keep)) = prunedFacets keep fs := by
  induction fs with
  | nil => rfl
  | cons f fs ih =>
    obtain ⟨name, kind, creationId, role, attributes, children, facets⟩ := f
    rw [sweepFacets] at ih ⊢
    rw [List.map_cons, List.filterMap_cons, ih]
    cases creationId with
    | some id =>
      by_cases hkeep : keep id <;>
        simp [prunedFacets, rebuiltFacet, sweepFacet, rebuilt, stays, pruned, hkeep]
    | none =>
      cases role with
      | wrapper =>
        simp only [prunedFacets, rebuiltFacet, sweepFacet, isWrapper, Option.isSome_none,
          ← sweep_rebuilt]
        cases hleft : (children.map (rebuilt keep)).filter (stays keep) <;> simp [hleft]
      | component => simp [prunedFacets, rebuiltFacet, sweepFacet, isWrapper]

theorem sweep_unswept (n : Node) : (n.unswept keep).sweep keep = n.pruned keep := by
  obtain ⟨kind, creationId, role, attributes, children, facets⟩ := n
  rw [sweep, unswept, sweep_rebuilt, sweepFacets_rebuilt, pruned]

end Node

namespace Reconciler

open Node

mutual

/-- Opens a level for a node, rebuilds those of the nodes that it owns that are to be kept, each in
its place, and closes the level. -/
def rebuild (keep : String → Bool) : Node → Reconciler → Except Failure (Node × Reconciler)
  | ⟨kind, creationId, role, attributes, children, facets⟩, r => do
    let (begun, r) := r.begin ⟨kind, creationId, role, attributes, children, facets⟩
    begun
    let (children, r) ← rebuildEach keep children r
    let (facets, r) ← rebuildFacets keep facets r
    let (closed, n, r) := r.closeLevel ⟨kind, creationId, role, attributes, children, facets⟩
    let _ ← closed
    return (n, r)

def rebuildEach (keep : String → Bool) :
    List Node → Reconciler → Except Failure (List Node × Reconciler)
  | [], r => return ([], r)
  | n :: ns, r => do
    let (n, r) ← (if n.creationId.any keep then rebuild keep n r else .ok (n, r))
    let (ns, r) ← rebuildEach keep ns r
    return (n :: ns, r)

def rebuildFacets (keep : String → Bool) :
    List (String × Node) → Reconciler → Except Failure (List (String × Node) × Reconciler)
  | [], r => return ([], r)
  | (name, ⟨kind, some id, role, attributes, children, facets⟩) :: fs, r => do
    let facet := ⟨kind, some id, role, attributes, children, facets⟩
    let (facet, r) ← (if keep id then rebuild keep facet r else .ok (facet, r))
    let (fs, r) ← rebuildFacets keep fs r
    return ((name, facet) :: fs, r)
  | (name, ⟨kind, none, .wrapper, attributes, children, facets⟩) :: fs, r => do
    let (children, r) ← rebuildEach keep children r
    let (fs, r) ← rebuildFacets keep fs r
    return ((name, ⟨kind, none, .wrapper, attributes, children, facets⟩) :: fs, r)
  | (name, ⟨kind, none, .component, attributes, children, facets⟩) :: fs, r => do
    let (fs, r) ← rebuildFacets keep fs r
    return ((name, ⟨kind, none, .component, attributes, children, facets⟩) :: fs, r)

end

/-- A tree that can be rebuilt inside some levels: its creation ids are distinct and none of them is
that of a root, and the levels mark none of its nodes but the root of the tree. -/
structure Clear (levels : List Level) (n : Node) : Prop where
  distinct : n.ids.Nodup
  rootless : rootId ∉ n.ids
  outside : ∀ level ∈ levels, ∀ id ∈ n.ids, level.contains id → id = n.ownId

section

variable {keep : String → Bool} {level : Level} {outer levels : List Level} {n : Node}

theorem Clear.eraseAll (h : Clear (level :: outer) n) (ids : List String) :
    Clear (level.eraseAll ids :: outer) n where
  distinct := h.distinct
  rootless := h.rootless
  outside := List.forall_mem_cons.2
    ⟨fun id hid hcontains =>
        h.outside level List.mem_cons_self id hid ((SortedMap.contains_eraseAll ..).1 hcontains).2,
      (List.forall_mem_cons.1 h.outside).2⟩

theorem Clear.nodup_ownIds (h : Clear levels n) : n.ownIds.Nodup := by
  have hdistinct := h.distinct
  have hrootless := h.rootless
  rw [ids_eq] at hdistinct hrootless
  rw [ownIds, ownId]
  cases hid : n.creationId with
  | none =>
    simp only [hid, Option.toList_none, List.nil_append] at hdistinct hrootless
    exact List.nodup_cons.2 ⟨fun hmem => hrootless (n.ids_owned_sublist.subset hmem),
      hdistinct.sublist n.ids_owned_sublist⟩
  | some id =>
    rw [hid] at hdistinct
    exact hdistinct.sublist (n.ids_owned_sublist.cons_cons id)

theorem Clear.ids_owned (h : Clear levels n) {id : String} (hid : id ∈ n.owned.flatMap ids) :
    id ∈ n.ids ∧ id ≠ n.ownId ∧ ∀ level ∈ levels, ¬ level.contains id := by
  have hmem : id ∈ n.ids := by
    rw [ids_eq]
    exact List.mem_append_right _ (n.ids_owned_sublist.subset hid)
  have hne : id ≠ n.ownId := by
    rintro rfl
    exact (List.nodup_cons.1 h.nodup_ownIds).1 hid
  exact ⟨hmem, hne, fun level hlevel hcontains => hne (h.outside level hlevel id hmem hcontains)⟩

/-- A node that is owned can be rebuilt inside the level of its owner: that level marks the node
itself, and of all other nodes only such that have no id in common with it. -/
theorem Clear.owned (h : Clear levels n) {c : Node} (hc : c ∈ n.owned) :
    Clear (n.level :: levels) c := by
  have hmem {id : String} (hid : id ∈ c.ids) : id ∈ n.owned.flatMap ids :=
    List.mem_flatMap.2 ⟨c, hc, hid⟩
  obtain ⟨hnodup, hdisjoint⟩ := List.nodup_flatMap.1 (List.nodup_cons.1 h.nodup_ownIds).2
  refine ⟨hnodup c hc, fun hid => h.rootless (h.ids_owned (hmem hid)).1, ?_⟩
  refine List.forall_mem_cons.2 ⟨fun id hid hcontains => ?_, fun level hlevel id hid hcontains =>
    absurd hcontains ((h.ids_owned (hmem hid)).2.2 level hlevel)⟩
  rcases contains_level.1 hcontains with hown | howned
  · exact absurd hown (h.ids_owned (hmem hid)).2.1
  · obtain ⟨c', hc', hid'⟩ := List.mem_filterMap.1 howned
    have hmem' : id ∈ c'.ids := by
      rw [ids_eq, hid']
      exact List.mem_cons_self
    -- two owned nodes with an id in common are one
    by_cases he : c' = c
    · rw [← he, ownId, hid']
      rfl
    · have : Std.Symm (Function.onFun List.Disjoint ids) := ⟨fun _ _ => List.disjoint_symm⟩
      exact absurd hid (hdisjoint.forall hc' hc he hmem')

theorem Clear.own_notMem (h : Clear levels n) : n.ownId ∉ creationIds n.owned := fun hmem =>
  (List.nodup_cons.1 h.nodup_ownIds).1 ((creationIds_sublist _).subset hmem)

theorem Clear.marks_own (h : Clear levels n) (keep : String → Bool) :
    (n.level.eraseAll ((creationIds n.owned).filter keep)).contains n.ownId := by
  rw [SortedMap.contains_eraseAll]
  exact ⟨fun hmem => h.own_notMem (List.mem_filter.1 hmem).1, contains_level.2 (.inl rfl)⟩

theorem Clear.decides (h : Clear levels n) (keep : String → Bool) :
    Decides keep (n.level.eraseAll ((creationIds n.owned).filter keep)) levels
      (creationIds n.owned) where
  marked id hid := by
    have hlevel : n.level.contains id := contains_level.2 (.inr hid)
    rw [Bool.eq_iff_iff, SortedMap.contains_eraseAll, List.mem_filter]
    simp [hid, hlevel]
  outside level hlevel id hid :=
    (h.ids_owned ((creationIds_sublist _).subset hid)).2.2 level hlevel
  distinct := (List.nodup_cons.1 h.nodup_ownIds).2.sublist (creationIds_sublist _)

theorem rebuilt_eq {r : Reconciler} (hr : r.Pooled) (hlevels : r.levels = level :: outer)
    (hn : ∃ r', rebuild keep n r = .ok (n.pruned keep, r') ∧ r'.Pooled ∧
      r'.levels = forget n.ownId r.levels) :
    ∃ r', (if n.creationId.any keep then rebuild keep n r else .ok (n, r)) =
        .ok (n.rebuilt keep, r') ∧ r'.Pooled ∧
      r'.levels = level.eraseAll (n.creationId.toList.filter keep) :: outer := by
  rw [rebuilt]
  cases hid : n.creationId with
  | none => exact ⟨r, rfl, hr, hlevels⟩
  | some id =>
    by_cases hkeep : keep id
    · obtain ⟨r', heq, hr', hlevels'⟩ := hn
      refine ⟨r', by simp [hkeep, heq], hr', ?_⟩
      rw [hlevels', hlevels, ownId, hid]
      simp [forget, SortedMap.eraseAll, hkeep]
    · exact ⟨r, by simp [hkeep], hr, by simp [SortedMap.eraseAll, hkeep, hlevels]⟩

theorem closeLevel_unswept (keep : String → Bool) (h : Clear levels n) {r : Reconciler}
    (hlevels : r.levels = n.level.eraseAll ((creationIds n.owned).filter keep) :: levels) :
    ∃ removed, r.closeLevel (n.unswept keep) =
      (.ok removed, n.pruned keep, ⟨forget n.ownId levels, ∅ :: r.spare⟩) := by
  have hids := creationIds_unswept keep n
  have hown : (n.unswept keep).ownId ∉ creationIds (n.unswept keep).owned := by
    rw [hids]
    exact h.own_notMem
  have hdecides : Decides keep (n.level.eraseAll ((creationIds n.owned).filter keep)) levels
      (creationIds (n.unswept keep).owned) := by
    rw [hids]
    exact h.decides keep
  rw [← sweep_unswept]
  exact closeLevel_eq hlevels (h.marks_own keep) hown hdecides

mutual

/-- A rebuild takes only the mark of its root from the levels around it, so it does not interfere
with the rebuilds before and after it in the same level. -/
theorem rebuild_eq (keep : String → Bool) (n : Node) {r : Reconciler} (hr : r.Pooled)
    (h : Clear r.levels n) :
    ∃ r', rebuild keep n r = .ok (n.pruned keep, r') ∧ r'.Pooled ∧
      r'.levels = forget n.ownId r.levels := by
  match n with
  | ⟨kind, creationId, role, attributes, children, facets⟩ =>
    have howned (c : Node) (hc : c ∈ children ++ facets.flatMap fun f => f.2.group) := h.owned hc
    obtain ⟨r₁, heq₁, hr₁, hlevels₁⟩ := rebuildEach_eq keep children (hr.begin _)
      (by rw [begin_eq hr]) fun c hc => howned c (List.mem_append_left _ hc)
    obtain ⟨r₂, heq₂, hr₂, hlevels₂⟩ := rebuildFacets_eq keep facets hr₁ hlevels₁
      fun c hc => (howned c (List.mem_append_right _ hc)).eraseAll _
    rw [← SortedMap.eraseAll_append, ← List.filter_append, ← creationIds_append] at hlevels₂
    obtain ⟨removed, hclose⟩ := closeLevel_unswept keep h hlevels₂
    have hr₃ := hr₂.closeLevel (unswept keep ⟨kind, creationId, role, attributes, children, facets⟩)
    rw [hclose] at hr₃
    rw [begin_eq hr] at heq₁
    rw [unswept] at hclose
    refine ⟨_, ?_, hr₃, rfl⟩
    simp only [rebuild, begin_eq hr, heq₁, heq₂, hclose, bind, Except.bind]
    rfl

theorem rebuildEach_eq (keep : String → Bool) (ns : List Node) {r : Reconciler} (hr : r.Pooled)
    {level : Level} {outer : List Level} (hlevels : r.levels = level :: outer)
    (h : ∀ n ∈ ns, Clear (level :: outer) n) :
    ∃ r', rebuildEach keep ns r = .ok (ns.map (rebuilt keep), r') ∧ r'.Pooled ∧
      r'.levels = level.eraseAll ((creationIds ns).filter keep) :: outer := by
  match ns with
  | [] => exact ⟨r, rfl, hr, hlevels⟩
  | n :: ns =>
    obtain ⟨hn, hns⟩ := List.forall_mem_cons.1 h
    obtain ⟨r₁, heq₁, hr₁, hlevels₁⟩ :=
      rebuilt_eq hr hlevels (rebuild_eq keep n hr (hlevels ▸ hn))
    obtain ⟨r₂, heq₂, hr₂, hlevels₂⟩ :=
      rebuildEach_eq keep ns hr₁ hlevels₁ fun m hm => (hns m hm).eraseAll _
    refine ⟨r₂, ?_, hr₂, ?_⟩
    · simp only [rebuildEach, heq₁, heq₂, bind, Except.bind]
      rfl
    · rw [hlevels₂, creationIds_cons, List.filter_append, SortedMap.eraseAll_append]

theorem rebuildFacets_eq (keep : String → Bool) (fs : List (String × Node)) {r : Reconciler}
    (hr : r.Pooled) {level : Level} {outer : List Level} (hlevels : r.levels = level :: outer)
    (h : ∀ n ∈ fs.flatMap (fun f => f.2.group), Clear (level :: outer) n) :
    ∃ r', rebuildFacets keep fs r = .ok (fs.map fun f => (f.1, f.2.rebuiltFacet keep), r') ∧
      r'.Pooled ∧ r'.levels =
        level.eraseAll ((creationIds (fs.flatMap fun f => f.2.group)).filter keep) :: outer := by
  match fs with
  | [] => exact ⟨r, rfl, hr, hlevels⟩
  | (name, ⟨kind, some id, role, attributes, children, facets⟩) :: fs =>
    simp only [List.flatMap_cons, List.forall_mem_append] at h
    obtain ⟨hn, hns⟩ := h
    obtain ⟨r₁, heq₁, hr₁, hlevels₁⟩ := rebuilt_eq hr hlevels
      (rebuild_eq keep ⟨kind, some id, role, attributes, children, facets⟩ hr
        (hlevels ▸ hn _ List.mem_cons_self))
    obtain ⟨r₂, heq₂, hr₂, hlevels₂⟩ :=
      rebuildFacets_eq keep fs hr₁ hlevels₁ fun m hm => (hns m hm).eraseAll _
    refine ⟨r₂, ?_, hr₂, ?_⟩
    · simp only [Option.any_some] at heq₁
      simp only [rebuildFacets, heq₁, heq₂, bind, Except.bind]
      rfl
    · rw [hlevels₂, List.flatMap_cons, creationIds_append, List.filter_append,
        SortedMap.eraseAll_append]
      rfl
  | (name, ⟨kind, none, .wrapper, attributes, children, facets⟩) :: fs =>
    simp only [List.flatMap_cons, List.forall_mem_append] at h
    obtain ⟨hn, hns⟩ := h
    obtain ⟨r₁, heq₁, hr₁, hlevels₁⟩ := rebuildEach_eq keep children hr hlevels hn
    obtain ⟨r₂, heq₂, hr₂, hlevels₂⟩ :=
      rebuildFacets_eq keep fs hr₁ hlevels₁ fun m hm => (hns m hm).eraseAll _
    refine ⟨r₂, ?_, hr₂, ?_⟩
    · simp only [rebuildFacets, heq₁, heq₂, bind, Except.bind]
      rfl
    · rw [hlevels₂, List.flatMap_cons, creationIds_append, List.filter_append,
        SortedMap.eraseAll_append]
      rfl
  | (name, ⟨kind, none, .component, attributes, children, facets⟩) :: fs =>
    obtain ⟨r₁, heq₁, hr₁, hlevels₁⟩ := rebuildFacets_eq keep fs hr hlevels h
    refine ⟨r₁, ?_, hr₁, hlevels₁⟩
    simp only [rebuildFacets, heq₁, bind, Except.bind]
    rfl

end

end

/-- A rebuild of a tree removes exactly the nodes that it could have kept and did not, and leaves
the levels around it as they were, but for the mark of the root of the tree. -/
theorem rebuild_prunes (keep : String → Bool) {r : Reconciler} (hr : r.Reachable) {n : Node}
    (hdistinct : n.ids.Nodup) (hrootless : rootId ∉ n.ids)
    (houtside : ∀ level ∈ r.levels, ∀ id ∈ n.ids, level.contains id → id = n.ownId) :
    ∃ r', rebuild keep n r = .ok (n.pruned keep, r') ∧ r'.depth = r.depth ∧
      r'.levels = forget n.ownId r.levels := by
  obtain ⟨r', heq, -, hlevels⟩ := rebuild_eq keep n hr.pooled ⟨hdistinct, hrootless, houtside⟩
  refine ⟨r', heq, ?_, hlevels⟩
  rw [depth, depth, hlevels]
  cases r.levels <;> rfl

/-- A node inside the level of its page: of its children and facets some are kept, and one of the
kept ones loses a child of its own. -/
theorem rebuild_prunes_panel :
    let leaf (id : String) : Node := (ofKind "item").withId id
    let wrapper : Node := { ofKind "group" with role := .wrapper }
    let panel : Node :=
      (leaf "a").withChild ((leaf "b").withChild (leaf "c")) |>.withChild (leaf "d")
      |>.withFacet "footer" (leaf "e") |>.withFacet "header" (wrapper.withChild (leaf "f"))
      |>.withFacet "menu" ((wrapper.withChild (leaf "g")).withChild (ofKind "rule"))
    let r : Reconciler := (new.begin ((ofKind "page").withChild panel)).2
    ∃ r', rebuild (["b", "e", "h"].contains ·) panel r =
        .ok ((leaf "a").withChild (leaf "b") |>.withFacet "footer" (leaf "e")
          |>.withFacet "menu" (wrapper.withChild (ofKind "rule")), r') ∧
      r'.depth = 1 ∧ r'.levels = forget "a" r.levels := by
  intro leaf wrapper panel r
  have hr : r.Reachable := ⟨[.begin ((ofKind "page").withChild panel)], rfl⟩
  exact rebuild_prunes (["b", "e", "h"].contains ·) hr (n := panel) (by decide) (by decide)
    (by decide)

end Reconciler

end ViewState
