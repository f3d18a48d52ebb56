import ViewState.Proofs.Reconciler.Deleting

/-!
Which nodes the closing of a level removes. The owned nodes are walked in order, the children first
and then the facets by name. A mark goes with the first node that carries its identifier, so exactly
the first bearers of the marks are removed, wherever else the identifiers occur.
-/
namespace ViewState

namespace Node

/-- The nodes of a walk at the positions `p`; the first node stands at `start`. -/
def select (p : Nat → Prop) [DecidablePred p] (start : Nat) (ns : List Node) : List Node :=
  ((ns.zipIdx start).filter fun e => p e.2).map Prod.fst

/-- The node at a position of a walk is the first in it to carry an identifier of `ids`. -/
def FirstBearer (ids : List String) (walk : List Node) (i : Nat) : Prop :=
  ∃ id ∈ ids, walk[i]?.bind creationId = some id ∧ ∀ j < i, walk[j]?.bind creationId ≠ some id

instance (ids : List String) (walk : List Node) : DecidablePred (FirstBearer ids walk) := fun i =>
  inferInstanceAs (Decidable (∃ id ∈ ids, walk[i]?.bind creationId = some id ∧
    ∀ j < i, walk[j]?.bind creationId ≠ some id))

section

variable (gone : Nat → Prop) [DecidablePred gone]

/-- A facet without the nodes of its group at some positions. One that only groups nodes goes when
none of them is left. -/
def thinFacet (start : Nat) (facet : Node) : Option Node :=
  if facet.creationId.isSome then
    if gone start then none else some facet
  else if facet.isWrapper then
    let children := select (¬ gone ·) start facet.children
    if children.isEmpty then none else some { facet with children }
  else some facet

def thinFacets (start : Nat) : List (String × Node) → List (String × Node)
  | [] => []
  | (name, facet) :: fs =>
    (thinFacet gone start facet).toList.map (name, ·) ++
      thinFacets (start + facet.group.length) fs

def thin (n : Node) : Node :=
  { n with
    children := select (¬ gone ·) 0 n.children
    facets := thinFacets gone n.children.length n.facets }

end

section

variable (p : Nat → Prop) [DecidablePred p] (start : Nat)

@[simp] theorem select_nil : select p start [] = [] := rfl

theorem select_cons (n : Node) (ns : List Node) :
    select p start (n :: ns) = (if p start then [n] else []) ++ select p (start + 1) ns := by
  unfold select
  rw [List.zipIdx_cons, List.filter_cons]
  by_cases h : p start <;> simp [h]

theorem select_append (ns ms : List Node) :
    select p start (ns ++ ms) = select p start ns ++ select p (start + ns.length) ms := by
  rw [select, List.zipIdx_append, List.filter_append, List.map_append]
  rfl

/-- The nodes at some positions and those at the others are all of them. -/
theorem select_perm (ns : List Node) :
    ns.Perm (select (¬ p ·) start ns ++ select p start ns) := by
  have hsplit := (List.filter_append_perm (fun e => decide ¬ p e.2) (ns.zipIdx start)).map Prod.fst
  rw [List.map_append, List.zipIdx_map_fst] at hsplit
  simpa [select] using hsplit.symm

theorem group_thinFacet (facet : Node) :
    (thinFacet p start facet).toList.flatMap group = select (¬ p ·) start facet.group := by
  by_cases hid : facet.creationId.isSome
  · by_cases hp : p start <;> simp [thinFacet, group, hid, hp, select_cons]
  · by_cases hwrap : facet.isWrapper
    · have hgroup (ns : List Node) : group { facet with children := ns } = ns := by
        have hrole : Node.isWrapper { facet with children := ns } = true := hwrap
        rw [group, if_neg hid, if_pos hrole]
      have hfacet : facet.group = facet.children := by
        rw [group, if_neg hid, if_pos hwrap]
      rw [thinFacet, if_neg hid, if_pos hwrap, hfacet]
      by_cases hempty : (select (¬ p ·) start facet.children).isEmpty
      · simp only [hempty, if_true]
        exact (List.isEmpty_iff.1 hempty).symm
      · simp [hempty, hgroup]
    · simp [thinFacet, group, hid, hwrap]

theorem group_thinFacets (fs : List (String × Node)) :
    ((thinFacets p start fs).flatMap fun f => f.2.group) =
      select (¬ p ·) start (fs.flatMap fun f => f.2.group) := by
  induction fs generalizing start with
  | nil => rfl
  | cons f fs ih =>
    obtain ⟨name, facet⟩ := f
    rw [thinFacets, List.flatMap_append, List.flatMap_cons, select_append, ih, List.flatMap_map,
      group_thinFacet]

theorem owned_thin (n : Node) : (n.thin p).owned = select (¬ p ·) 0 n.owned := by
  rw [owned, owned, select_append, Nat.zero_add, ← group_thinFacets]
  rfl

end

theorem mem_creationIds {ns : List Node} {id : String} :
    id ∈ creationIds ns ↔ ∃ i : Nat, i < ns.length ∧ ns[i]?.bind creationId = some id := by
  rw [creationIds, List.mem_filterMap]
  constructor
  · rintro ⟨n, hn, hid⟩
    obtain ⟨i, hi, rfl⟩ := List.mem_iff_getElem.1 hn
    exact ⟨i, hi, by rw [List.getElem?_eq_getElem hi]; exact hid⟩
  · rintro ⟨i, hi, hid⟩
    rw [List.getElem?_eq_getElem hi] at hid
    exact ⟨ns[i], List.getElem_mem hi, hid⟩

section

variable {ids : List String} {before after : List Node} {n : Node}

theorem not_firstBearer (hid : n.creationId = none) :
    ¬ FirstBearer ids (before ++ n :: after) before.length := by
  rintro ⟨id, -, hnode, -⟩
  simp [hid] at hnode

/-- A node is the first bearer of its identifier if no node before it carries the same. -/
theorem firstBearer_iff {id : String} (hid : n.creationId = some id) :
    FirstBearer ids (before ++ n :: after) before.length ↔ id ∈ ids ∧ id ∉ creationIds before := by
  have hnode : (before ++ n :: after)[before.length]?.bind creationId = some id := by simp [hid]
  have hbefore (j : Nat) (hj : j < before.length) :
      (before ++ n :: after)[j]? = before[j]? := List.getElem?_append_left hj
  rw [FirstBearer, hnode, mem_creationIds]
  constructor
  · rintro ⟨_, hmem, ⟨rfl⟩, hfirst⟩
    refine ⟨hmem, ?_⟩
    rintro ⟨j, hj, hid'⟩
    exact hfirst j hj (hbefore j hj ▸ hid')
  · rintro ⟨hmem, hfirst⟩
    exact ⟨id, hmem, rfl, fun j hj hid' => hfirst ⟨j, hj, hbefore j hj ▸ hid'⟩⟩

end

end Node

namespace Reconciler

open Node

def innermost (levels : List Level) : Level := levels.head?.getD ∅

theorem fst_takeMark_eq (levels : List Level) (id : String) :
    (takeMark levels id).1 = (innermost levels).contains id := by
  cases levels with
  | nil => rfl
  | cons level outer => exact fst_takeMark level outer id

theorem contains_takeMark (levels : List Level) (id id' : String) :
    (innermost (takeMark levels id).2).contains id' ↔
      id' ≠ id ∧ (innermost levels).contains id' := by
  cases levels with
  | nil => simp [takeMark, innermost]
  | cons level outer =>
    by_cases hid : level.contains id
    · rw [takeMark_of_contains hid]
      exact SortedMap.contains_erase level id id'
    · have hsame : takeMark (level :: outer) id = (false, level :: outer) := by
        simp [takeMark, hid]
      rw [hsame]
      refine ⟨fun h => ⟨?_, h⟩, And.right⟩
      rintro rfl
      exact hid h

section

variable {ids : List String} {walk : List Node}

/-- Of the marks `ids` those are left that no node passed so far carries. -/
def Walk.Left (ids : List String) (before : List Node) (w : Walk) : Prop :=
  ∀ id, (innermost w.levels).contains id ↔ id ∈ ids ∧ id ∉ creationIds before

/-- A part of a walk is passed: of its nodes the first bearers of marks are counted as removed. -/
structure Walk.Passes (ids : List String) (walk before ns : List Node) (w w' : Walk) : Prop where
  left : w'.Left ids (before ++ ns)
  removed : w'.removed = w.removed ++ creationIds (select (FirstBearer ids walk) before.length ns)

namespace Walk.Passes

variable {before ns ms : List Node} {w w' w'' : Walk}

theorem nil (h : w.Left ids before) : Passes ids walk before [] w w :=
  ⟨by rwa [List.append_nil], by simp⟩

theorem append (h : Passes ids walk before ns w w')
    (h' : Passes ids walk (before ++ ns) ms w' w'') :
    Passes ids walk before (ns ++ ms) w w'' where
  left := by
    rw [← List.append_assoc]
    exact h'.left
  removed := by
    rw [h'.removed, h.removed, select_append, creationIds_append, List.length_append,
      List.append_assoc]

end Walk.Passes

theorem Walk.visit_passes {w : Walk} {before after : List Node} {n : Node}
    (h : w.Left ids before) (hwalk : walk = before ++ n :: after) :
    (w.visit n).1 = decide (¬ FirstBearer ids walk before.length) ∧
      Passes ids walk before [n] w (w.visit n).2 := by
  cases hid : n.creationId with
  | none =>
    have hnot : ¬ FirstBearer ids walk before.length := hwalk ▸ not_firstBearer hid
    have hleft : w.Left ids (before ++ [n]) := by
      unfold Left
      rw [creationIds_append, creationIds_cons, hid, creationIds_nil, Option.toList_none,
        List.append_nil, List.append_nil]
      exact h
    simp only [visit, hid, hnot, not_false_eq_true, decide_true, true_and]
    exact ⟨hleft, by simp [select_cons, hnot]⟩
  | some id =>
    have hfirst : FirstBearer ids walk before.length ↔ id ∈ ids ∧ id ∉ creationIds before :=
      hwalk ▸ firstBearer_iff hid
    have hmarked : (takeMark w.levels id).1 = decide (FirstBearer ids walk before.length) := by
      rw [fst_takeMark_eq, Bool.eq_iff_iff, decide_eq_true_iff, hfirst]
      exact h id
    have hleft : Left ids (before ++ [n]) ⟨(takeMark w.levels id).2,
        if (takeMark w.levels id).1 then w.removed ++ [id] else w.removed⟩ := by
      intro id'
      rw [contains_takeMark, h id', creationIds_append, creationIds_cons, hid, List.mem_append]
      simp only [Option.toList_some, creationIds_nil, List.append_nil, List.mem_singleton, not_or]
      exact and_comm.trans and_assoc
    simp only [visit, hid]
    refine ⟨by rw [hmarked, decide_not], hleft, ?_⟩
    by_cases hgone : FirstBearer ids walk before.length <;>
      simp [hmarked, hgone, select_cons, creationIds_cons, hid]

theorem Walk.children_passes {w : Walk} {before after ns : List Node} (h : w.Left ids before)
    (hwalk : walk = before ++ ns ++ after) :
    (w.children ns).1 = select (¬ FirstBearer ids walk ·) before.length ns ∧
      Passes ids walk before ns w (w.children ns).2 := by
  induction ns generalizing before w with
  | nil => exact ⟨rfl, .nil h⟩
  | cons n ns ih =>
    have hnode : walk = before ++ n :: (ns ++ after) := by simp [hwalk]
    have hnodes : walk = before ++ [n] ++ ns ++ after := by simp [hwalk]
    obtain ⟨hstays, hvisit⟩ := visit_passes h hnode
    obtain ⟨hrest, hpasses⟩ := ih hvisit.left hnodes
    refine ⟨?_, hvisit.append hpasses⟩
    simp only [children, hstays, hrest, select_cons, List.length_append, List.length_singleton]
    by_cases hgone : FirstBearer ids walk before.length <;> simp [hgone]

theorem Walk.facet_passes {w : Walk} {before after : List Node} {facet : Node}
    (h : w.Left ids before) (hwalk : walk = before ++ facet.group ++ after) :
    (w.facet facet).1 = thinFacet (FirstBearer ids walk) before.length facet ∧
      Passes ids walk before facet.group w (w.facet facet).2 := by
  by_cases hid : facet.creationId.isSome
  · have hgroup : facet.group = [facet] := by simp [group, hid]
    rw [hgroup] at hwalk ⊢
    obtain ⟨hstays, hvisit⟩ := visit_passes h (hwalk.trans (List.append_assoc ..))
    simp only [Walk.facet, thinFacet, hid, if_true]
    refine ⟨?_, hvisit⟩
    rw [hstays]
    by_cases hgone : FirstBearer ids walk before.length <;> simp [hgone]
  · by_cases hwrap : facet.isWrapper
    · have hgroup : facet.group = facet.children := by simp [group, hid, hwrap]
      rw [hgroup] at hwalk ⊢
      obtain ⟨hleft, hchildren⟩ := children_passes h hwalk
      simp only [Walk.facet, thinFacet, hid, hwrap, if_true]
      exact ⟨by rw [hleft]; rfl, hchildren⟩
    · have hgroup : facet.group = [] := by simp [group, hid, hwrap]
      rw [hgroup]
      simp only [Walk.facet, thinFacet, hid, hwrap]
      exact ⟨rfl, .nil h⟩

theorem Walk.facets_passes {w : Walk} {before after : List Node} {fs : List (String × Node)}
    (h : w.Left ids before) (hwalk : walk = before ++ (fs.flatMap fun f => f.2.group) ++ after) :
    (w.facets fs).1 = thinFacets (FirstBearer ids walk) before.length fs ∧
      Passes ids walk before (fs.flatMap fun f => f.2.group) w (w.facets fs).2 := by
  induction fs generalizing before w with
  | nil => exact ⟨rfl, .nil h⟩
  | cons f fs ih =>
    obtain ⟨name, facet⟩ := f
    rw [List.flatMap_cons] at hwalk ⊢
    have hgroup : walk =
        before ++ facet.group ++ ((fs.flatMap fun f => f.2.group) ++ after) := by simp [hwalk]
    have hgroups : walk =
        before ++ facet.group ++ (fs.flatMap fun f => f.2.group) ++ after := by simp [hwalk]
    obtain ⟨hkept, hfacet⟩ := facet_passes h hgroup
    obtain ⟨hrest, hpasses⟩ := ih hfacet.left hgroups
    refine ⟨?_, hfacet.append hpasses⟩
    simp only [facets, hkept, hrest, thinFacets, List.length_append]
    cases thinFacet (FirstBearer ids walk) before.length facet <;> rfl

end

theorem length_strip (ids : List String) (levels : List Level) :
    (strip ids levels).length = levels.length := by
  rcases levels with _ | ⟨level, _ | ⟨next, outer⟩⟩ <;> rfl

theorem drop_two_strip (ids : List String) (levels : List Level) :
    (strip ids levels).drop 2 = levels.drop 2 := by
  rcases levels with _ | ⟨level, _ | ⟨next, outer⟩⟩ <;> rfl

/-- The identifiers marked on the innermost level, but for that of a node. -/
def stale (r : Reconciler) (n : Node) : List String := r.pending.filter (· ≠ n.ownId)

theorem mem_stale {r : Reconciler} {n : Node} {id : String} :
    id ∈ r.stale n ↔ id ≠ n.ownId ∧ (innermost r.levels).contains id := by
  have hpending : id ∈ r.pending ↔ (innermost r.levels).contains id := by
    rw [SortedMap.contains, Option.isSome_iff_exists]
    exact SortedMap.mem_keys
  rw [stale, List.mem_filter, hpending, decide_eq_true_iff, and_comm]

theorem closeLevel_eq_thin {r : Reconciler} (hopen : 0 < r.depth) (n : Node) :
    ∃ r', r.closeLevel n =
        (.ok (creationIds (select (FirstBearer (r.stale n) n.owned) 0 n.owned)),
          n.thin (FirstBearer (r.stale n) n.owned), r') ∧
      r'.depth + 1 = r.depth ∧ r'.levels.drop 1 = r.levels.drop 2 := by
  have hne : r.levels ≠ [] := List.ne_nil_of_length_pos hopen
  -- the walk begins with all stale marks left
  have hstart : Walk.Left (r.stale n) [] ⟨(takeMark r.levels n.ownId).2, []⟩ := by
    intro id
    rw [contains_takeMark, mem_stale]
    simp
  obtain ⟨hchildren, hpassed⟩ := Walk.children_passes hstart
    (show n.owned = [] ++ n.children ++ n.facets.flatMap fun f => f.2.group from rfl)
  obtain ⟨hfacets, hpassed'⟩ := Walk.facets_passes hpassed.left (List.append_nil n.owned).symm
  have hremoved := (hpassed.append hpassed').removed
  rw [List.nil_append] at hremoved
  obtain ⟨removed, n', r', hclose, hlevels⟩ := levels_closeLevel hne n
  refine ⟨r', ?_, ?_, ?_⟩
  · have heq := hclose
    simp only [closeLevel_of_open hne, hchildren, hfacets, hremoved, Prod.mk.injEq] at heq
    obtain ⟨hok, hnode, -⟩ := heq
    rw [hclose, ← hok, ← hnode]
    rfl
  · rw [depth, hlevels, takeMark_eq_strip, List.length_tail, length_strip, length_strip]
    exact Nat.sub_add_cancel hopen
  · rw [hlevels, List.drop_one, ← List.drop_one, ← List.drop_one, List.drop_drop, drop_two_strip,
      takeMark_eq_strip, drop_two_strip]

/-- Closing a level removes from a node exactly the first bearers of the marks, in the order of the
walk, and says which. Facets that group nodes go when they end without any. The level goes, and all
levels but the next are as before. -/
theorem closeLevel_removes_first_bearers {r : Reconciler} (hopen : 0 < r.depth) (n : Node) :
    ∃ n' r', r.closeLevel n =
        (.ok (creationIds (select (FirstBearer (r.stale n) n.owned) 0 n.owned)), n', r') ∧
      n' = n.thin (FirstBearer (r.stale n) n.owned) ∧
      n'.owned = select (¬ FirstBearer (r.stale n) n.owned ·) 0 n.owned ∧
      r'.depth + 1 = r.depth ∧ r'.levels.drop 1 = r.levels.drop 2 := by
  obtain ⟨r', hclose, hdepth, hlevels⟩ := closeLevel_eq_thin hopen n
  exact ⟨_, r', hclose, rfl, owned_thin _ n, hdepth, hlevels⟩

/-- Of the texts that carry a mark twice the first go. A facet that was empty before goes, too. -/
theorem closeLevel_removes_first_bearers_page :
    let text (id : String) : Node := (ofKind "text").withId id
    let group (ns : List Node) : Node := ⟨"wrapper", none, .wrapper, [], ns, []⟩
    let page (children : List Node) (facets : List (String × Node)) : Node :=
      ⟨"page", some "P", .component, [("lang", "en")], children, facets⟩
    let n := page [text "X", ofKind "script", text "X", text "P"]
      [("a", group [text "X", text "Z"]), ("b", text "Y"), ("c", group []), ("d", group [text "Y"])]
    let r := ([.begin (text "A"), .begin (text "B"), .begin n,
      .reaffirm (text "Z")] : List Call).foldl after new
    0 < r.depth ∧ ∃ r', r.closeLevel n =
        (.ok ["X", "Y"], page [ofKind "script", text "X", text "P"]
          [("a", group [text "X", text "Z"]), ("d", group [text "Y"])], r') ∧
      r'.depth = 2 ∧ r'.levels.drop 1 = r.levels.drop 2 := by
  intro text group page n r
  have hopen : 0 < r.depth := by decide
  have hstale : r.stale n = ["X", "Y"] := by decide
  obtain ⟨n', r', hclose, rfl, -, hdepth, hlevels⟩ := closeLevel_removes_first_bearers hopen n
  have hremoved : creationIds (select (FirstBearer ["X", "Y"] n.owned) 0 n.owned) = ["X", "Y"] := by
    decide
  have hthin : n.thin (FirstBearer ["X", "Y"] n.owned) =
      page [ofKind "script", text "X", text "P"]
        [("a", group [text "X", text "Z"]), ("d", group [text "Y"])] := by
    decide
  rw [hstale, hremoved, hthin] at hclose
  have hthree : r.depth = 2 + 1 := by decide
  exact ⟨hopen, r', hclose, Nat.succ.inj (hdepth.trans hthree), hlevels⟩

end Reconciler

end ViewState
