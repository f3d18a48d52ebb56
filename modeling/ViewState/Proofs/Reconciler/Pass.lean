import ViewState.Proofs.Reconciler.Pruning

/-!
A whole pass over one node: its marks are made, some nodes are re-affirmed and the level is closed.
Each identifier that is neither re-affirmed nor the node's own loses its first bearer, so a pass is
complete, and a second one changes nothing, exactly if no such identifier has two bearers.
-/
namespace ViewState

namespace Node

theorem count_select (p : Nat → Prop) [DecidablePred p] (start : Nat) (ns : List Node)
    (id : String) :
    (creationIds ns).count id = (creationIds (select p start ns)).count id +
      (creationIds (select (¬ p ·) start ns)).count id := by
  have hperm := (select_perm p start ns).filterMap creationId
  rw [creationIds, hperm.count_eq, List.filterMap_append, List.count_append, Nat.add_comm]
  rfl

/-- Of the bearers of an identifier one is the first. -/
theorem count_firstBearer (ids : List String) (walk : List Node) (id : String) :
    (creationIds (select (FirstBearer ids walk) 0 walk)).count id =
      if id ∈ ids ∧ id ∈ creationIds walk then 1 else 0 := by
  suffices hpart : ∀ before ns, walk = before ++ ns →
      (creationIds (select (FirstBearer ids walk) before.length ns)).count id =
        if id ∈ ids ∧ id ∉ creationIds before ∧ id ∈ creationIds ns then 1 else 0 by
    simpa using hpart [] walk rfl
  intro before ns hwalk
  induction ns generalizing before with
  | nil => simp
  | cons n ns ih =>
    have hrest := ih (before ++ [n]) (by simp [hwalk])
    rw [List.length_append, List.length_singleton] at hrest
    rw [select_cons, creationIds_append, List.count_append, hrest]
    cases hid : n.creationId with
    | none =>
      have hnot : ¬ FirstBearer ids walk before.length := hwalk ▸ not_firstBearer hid
      simp [hnot, creationIds_cons, hid]
    | some id' =>
      have hfirst : FirstBearer ids walk before.length ↔ id' ∈ ids ∧ id' ∉ creationIds before :=
        hwalk ▸ firstBearer_iff hid
      by_cases heq : id' = id
      · subst heq
        by_cases hmem : id' ∈ ids ∧ id' ∉ creationIds before <;>
          simp [hfirst, hmem, creationIds_cons, hid]
      · by_cases hmem : id' ∈ ids ∧ id' ∉ creationIds before <;>
          simp [hfirst, hmem, creationIds_cons, hid, heq, Ne.symm heq]

theorem mem_creationIds_firstBearer {ids : List String} {walk : List Node} {id : String} :
    id ∈ creationIds (select (FirstBearer ids walk) 0 walk) ↔ id ∈ ids ∧ id ∈ creationIds walk := by
  rw [← List.count_pos_iff, count_firstBearer]
  split <;> simp [*]

theorem select_of_forall {p : Nat → Prop} [DecidablePred p] (h : ∀ i, p i) (start : Nat)
    (ns : List Node) : select p start ns = ns := by
  induction ns generalizing start with
  | nil => rfl
  | cons n ns ih => rw [select_cons, if_pos (h start), ih, List.singleton_append]

section

variable {gone gone' : Nat → Prop} [DecidablePred gone] [DecidablePred gone']

theorem thinFacet_thinFacet (hnone : ∀ i, ¬ gone' i) {start : Nat} {facet facet' : Node}
    (h : thinFacet gone start facet = some facet') (start' : Nat) :
    thinFacet gone' start' facet' = some facet' := by
  unfold thinFacet at h
  split at h
  · next hid =>
    split at h
    · cases h
    · cases h
      rw [thinFacet, if_pos hid, if_neg (hnone start')]
  · next hid =>
    split at h
    · next hwrap =>
      dsimp only at h
      split at h
      · cases h
      · next hempty =>
        cases h
        have hrole : Node.isWrapper
            { facet with children := select (¬ gone ·) start facet.children } = true := hwrap
        rw [thinFacet, if_neg hid, if_pos hrole]
        simp only [select_of_forall hnone, hempty]
        rfl
    · next hwrap =>
      cases h
      rw [thinFacet, if_neg hid, if_neg hwrap]

/-- A node from which nodes were taken has no childless groups left, so it stays as it is when no
other node goes. -/
theorem thin_thin (hnone : ∀ i, ¬ gone' i) (n : Node) : (n.thin gone).thin gone' = n.thin gone := by
  have hfacets (start start' : Nat) (fs : List (String × Node)) :
      thinFacets gone' start' (thinFacets gone start fs) = thinFacets gone start fs := by
    induction fs generalizing start start' with
    | nil => rfl
    | cons f fs ih =>
      obtain ⟨name, facet⟩ := f
      rw [thinFacets]
      cases hfacet : thinFacet gone start facet with
      | none => exact ih _ _
      | some facet' =>
        rw [Option.toList_some, List.map_singleton, List.singleton_append, thinFacets,
          thinFacet_thinFacet hnone hfacet, ih]
        rfl
  unfold thin
  rw [hfacets, select_of_forall hnone]

end

end Node

namespace Reconciler

open Node

def reaffirmEach : List Node → Reconciler → Except Failure Reconciler
  | [], r => return r
  | m :: ms, r => do
    let (marked, r) := r.reaffirm m
    let _ ← marked
    reaffirmEach ms r

/-- Makes the marks of a node on a new level, re-affirms some nodes and closes the level. Gives the
identifiers of the nodes removed, and the node as it is then. -/
def pass (r : Reconciler) (kept : List Node) (n : Node) :
    Except Failure (List String × Node × Reconciler) := do
  let (begun, r) := r.begin n
  begun
  let r ← reaffirmEach kept r
  let (closed, n, r) := r.closeLevel n
  return (← closed, n, r)

def passCalls (kept : List Node) (n : Node) : List Call :=
  .begin n :: kept.map .reaffirm ++ [.closeLevel n]

theorem Reachable.run {r : Reconciler} (h : r.Reachable) (calls : List Call) :
    (calls.foldl after r).Reachable := by
  obtain ⟨earlier, rfl⟩ := h
  exact ⟨earlier ++ calls, List.foldl_append⟩

/-- Re-affirming takes marks from the only level there is. -/
theorem reaffirmEach_eq {r : Reconciler} {level : Level} (hr : r.levels = [level])
    (kept : List Node) :
    reaffirmEach kept r = .ok ((kept.map Call.reaffirm).foldl after r) ∧
      ((kept.map Call.reaffirm).foldl after r).levels = [level.eraseAll (kept.map ownId)] := by
  induction kept generalizing r level with
  | nil => exact ⟨rfl, hr⟩
  | cons m ms ih =>
    have hreaffirm : r.reaffirm m =
        (.ok (level.contains m.ownId), { r with levels := [level.erase m.ownId] }) := by
      have htake : takeMark [level] m.ownId = (level.contains m.ownId, [level.erase m.ownId]) :=
        takeMark_of_outside fun _ hlevel => by cases hlevel
      simp only [reaffirm, hr, List.isEmpty_cons, Bool.false_eq_true, if_false, htake]
    have hafter : r.after (.reaffirm m) = { r with levels := [level.erase m.ownId] } :=
      congrArg Prod.snd hreaffirm
    obtain ⟨hrest, hlevels⟩ := ih (r := r.after (.reaffirm m)) (congrArg levels hafter)
    rw [List.map_cons, List.foldl_cons]
    refine ⟨?_, hlevels⟩
    rw [← hrest, hafter, reaffirmEach, hreaffirm]
    rfl

theorem pass_eq_thin {r : Reconciler} (hr : r.Pooled) (hidle : r.levels = []) (kept : List Node)
    (n : Node) :
    ∃ ids : List String,
      r.pass kept n = .ok (creationIds (select (FirstBearer ids n.owned) 0 n.owned),
        n.thin (FirstBearer ids n.owned), (passCalls kept n).foldl after r) ∧
      ((passCalls kept n).foldl after r).depth = 0 ∧
      ∀ id, id ∈ ids ↔ id ∈ creationIds n.owned ∧ id ∉ n.ownId :: kept.map ownId := by
  have hbegin := begin_eq hr n
  rw [hidle] at hbegin
  have hbegun : (r.after (.begin n)).levels = [n.level] := by
    rw [after, hbegin]
  obtain ⟨hkept, hlevels⟩ := reaffirmEach_eq hbegun kept
  generalize hmid : (kept.map Call.reaffirm).foldl after (r.after (.begin n)) = mid at hkept hlevels
  have hopen : mid.depth = 1 := by rw [depth, hlevels, List.length_singleton]
  obtain ⟨r', hclose, hdepth, -⟩ := closeLevel_eq_thin (hopen ▸ Nat.zero_lt_one) n
  have hend : (passCalls kept n).foldl after r = r' := by
    rw [passCalls, List.cons_append, List.foldl_cons, List.foldl_append, hmid]
    exact congrArg (fun result => result.2.2) hclose
  refine ⟨mid.stale n, ?_, ?_, fun id => ?_⟩
  · rw [hend, pass, hbegin]
    rw [after, hbegin] at hkept
    show (reaffirmEach kept _ >>= _) = _
    rw [hkept]
    show (do
      let (closed, n, r) := mid.closeLevel n
      return (← closed, n, r)) = _
    rw [hclose]
    rfl
  · rw [hend]
    omega
  · have hinnermost : innermost mid.levels = n.level.eraseAll (kept.map ownId) := by
      rw [hlevels]
      rfl
    rw [mem_stale, hinnermost, SortedMap.contains_eraseAll, contains_level, List.mem_cons, not_or]
    constructor
    · rintro ⟨hne, hnot, hown | hmem⟩
      · exact absurd hown hne
      · exact ⟨hmem, hne, hnot⟩
    · rintro ⟨hmem, hne, hnot⟩
      exact ⟨hne, hnot, .inr hmem⟩

/-- What a pass leaves is one bearer less of each identifier that it does not spare. -/
theorem count_left (kept : List Node) (n : Node) {ids : List String}
    (hids : ∀ id, id ∈ ids ↔ id ∈ creationIds n.owned ∧ id ∉ n.ownId :: kept.map ownId)
    (id : String) :
    (creationIds (n.thin (FirstBearer ids n.owned)).owned).count id =
      (creationIds n.owned).count id - if id ∈ n.ownId :: kept.map ownId then 0 else 1 := by
  have hsplit := count_select (FirstBearer ids n.owned) 0 n.owned id
  rw [count_firstBearer] at hsplit
  rw [owned_thin]
  by_cases hspared : id ∈ n.ownId :: kept.map ownId
  · rw [if_neg fun h => ((hids id).1 h.1).2 hspared] at hsplit
    rw [if_pos hspared]
    omega
  · by_cases hmem : id ∈ creationIds n.owned
    · rw [if_pos ⟨(hids id).2 ⟨hmem, hspared⟩, hmem⟩] at hsplit
      rw [if_neg hspared]
      omega
    · rw [List.count_eq_zero.2 hmem] at hsplit ⊢
      omega

theorem unchanged_iff {gone : Nat → Prop} [DecidablePred gone] (n : Node) {ids spared : List String}
    (hids : ∀ id, id ∈ ids ↔ id ∈ creationIds (n.thin gone).owned ∧ id ∉ spared) :
    (creationIds (select (FirstBearer ids (n.thin gone).owned) 0 (n.thin gone).owned) = [] ∧
        (n.thin gone).thin (FirstBearer ids (n.thin gone).owned) = n.thin gone) ↔
      ∀ id ∈ creationIds (n.thin gone).owned, id ∈ spared := by
  constructor
  · rintro ⟨hremoved, -⟩ id hid
    refine Decidable.byContradiction fun hspared => ?_
    have hgone := mem_creationIds_firstBearer.2 ⟨(hids id).2 ⟨hid, hspared⟩, hid⟩
    rw [hremoved] at hgone
    cases hgone
  · intro hall
    have hnone (id : String) : id ∉ ids := fun hid =>
      ((hids id).1 hid).2 (hall id ((hids id).1 hid).1)
    refine ⟨List.eq_nil_iff_forall_not_mem.2 fun id hid => ?_, ?_⟩
    · exact hnone id (mem_creationIds_firstBearer.1 hid).1
    · apply thin_thin
      rintro i ⟨id, hid, -⟩
      exact hnone id hid

/-- A pass always ends well. It takes the first bearer of each identifier that it does not spare; so
no such identifier is left, and another pass removes nothing and changes nothing, exactly if none of
them had two bearers. -/
theorem pass_complete_iff {r again : Reconciler} (hr : r.Reachable) (hidle : r.depth = 0)
    (hagain : again.Reachable) (hidle' : again.depth = 0) (kept : List Node) (n : Node) :
    let spared := n.ownId :: kept.map ownId
    let single := ∀ id, id ∉ spared → (creationIds n.owned).count id ≤ 1
    ∃ removed n' r', r.pass kept n = .ok (removed, n', r') ∧ r'.Reachable ∧ r'.depth = 0 ∧
      (∀ id, (creationIds n'.owned).count id =
        (creationIds n.owned).count id - if id ∈ spared then 0 else 1) ∧
      ((∀ id ∈ creationIds n'.owned, id ∈ spared) ↔ single) ∧
      ∃ removed' n'' r'', again.pass kept n' = .ok (removed', n'', r'') ∧
        (removed' = [] ∧ n'' = n' ↔ single) := by
  intro spared single
  obtain ⟨ids, hpass, hclosed, hids⟩ :=
    pass_eq_thin hr.pooled (List.eq_nil_of_length_eq_zero hidle) kept n
  have hcount := count_left kept n hids
  generalize hn' : n.thin (FirstBearer ids n.owned) = n' at hpass hcount
  obtain ⟨ids', hpass', -, hids'⟩ :=
    pass_eq_thin hagain.pooled (List.eq_nil_of_length_eq_zero hidle') kept n'
  have hown : n'.ownId = n.ownId := hn' ▸ rfl
  have hcomplete : (∀ id ∈ creationIds n'.owned, id ∈ spared) ↔ single := by
    refine forall_congr' fun id => ?_
    rw [← List.count_pos_iff, hcount id]
    by_cases hspared : id ∈ spared
    · simp [hspared]
    · rw [if_neg hspared]
      simp only [hspared, imp_false, not_false_eq_true, true_imp_iff]
      omega
  rw [hown] at hids'
  have hunchanged := unchanged_iff n (hn' ▸ hids')
  rw [hn'] at hunchanged
  exact ⟨_, n', _, hpass, hr.run _, hclosed, hcount, hcomplete, _, _, _, hpass',
    hunchanged.trans hcomplete⟩

/-- The form's own identifier and one that is re-affirmed are carried twice and spared, and one that
is not spared is carried by one node. The same reconciler makes the second pass. -/
theorem pass_complete_iff_form :
    let text (id : String) : Node := (ofKind "text").withId id
    let group (ns : List Node) : Node := ⟨"wrapper", none, .wrapper, [], ns, []⟩
    let form : Node := ⟨"form", some "F", .component, [], [text "F", text "X", text "Y"],
      [("foot", group [text "F", text "X"]), ("head", group [])]⟩
    let again := (passCalls [text "X"] form).foldl after new
    (new.Reachable ∧ new.depth = 0) ∧ (again.Reachable ∧ again.depth = 0) ∧
    ∃ removed n' r', new.pass [text "X"] form = .ok (removed, n', r') ∧
      (∀ id ∈ creationIds n'.owned, id ∈ ["F", "X"]) ∧
      ∃ removed' n'' r'', again.pass [text "X"] n' = .ok (removed', n'', r'') ∧
        removed' = [] ∧ n'' = n' := by
  intro text group form again
  have hnew : new.Reachable := ⟨[], rfl⟩
  have hagain : again.Reachable ∧ again.depth = 0 := ⟨⟨_, rfl⟩, by decide⟩
  have hsingle (id : String) (hspared : id ∉ ["F", "X"]) :
      (creationIds form.owned).count id ≤ 1 := by
    have hids : creationIds form.owned = ["F", "X", "Y", "F", "X"] := by decide
    have hF : "F" ≠ id := fun h => hspared (h ▸ by decide)
    have hX : "X" ≠ id := fun h => hspared (h ▸ by decide)
    rw [hids, List.count_cons_of_ne hF, List.count_cons_of_ne hX, List.count_cons,
      List.count_cons_of_ne hF, List.count_cons_of_ne hX, List.count_nil]
    split <;> decide
  obtain ⟨removed, n', r', hpass, -, -, -, hcomplete, removed', n'', r'', hpass', hagain'⟩ :=
    pass_complete_iff hnew rfl hagain.1 hagain.2 [text "X"] form
  exact ⟨⟨hnew, rfl⟩, hagain, removed, n', r', hpass, hcomplete.2 hsingle, removed', n'', r'',
    hpass', hagain'.2 hsingle⟩

/-- A form owns two texts with the same identifier, and nobody re-affirms it. The second text is
left by the first pass and removed by the second one. -/
theorem pass_leaves_second_bearer :
    let text : Node := (ofKind "text").withId "X"
    let form (children : List Node) : Node := ⟨"form", some "F", .component, [], children, []⟩
    let outcome (r : Reconciler) (n : Node) := (r.pass [] n).toOption.map fun p => (p.1, p.2.1)
    outcome new (form [text, text]) = some (["X"], form [text]) ∧
      outcome new (form [text]) = some (["X"], form []) := by
  decide

end Reconciler

end ViewState
