import ViewState.Proofs.Reconciler.Pass
import ViewState.Proofs.Reconciler.Rebuild

/-!
Which levels a re-affirmed node survives. It outlives the closing of the innermost level, of the one
around it, and of every level that did not mark it or is opened later. Levels further out keep their
marks, whatever is done two levels inside them, and one that still has the mark when it is closed
takes a node that carries it, with all that stands inside.
-/
namespace ViewState

namespace Node

theorem exists_creationId_of_mem_select {ids : List String} {walk : List Node} {n : Node}
    (hn : n ∈ select (FirstBearer ids walk) 0 walk) : ∃ id, n.creationId = some id := by
  obtain ⟨⟨m, i⟩, hmem, rfl⟩ := List.mem_map.1 hn
  obtain ⟨hplace, hfirst⟩ := List.mem_filter.1 hmem
  obtain ⟨id, -, hid, -⟩ := of_decide_eq_true hfirst
  rw [List.mem_zipIdx_iff_getElem?] at hplace
  rw [hplace] at hid
  exact ⟨id, hid⟩

theorem map_creationId {ns : List Node} (h : ∀ n ∈ ns, ∃ id, n.creationId = some id) :
    ns.map creationId = (creationIds ns).map some := by
  induction ns with
  | nil => rfl
  | cons n ns ih =>
    obtain ⟨⟨id, hid⟩, hrest⟩ := List.forall_mem_cons.1 h
    rw [List.map_cons, ih hrest, creationIds_cons, hid]
    rfl

/-- A node loses some of its owned nodes whole, with all that stands inside of them. -/
structure Loses (n n' : Node) (removed : List String) (gone : List Node) : Prop where
  creationId : gone.map creationId = removed.map some
  owned : n.owned.Perm (n'.owned ++ gone)
  inside : (n.owned.flatMap ids).Perm (n'.owned.flatMap ids ++ gone.flatMap ids)

theorem loses_thin (marked : List String) (n : Node) :
    let gone := select (FirstBearer marked n.owned) 0 n.owned
    n.Loses (n.thin (FirstBearer marked n.owned)) (creationIds gone) gone := by
  intro gone
  have howned : n.owned.Perm ((n.thin (FirstBearer marked n.owned)).owned ++ gone) := by
    rw [owned_thin]
    exact select_perm _ 0 n.owned
  refine ⟨map_creationId fun m hm => exists_creationId_of_mem_select hm, howned, ?_⟩
  rw [← List.flatMap_append]
  exact howned.flatMap_right ids

end Node

namespace Reconciler

open Node

/-- Each of some calls is made while the level with `k` levels around it is open, and at least `j`
levels inside it. -/
def Inside (k j : Nat) : Reconciler → List Call → Prop
  | _, [] => True
  | r, c :: calls => k + j < r.depth ∧ Inside k j (r.after c) calls

instance decidableInside (k j : Nat) (r : Reconciler) : ∀ calls, Decidable (Inside k j r calls)
  | [] => isTrue trivial
  | c :: calls =>
    have := decidableInside k j (r.after c) calls
    inferInstanceAs (Decidable (k + j < r.depth ∧ Inside k j (r.after c) calls))

variable {r : Reconciler} {id : String} {k : Nat}

theorem levels_openLevel (r : Reconciler) : ∃ level, r.openLevel.levels = level :: r.levels := by
  unfold openLevel
  split <;> exact ⟨_, rfl⟩

theorem isMarked_eq_marksAt (hdepth : r.depth = k + 1) (id : String) :
    r.isMarked id = marksAt r.levels id k := by
  obtain ⟨level, outer, hlevels⟩ := List.exists_cons_of_length_eq_add_one hdepth
  have hlength : k = outer.length := by
    rw [depth, hlevels, List.length_cons] at hdepth
    omega
  rw [hlevels, marksAt_cons, if_pos hlength, isMarked, level?, hlevels]
  rfl

theorem marksAt_tail {levels : List Level} (hk : k + 1 < levels.length) (id : String) :
    marksAt levels.tail id k = marksAt levels id k := by
  cases levels with
  | nil => rfl
  | cons level outer =>
    rw [List.length_cons] at hk
    rw [List.tail_cons, marksAt_cons, if_neg (by omega)]

theorem marksAt_strip {ids : List String} {levels : List Level} (hk : k + 1 < levels.length)
    (hid : k + 2 < levels.length ∨ id ∉ ids) :
    marksAt (strip ids levels) id k = marksAt levels id k := by
  rcases levels with _ | ⟨level, _ | ⟨next, outer⟩⟩
  · rfl
  · rw [List.length_singleton] at hk
    omega
  · rw [List.length_cons, List.length_cons] at hk hid
    have hinner : k ≠ outer.length + 1 := by omega
    simp only [strip, marksAt_cons, List.length_cons, if_neg hinner]
    split
    · have hnot : id ∉ ids := hid.resolve_left (by omega)
      rw [Bool.eq_iff_iff, SortedMap.contains_eraseAll]
      exact and_iff_right hnot
    · rfl

theorem marksAt_takeMark {levels : List Level} (hk : k + 1 < levels.length)
    (hid : k + 2 < levels.length ∨ ¬ (innermost levels).contains id) (id' : String) :
    marksAt (takeMark levels id').2 id k = marksAt levels id k := by
  rw [takeMark_eq_strip]
  refine marksAt_strip hk (hid.imp_right fun hunmarked hmem => hunmarked ?_)
  rw [fst_takeMark_eq] at hmem
  split at hmem
  · next hmarked => rwa [List.mem_singleton.1 hmem]
  · cases hmem

theorem marksAt_openLevel_outside (hk : k < r.depth) (id : String) :
    marksAt r.openLevel.levels id k = marksAt r.levels id k := by
  obtain ⟨level, hlevels⟩ := levels_openLevel r
  rw [hlevels, marksAt_cons]
  exact if_neg (Nat.ne_of_lt hk)

theorem marksAt_mark_outside (hk : k + 1 < r.depth) (id : String) (n : Node) :
    marksAt (r.mark n).2.levels id k = marksAt r.levels id k := by
  obtain ⟨level, outer, hlevels⟩ :=
    List.exists_cons_of_ne_nil (List.ne_nil_of_length_pos (Nat.zero_lt_of_lt hk))
  have hinner : k ≠ outer.length := by
    rw [depth, hlevels, List.length_cons] at hk
    omega
  simp only [mark, hlevels, marksAt_cons, if_neg hinner]

theorem marksAt_closeLevel_outside (hk : k + 1 < r.depth)
    (hid : k + 2 < r.depth ∨ ¬ r.isMarked id) (n : Node) :
    marksAt (r.closeLevel n).2.2.levels id k = marksAt r.levels id k := by
  have hopen : r.levels ≠ [] := List.ne_nil_of_length_pos (Nat.zero_lt_of_lt hk)
  obtain ⟨removed, n', r', hclose, hlevels⟩ := levels_closeLevel hopen n
  have hremoved : k + 2 < r.depth ∨ id ∉ removed := by
    refine Decidable.or_iff_not_imp_left.2 fun hnear => ?_
    have hdepth : r.depth = (k + 1) + 1 := by omega
    have hunmarked := hid.resolve_left hnear
    rw [isMarked_eq_marksAt hdepth] at hunmarked
    obtain ⟨removed', n'', r'', hclose', hnot, -⟩ := bearers_closeLevel hdepth hunmarked n
    cases hclose.symm.trans hclose'
    exact hnot
  have hlength : (takeMark r.levels n.ownId).2.length = r.depth :=
    (Fades.takeMark r.levels n.ownId).length_eq
  rw [← hlength] at hk hremoved
  rw [hclose, hlevels, marksAt_tail (by rwa [length_strip]), marksAt_strip hk hremoved]
  rw [hlength] at hk
  exact marksAt_takeMark hk hid n.ownId

/-- A call changes the marks of no level but the innermost and the one around it, and there it takes
only marks that the innermost has, too. -/
theorem marksAt_after_outside (hk : k + 1 < r.depth) (hid : k + 2 < r.depth ∨ ¬ r.isMarked id)
    (c : Call) : marksAt (r.after c).levels id k = marksAt r.levels id k := by
  cases c with
  | openLevel => exact marksAt_openLevel_outside (Nat.lt_of_succ_lt hk) id
  | begin n =>
    have hinner : k + 1 < r.openLevel.depth := by
      obtain ⟨level, hlevels⟩ := levels_openLevel r
      rw [depth, hlevels]
      exact Nat.lt_succ_of_lt hk
    rw [← marksAt_openLevel_outside (Nat.lt_of_succ_lt hk) id]
    exact marksAt_mark_outside hinner id n
  | mark n => exact marksAt_mark_outside hk id n
  | reaffirm n =>
    have hopen : r.levels ≠ [] := List.ne_nil_of_length_pos (Nat.zero_lt_of_lt hk)
    simp only [after, reaffirm, if_neg (mt List.isEmpty_iff.1 hopen)]
    exact marksAt_takeMark hk hid n.ownId
  | closeLevel n => exact marksAt_closeLevel_outside hk hid n

theorem marksAt_of_inside {calls : List Call} (h : Inside k 2 r calls) (id : String) :
    marksAt (calls.foldl after r).levels id k = marksAt r.levels id k := by
  induction calls generalizing r with
  | nil => rfl
  | cons c calls ih =>
    obtain ⟨hdeep, hrest⟩ := h
    rw [List.foldl_cons, ih hrest, marksAt_after_outside (Nat.lt_of_succ_lt hdeep) (.inl hdeep)]

theorem marksAt_of_shielded (hr : r.Pooled) {calls : List Call}
    (hcalls : ∀ c ∈ calls, id ∉ c.marked) (h : Inside k 1 r calls)
    (hshield : ¬ marksAt r.levels id (k + 1)) :
    marksAt (calls.foldl after r).levels id k = marksAt r.levels id k := by
  induction calls generalizing r with
  | nil => rfl
  | cons c calls ih =>
    obtain ⟨hdeep, hrest⟩ := h
    obtain ⟨hc, hcalls⟩ := List.forall_mem_cons.1 hcalls
    have hid : k + 2 < r.depth ∨ ¬ r.isMarked id := by
      refine Decidable.or_iff_not_imp_left.2 fun hnear => ?_
      have hdepth : r.depth = (k + 1) + 1 := by omega
      rwa [isMarked_eq_marksAt hdepth]
    rw [List.foldl_cons, ih (hr.after c) hcalls hrest (marksAt_after hr hc hshield),
      marksAt_after_outside hdeep hid]

theorem marksAt_of_reopened (hr : r.Pooled) {calls : List Call}
    (hcalls : ∀ c ∈ calls, id ∉ c.marked) (h : ¬ Inside k 0 r calls) :
    ¬ marksAt (calls.foldl after r).levels id k := by
  induction calls generalizing r with
  | nil => exact absurd trivial h
  | cons c calls ih =>
    by_cases hopen : k < r.depth
    · exact ih (hr.after c) (List.forall_mem_cons.1 hcalls).2 fun hrest => h ⟨hopen, hrest⟩
    · have hunmarked : ¬ marksAt r.levels id k := by
        rw [marksAt_of_le (Nat.le_of_not_lt hopen)]
        exact Bool.false_ne_true
      exact marksAt_run hr hcalls hunmarked

/-- Closing a level with a node takes of each mark one node that carries it, if there is any. -/
theorem closeLevel_loses (hdepth : r.depth = k + 1) (n : Node) :
    ∃ removed n' r' gone, r.closeLevel n = (.ok removed, n', r') ∧
      (∀ id, id ∈ removed ↔ marksAt r.levels id k ∧ id ≠ n.ownId ∧ id ∈ creationIds n.owned) ∧
      n.Loses n' removed gone := by
  have hopen : 0 < r.depth := Nat.lt_of_lt_of_eq (Nat.succ_pos k) hdepth.symm
  obtain ⟨r', hclose, -⟩ := closeLevel_eq_thin hopen n
  refine ⟨_, _, r', _, hclose, fun id => ?_, loses_thin (r.stale n) n⟩
  have hmarked : (innermost r.levels).contains id = marksAt r.levels id k :=
    isMarked_eq_marksAt hdepth id
  rw [mem_creationIds_firstBearer, mem_stale, hmarked, and_assoc]
  exact and_left_comm

/-- Re-affirming a marked node succeeds. The marks of levels further out than the next stay as they
are while two levels inside are open. With whatever node the innermost level, the one around it, one
that did not mark the node or one that is opened later is closed, the node keeps its place, as long
as it is not marked again. Until then a level further out also keeps the mark of the node while one
level inside is open, if that is the next one or did not mark the node. A level that has the mark
when it is closed takes an owned node that carries it, whole, with the nodes inside. -/
theorem survives_closing (hr : r.Reachable) {m : Node} (hm : m.ownId = id)
    (hmarked : r.isMarked id) :
    ∃ r', r.reaffirm m = (.ok true, r') ∧
      (∀ later k, k + 2 < r.depth → Inside k 2 r' later → ∀ id',
        marksAt (later.foldl after r').levels id' k = marksAt r.levels id' k) ∧
      ∀ later : List Call, (∀ c ∈ later, id ∉ c.marked) →
        (∀ k, k + 3 = r.depth ∨ k + 2 < r.depth ∧ ¬ marksAt r.levels id (k + 1) →
          Inside k 1 r' later →
            marksAt (later.foldl after r').levels id k = marksAt r.levels id k) ∧
        ∀ k, (later.foldl after r').depth = k + 1 → ∀ n : Node,
          ∃ removed n' r'' gone, (later.foldl after r').closeLevel n = (.ok removed, n', r'') ∧
            (r.depth ≤ k + 2 ∨ ¬ marksAt r.levels id k ∨ ¬ Inside k 0 r' later →
              id ∉ removed ∧ n'.bearers id = n.bearers id) ∧
            (id ∈ removed ↔ marksAt (later.foldl after r').levels id k ∧ id ≠ n.ownId ∧
              id ∈ creationIds n.owned) ∧
            n.Loses n' removed gone := by
  subst hm
  have hok : (r.reaffirm m).1 = .ok true := by
    obtain ⟨level, outer, -, heq⟩ := reaffirm_eq hmarked
    rw [heq]
  have hpooled : (r.reaffirm m).2.Pooled := hr.pooled.after (.reaffirm m)
  have houter (k : Nat) (hk : k + 2 < r.depth) (id' : String) :
      marksAt (r.reaffirm m).2.levels id' k = marksAt r.levels id' k :=
    marksAt_after_outside (Nat.lt_of_succ_lt hk) (.inl hk) (.reaffirm m)
  refine ⟨(r.reaffirm m).2, Prod.ext hok rfl, ?_, fun later hlater => ⟨?_, ?_⟩⟩
  · intro later k hk hinside id'
    rw [marksAt_of_inside hinside, houter k hk]
  · intro k hk hinside
    have hnext : ¬ marksAt (r.reaffirm m).2.levels m.ownId (k + 1) :=
      marksAt_reaffirm hmarked (hk.imp (fun hk => by omega) And.right)
    rw [marksAt_of_shielded hpooled hlater hinside hnext, houter k (by omega)]
  · intro k hdepth n
    obtain ⟨removed, n', last, gone, hclose, hremoved, hloses⟩ := closeLevel_loses hdepth n
    refine ⟨removed, n', last, gone, hclose, fun hk => ?_, hremoved m.ownId, hloses⟩
    have hunmarked : ¬ marksAt (later.foldl after (r.reaffirm m).2).levels m.ownId k := by
      rw [← or_assoc] at hk
      rcases hk with hk | hreopened
      · exact marksAt_run hpooled hlater (marksAt_reaffirm hmarked hk)
      · exact marksAt_of_reopened hpooled hlater hreopened
    obtain ⟨removed', n'', last', hclose', hkept⟩ := bearers_closeLevel hdepth hunmarked n
    cases hclose.symm.trans hclose'
    exact hkept

/-- Three levels mark a text that is re-affirmed on the innermost one. It survives the closing of
the second level, and of one that is opened after all are closed. The outermost level keeps the
mark, and when it is closed the text goes with the note inside. -/
theorem survives_closing_three_levels :
    let text : Node := ((ofKind "text").withId "text").withChild ((ofKind "note").withId "note")
    let part (id : String) : Node := ((ofKind "part").withId id).withChild text
    let r := ([.begin (part "a"), .begin (part "b"), .begin (part "c")] : List Call).foldl after new
    let one : List Call := [.closeLevel (part "c")]
    let two : List Call := one ++ [.closeLevel (part "b")]
    let reopened : List Call := two ++ [.closeLevel (part "a"), .openLevel]
    r.Reachable ∧ r.isMarked "text" ∧ (∀ c ∈ reopened, "text" ∉ c.marked) ∧
      ∃ r', r.reaffirm text = (.ok true, r') ∧
        (∀ id, marksAt (one.foldl after r').levels id 0 = marksAt r.levels id 0) ∧
        (∃ removed n' r'', (one.foldl after r').closeLevel (part "b") = (.ok removed, n', r'') ∧
          "text" ∉ removed ∧ n'.bearers "text" = [(.child, text)]) ∧
        marksAt (two.foldl after r').levels "text" 0 ∧
        (∃ removed n' r'', (two.foldl after r').closeLevel (part "a") = (.ok removed, n', r'') ∧
          "text" ∈ removed ∧ (part "a").Loses n' removed [text] ∧ n'.owned = []) ∧
        ∃ removed n' r'', (reopened.foldl after r').closeLevel (part "a") = (.ok removed, n', r'') ∧
          "text" ∉ removed ∧ n'.bearers "text" = [(.child, text)] := by
  intro text part r one two reopened
  have hr : r.Reachable := ⟨_, rfl⟩
  have hmarked : r.isMarked "text" := by decide
  have hlater : ∀ c ∈ reopened, "text" ∉ c.marked := by decide
  have htwo : ∀ c ∈ two, "text" ∉ c.marked := by decide
  have hone : ∀ c ∈ one, "text" ∉ c.marked := by decide
  obtain ⟨r', heq, hfar, hlevels⟩ :=
    survives_closing hr (show text.ownId = "text" from rfl) hmarked
  refine ⟨hr, hmarked, hlater, r', heq, ?_⟩
  obtain rfl : (r.reaffirm text).2 = r' := congrArg Prod.snd heq
  have hkept : marksAt (two.foldl after (r.reaffirm text).2).levels "text" 0 := by
    rw [(hlevels two htwo).1 0 (.inl rfl) (by decide)]
    decide
  obtain ⟨removed₁, n₁, r₁, -, hclose₁, hstays₁, -⟩ :=
    (hlevels one hone).2 1 (by decide) (part "b")
  obtain ⟨removed₀, n₀, r₀, gone, hclose₀, -, hremoved, hloses⟩ :=
    (hlevels two htwo).2 0 (by decide) (part "a")
  obtain ⟨removed, n', r', -, hclose, hstays, -⟩ :=
    (hlevels reopened hlater).2 0 (by decide) (part "a")
  have htext : "text" ∈ removed₀ := hremoved.2 ⟨hkept, by decide⟩
  refine ⟨hfar one 0 (by decide) (by decide), ⟨removed₁, n₁, r₁, hclose₁, hstays₁ (by decide)⟩,
    hkept, ⟨removed₀, n₀, r₀, hclose₀, htext, ?_⟩, removed, n', r', hclose, hstays (by decide)⟩
  -- the part owns only the text, and something was taken
  have howned : [text].Perm (n₀.owned ++ gone) := hloses.owned
  have hlength := howned.length_eq
  have hgone := congrArg List.length hloses.creationId
  have hpos := List.length_pos_of_mem htext
  rw [List.length_append, List.length_singleton] at hlength
  rw [List.length_map, List.length_map] at hgone
  have hempty : n₀.owned = [] := List.eq_nil_of_length_eq_zero (by omega)
  rw [hempty, List.nil_append, List.singleton_perm] at howned
  rw [howned]
  exact ⟨hloses, hempty⟩

/-- A node that three levels mark is re-affirmed on the innermost and removed all the same when the
outermost is closed. And one that stands inside a node that is not re-affirmed goes with it. -/
theorem lost_on_closing_third :
    let text : Node := (ofKind "text").withId "text"
    let part (id : String) : Node := ((ofKind "part").withId id).withChild text
    let r := ([.begin (part "a"), .begin (part "b"), .begin (part "c")] : List Call).foldl after new
    let later : List Call := [.closeLevel (part "c"), .closeLevel (part "b")]
    let page : Node := ((ofKind "page").withChild (part "d")).withChild text
    let r' := (new.begin page).2
    (r.Reachable ∧ r.isMarked "text" ∧ (∀ c ∈ later, "text" ∉ c.marked) ∧
      (r.reaffirm text).1.toOption = some true ∧
      ((later.foldl after (r.reaffirm text).2).closeLevel (part "a")).1.toOption = some ["text"]) ∧
    r'.Reachable ∧ r'.isMarked "text" ∧ (r'.reaffirm text).1.toOption = some true ∧
      ((r'.reaffirm text).2.closeLevel page).1.toOption = some ["d"] ∧
      creationIds ((r'.reaffirm text).2.closeLevel page).2.1.children = ["text"] := by
  intro text part r later page r'
  exact ⟨⟨⟨_, rfl⟩, by decide⟩, ⟨[.begin page], rfl⟩, by decide⟩

end Reconciler

end ViewState
