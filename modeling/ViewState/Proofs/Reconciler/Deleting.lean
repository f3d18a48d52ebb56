import ViewState.Proofs.Reconciler.Reaffirming

/-!
What the closing of a level does to the marks of the level around it. It takes away the mark of the
node that is closed and the marks of all identifiers whose nodes are removed, and no others. So a
removal counts around as a re-affirmation does: a node there with the same identifier stays.
-/
namespace ViewState.Reconciler

open Node

def strip (ids : List String) : List Level → List Level
  | [] => []
  | [level] => [level.eraseAll ids]
  | level :: next :: outer => level.eraseAll ids :: next.eraseAll ids :: outer

@[simp] theorem strip_nil (levels : List Level) : strip [] levels = levels := by
  rcases levels with _ | ⟨level, _ | ⟨next, outer⟩⟩ <;> rfl

theorem strip_append (ids ids' : List String) (levels : List Level) :
    strip (ids ++ ids') levels = strip ids' (strip ids levels) := by
  rcases levels with _ | ⟨level, _ | ⟨next, outer⟩⟩ <;> simp [strip, SortedMap.eraseAll_append]

theorem takeMark_eq_strip (levels : List Level) (id : String) :
    (takeMark levels id).2 = strip (if (takeMark levels id).1 then [id] else []) levels := by
  cases levels with
  | nil => rfl
  | cons level outer =>
    by_cases hid : level.contains id
    · rw [takeMark_of_contains hid]
      cases outer <;> rfl
    · simp [takeMark, hid]

/-- From one walk to the other the marks of the identifiers counted as removed are taken away, and
no others. -/
def Walk.Strips (w w' : Walk) : Prop := ∃ ids, w' = ⟨strip ids w.levels, w.removed ++ ids⟩

namespace Walk.Strips

theorem refl (w : Walk) : w.Strips w := ⟨[], by simp⟩

theorem trans {w w' w'' : Walk} (h : w.Strips w') (h' : w'.Strips w'') : w.Strips w'' := by
  obtain ⟨ids, rfl⟩ := h
  obtain ⟨ids', rfl⟩ := h'
  exact ⟨ids ++ ids', by simp [strip_append]⟩

end Walk.Strips

theorem Walk.strips_visit (w : Walk) (n : Node) : w.Strips (w.visit n).2 := by
  cases hn : n.creationId with
  | none =>
    rw [visit, hn]
    exact .refl w
  | some id =>
    refine ⟨if (takeMark w.levels id).1 then [id] else [], ?_⟩
    simp only [visit, hn]
    rw [takeMark_eq_strip]
    split <;> simp

theorem levels_closeLevel {r : Reconciler} (hopen : r.levels ≠ []) (n : Node) :
    ∃ removed n' r', r.closeLevel n = (.ok removed, n', r') ∧
      r'.levels = (strip removed (takeMark r.levels n.ownId).2).tail := by
  obtain ⟨removed, hwalk⟩ := Walk.owned_induction Walk.Strips.refl Walk.Strips.trans
    Walk.strips_visit ⟨(takeMark r.levels n.ownId).2, []⟩ n
  rw [closeLevel_of_open hopen]
  simp only [hwalk, List.nil_append]
  exact ⟨removed, _, _, rfl, rfl⟩

theorem fst_takeMark (level : Level) (outer : List Level) (id : String) :
    (takeMark (level :: outer) id).1 = level.contains id := by
  by_cases hid : level.contains id <;> simp [takeMark, hid]

/-- The level around loses the mark of the node that is closed, if that was marked, and the marks of
the nodes removed. -/
theorem marksAt_closeLevel_around {r : Reconciler} {k : Nat} (hdepth : r.depth = k + 2) (n : Node) :
    ∃ removed n' r', r.closeLevel n = (.ok removed, n', r') ∧ r'.depth = k + 1 ∧
      ∀ id, marksAt r'.levels id k ↔
        marksAt r.levels id k ∧ id ∉ removed ∧ ¬ (id = n.ownId ∧ r.isMarked id) := by
  obtain ⟨levels, spare⟩ := r
  obtain ⟨level, next, outer, rfl⟩ : ∃ level next outer, levels = level :: next :: outer := by
    rcases levels with _ | ⟨level, _ | ⟨next, outer⟩⟩
    · cases hdepth
    · cases hdepth
    · exact ⟨level, next, outer, rfl⟩
  obtain rfl : outer.length = k := by simpa [depth] using hdepth
  obtain ⟨removed, n', r', hclose, hlevels⟩ :=
    levels_closeLevel (r := ⟨level :: next :: outer, spare⟩) (List.cons_ne_nil _ _) n
  rw [takeMark_eq_strip, ← strip_append, fst_takeMark] at hlevels
  generalize htaken : (if level.contains n.ownId then [n.ownId] else []) ++ removed = taken
    at hlevels
  replace hlevels : r'.levels = next.eraseAll taken :: outer := hlevels
  have hmem (id : String) : id ∉ taken ↔ id ∉ removed ∧ ¬ (id = n.ownId ∧ level.contains id) := by
    rw [← htaken]
    by_cases hid : id = n.ownId
    · subst hid
      by_cases hown : level.contains n.ownId <;> simp [hown]
    · split <;> simp [hid]
  refine ⟨removed, n', r', hclose, ?_, fun id => ?_⟩
  · rw [depth, hlevels, List.length_cons]
  · have hnext : marksAt (level :: next :: outer) id outer.length = next.contains id := by
      rw [marksAt_cons, if_neg (by simp), marksAt_cons, if_pos rfl]
    rw [hlevels, marksAt_cons, if_pos rfl, SortedMap.contains_eraseAll, hmem, hnext]
    exact and_comm

/-- A node that is removed at the closing of a level is not marked on the level around any more, be
it marked there before or not; all other marks stay there, but for that of the node closed. Whatever
carries the same identifier stays when the level around is closed, unless it is marked again. -/
theorem removal_unmarks_around {r : Reconciler} (hr : r.Reachable) {k : Nat}
    (hdepth : r.depth = k + 2) (n : Node) :
    ∃ removed n' r', r.closeLevel n = (.ok removed, n', r') ∧ r'.depth = k + 1 ∧
      (∀ id, marksAt r'.levels id k ↔
        marksAt r.levels id k ∧ id ∉ removed ∧ ¬ (id = n.ownId ∧ r.isMarked id)) ∧
      ∀ id ∈ removed, ∀ later : List Call, (∀ c ∈ later, id ∉ c.marked) →
        (later.foldl after r').depth = k + 1 → ∀ m : Node,
          ∃ removed' m' r'', (later.foldl after r').closeLevel m = (.ok removed', m', r'') ∧
            id ∉ removed' ∧ m'.bearers id = m.bearers id := by
  obtain ⟨removed, n', r', hclose, hopen, hmarks⟩ := marksAt_closeLevel_around hdepth n
  have hpooled : r'.Pooled := by
    have hafter := hr.pooled.closeLevel n
    rwa [hclose] at hafter
  refine ⟨removed, n', r', hclose, hopen, hmarks, ?_⟩
  intro id hid later hlater hlevel m
  have hunmarked : ¬ marksAt r'.levels id k := fun hmark => ((hmarks id).1 hmark).2.1 hid
  exact bearers_closeLevel hlevel (marksAt_run hpooled hlater hunmarked) m

/-- The text of an include is removed, and with it goes the mark that the form around has on a text
with the same identifier. So the closing of the form leaves that text, and takes another. -/
theorem removal_unmarks_around_include :
    let text (id : String) : Node := (ofKind "text").withId id
    let form : Node := (((ofKind "form").withId "F").withChild (text "X")).withChild (text "Y")
    let part : Node := ((ofKind "include").withId "I").withChild (text "X")
    let r := ([.begin form, .begin part] : List Call).foldl after new
    r.Reachable ∧ r.depth = 2 ∧ marksAt r.levels "X" 0 ∧ marksAt r.levels "Y" 0 ∧
      ∃ removed part' r', r.closeLevel part = (.ok removed, part', r') ∧ "X" ∈ removed ∧
        ¬ marksAt r'.levels "X" 0 ∧ marksAt r'.levels "Y" 0 ∧
        ∃ removed' form' r'', r'.closeLevel form = (.ok removed', form', r'') ∧
          "X" ∉ removed' ∧ form'.bearers "X" = [(.child, text "X")] := by
  intro text form part r
  have hr : r.Reachable := ⟨_, rfl⟩
  have hother : marksAt r.levels "Y" 0 := by decide
  obtain ⟨removed, part', r', hclose, hopen, hmarks, hkept⟩ :=
    removal_unmarks_around hr (k := 0) rfl part
  have hremoved : removed = ["X"] := by
    have hdone : (r.closeLevel part).1.toOption = some ["X"] := by decide
    rw [hclose] at hdone
    exact Option.some.inj hdone
  have hX : "X" ∈ removed := by simp [hremoved]
  refine ⟨hr, rfl, by decide, hother, removed, part', r', hclose, hX, ?_, ?_, ?_⟩
  · exact fun hmark => ((hmarks "X").1 hmark).2.1 hX
  · exact (hmarks "Y").2 ⟨hother, by simp [hremoved], by decide⟩
  · exact hkept "X" hX [] (by simp) hopen form

/-- A form owns a text that an include inside of it owns, too. Nobody re-affirms either. The text of
the include is removed, and that of the form is left. -/
theorem kept_by_inner_removal :
    let text (id : String) : Node := (ofKind "text").withId id
    let form : Node := (((ofKind "form").withId "F").withChild (text "X")).withChild (text "Y")
    let part : Node := ((ofKind "include").withId "I").withChild (text "X")
    let r := ([.begin form, .begin part] : List Call).foldl after new
    let r' := r.after (.closeLevel part)
    r.Reachable ∧ marksAt r.levels "X" 0 ∧ marksAt r.levels "X" 1 ∧
      (r.closeLevel part).1.toOption = some ["X"] ∧ ¬ marksAt r'.levels "X" 0 ∧
      (r'.closeLevel form).1.toOption = some ["Y"] ∧
      creationIds (r'.closeLevel form).2.1.children = ["X"] := by
  intro text form part r r'
  exact ⟨⟨_, rfl⟩, by decide⟩

end ViewState.Reconciler
