import ViewState.Proofs.Reconciler.Closing

/-!
What a level that does not mark a node does to it, and how a level loses its mark. Re-affirming a
node takes its mark from the innermost level and from the one around it, and no call but a marking
brings a mark back. Closing a level without a mark of the node leaves the node where it is.
-/
namespace ViewState

namespace Node

def placedGroup (name : String) (facet : Node) : List (Place × Node) :=
  if facet.creationId.isSome then [(.facet name, facet)]
  else if facet.isWrapper then facet.children.map (.grouped name, ·)
  else []

def placed (n : Node) : List (Place × Node) :=
  n.children.map (.child, ·) ++ n.facets.flatMap fun f => placedGroup f.1 f.2

/-- Those of the owned nodes that carry a creation id. -/
def bearers (id : String) (n : Node) : List (Place × Node) :=
  n.placed.filter (·.2.creationId = some id)

end Node

namespace Reconciler

open Node

def Call.marked : Call → List String
  | .begin n | .mark n => n.ownId :: creationIds n.owned
  | _ => []

/-- Whether the level with `k` levels around it marks an identifier. -/
def marksAt (levels : List Level) (id : String) (k : Nat) : Bool :=
  (levels.reverse[k]?.getD ∅).contains id

@[simp] theorem marksAt_nil (id : String) (k : Nat) : marksAt [] id k = false := by
  simp [marksAt]

theorem marksAt_cons (level : Level) (outer : List Level) (id : String) (k : Nat) :
    marksAt (level :: outer) id k =
      if k = outer.length then level.contains id else marksAt outer id k := by
  rw [marksAt, marksAt, List.reverse_cons, List.getElem?_append, List.length_reverse]
  rcases Nat.lt_trichotomy k outer.length with hlt | rfl | hgt
  · rw [if_pos hlt, if_neg (Nat.ne_of_lt hlt)]
  · simp
  · have hlevel : ([level] : List Level)[k - outer.length]? = none := by simp; omega
    have houter : outer.reverse[k]? = none := by simp; omega
    rw [if_neg (Nat.lt_asymm hgt), if_neg (Nat.ne_of_gt hgt), hlevel, houter]

theorem marksAt_of_le {levels : List Level} {k : Nat} (h : levels.length ≤ k) (id : String) :
    marksAt levels id k = false := by
  have hnone : levels.reverse[k]? = none := by simpa using h
  rw [marksAt, hnone]
  rfl

structure Fades (levels levels' : List Level) : Prop where
  length_eq : levels'.length = levels.length
  marksAt_le : ∀ id k, marksAt levels' id k → marksAt levels id k

namespace Fades

variable {levels levels' levels'' : List Level}

theorem refl (levels : List Level) : Fades levels levels := ⟨rfl, fun _ _ h => h⟩

theorem trans (h : Fades levels levels') (h' : Fades levels' levels'') : Fades levels levels'' where
  length_eq := h'.length_eq.trans h.length_eq
  marksAt_le id k hmark := h.marksAt_le id k (h'.marksAt_le id k hmark)

theorem cons_erase (level : Level) (id : String) (h : Fades levels levels') :
    Fades (level :: levels) (level.erase id :: levels') where
  length_eq := by rw [List.length_cons, List.length_cons, h.length_eq]
  marksAt_le id' k hmark := by
    rw [marksAt_cons, h.length_eq] at hmark
    rw [marksAt_cons]
    by_cases hk : k = levels.length
    · rw [if_pos hk] at hmark ⊢
      exact ((SortedMap.contains_erase ..).1 hmark).2
    · rw [if_neg hk] at hmark ⊢
      exact h.marksAt_le id' k hmark

theorem forget (id : String) (levels : List Level) : Fades levels (forget id levels) := by
  cases levels with
  | nil => exact refl _
  | cons level outer => exact (refl outer).cons_erase level id

theorem takeMark (levels : List Level) (id : String) : Fades levels (takeMark levels id).2 := by
  cases levels with
  | nil => exact refl _
  | cons level outer =>
    by_cases hid : level.contains id
    · rw [takeMark_of_contains hid]
      exact (Fades.forget id outer).cons_erase level id
    · simpa [Reconciler.takeMark, hid] using refl (level :: outer)

end Fades

section

variable {id : String}

def Walk.Marks (w : Walk) (id : String) : Prop := marksAt w.levels id (w.levels.length - 1)

/-- From one walk to the other marks are only taken away, and an identifier without a mark is not
counted among those of the nodes removed. -/
structure Walk.Leads (id : String) (w w' : Walk) : Prop where
  fades : Fades w.levels w'.levels
  removed : ¬ w.Marks id → id ∈ w'.removed → id ∈ w.removed

namespace Walk.Leads

variable {w w' w'' : Walk}

theorem unmarked (h : w.Leads id w') (hw : ¬ w.Marks id) : ¬ w'.Marks id := by
  intro hmark
  rw [Marks, h.fades.length_eq] at hmark
  exact hw (h.fades.marksAt_le id _ hmark)

theorem refl (w : Walk) : w.Leads id w := ⟨.refl _, fun _ h => h⟩

theorem trans (h : w.Leads id w') (h' : w'.Leads id w'') : w.Leads id w'' where
  fades := h.fades.trans h'.fades
  removed hw hmem := h.removed hw (h'.removed (h.unmarked hw) hmem)

end Walk.Leads

theorem Walk.takeMark_of_unmarked {w : Walk} (hw : ¬ w.Marks id) :
    takeMark w.levels id = (false, w.levels) := by
  unfold Marks at hw
  revert hw
  cases w.levels with
  | nil => exact fun _ => rfl
  | cons level outer =>
    intro hw
    simp only [marksAt_cons, List.length_cons, Nat.add_sub_cancel, if_true] at hw
    simp [takeMark, hw]

theorem Walk.leads_visit (w : Walk) (n : Node) : w.Leads id (w.visit n).2 := by
  cases hn : n.creationId with
  | none =>
    rw [visit, hn]
    exact .refl w
  | some id' =>
    simp only [visit, hn]
    refine ⟨.takeMark w.levels id', fun hw hmem => ?_⟩
    by_cases hmarked : (takeMark w.levels id').1
    · rw [if_pos hmarked] at hmem
      rcases List.mem_append.1 hmem with hmem | hmem
      · exact hmem
      · rw [← List.mem_singleton.1 hmem, takeMark_of_unmarked hw] at hmarked
        cases hmarked
    · rwa [if_neg hmarked] at hmem

theorem Walk.stays_of_unmarked {w : Walk} (hw : ¬ w.Marks id) {n : Node}
    (hn : n.creationId = some id) : (w.visit n).1 = true := by
  simp [visit, hn, takeMark_of_unmarked hw]

theorem Walk.leads_children (w : Walk) (ns : List Node) : w.Leads id (w.children ns).2 :=
  w.children_induction .refl .trans leads_visit ns

theorem Walk.filter_children {w : Walk} (hw : ¬ w.Marks id) (ns : List Node) :
    (w.children ns).1.filter (·.creationId = some id) = ns.filter (·.creationId = some id) := by
  induction ns generalizing w with
  | nil => rfl
  | cons n ns ih =>
    have hrest := ih ((w.leads_visit n).unmarked hw)
    simp only [children]
    by_cases hn : n.creationId = some id
    · rw [if_pos (stays_of_unmarked hw hn), List.filter_cons, List.filter_cons, hrest]
    · have hskip : decide (n.creationId = some id) = false := by simpa using hn
      split
      · rw [List.filter_cons, List.filter_cons, hrest]
      · rw [List.filter_cons, hskip, hrest]
        rfl

theorem Walk.leads_facet (w : Walk) (facet : Node) : w.Leads id (w.facet facet).2 :=
  w.facet_induction .refl .trans leads_visit facet

theorem filter_map_place (place : Place) (ns : List Node) :
    (ns.map (place, ·)).filter (·.2.creationId = some id) =
      (ns.filter (·.creationId = some id)).map (place, ·) := by
  rw [List.filter_map]
  rfl

theorem Walk.filter_facet {w : Walk} (hw : ¬ w.Marks id) (name : String) (facet : Node) :
    ((w.facet facet).1.toList.flatMap (placedGroup name)).filter (·.2.creationId = some id) =
      (placedGroup name facet).filter (·.2.creationId = some id) := by
  by_cases hsome : facet.creationId.isSome
  · simp only [Walk.facet, hsome, if_true]
    by_cases hid : facet.creationId = some id
    · simp [stays_of_unmarked hw hid]
    · split <;> simp [placedGroup, hsome, hid]
  by_cases hwrap : facet.isWrapper
  · have hgroup (ns : List Node) :
        placedGroup name { facet with children := ns } = ns.map (.grouped name, ·) := by
      have hrole : Node.isWrapper { facet with children := ns } = true := hwrap
      rw [placedGroup, if_neg hsome, if_pos hrole]
    have hsame : placedGroup name facet = facet.children.map (.grouped name, ·) := by
      rw [placedGroup, if_neg hsome, if_pos hwrap]
    have hchildren := filter_children hw facet.children
    simp only [Walk.facet, hsome, hwrap, if_true, hsame, filter_map_place, ← hchildren]
    by_cases hempty : (w.children facet.children).1.isEmpty
    · rw [List.isEmpty_iff.1 hempty]
      rfl
    · simp [hempty, hgroup, filter_map_place]
  · simp [Walk.facet, hsome, hwrap]

theorem Walk.leads_owned (id : String) (w : Walk) (n : Node) :
    w.Leads id ((w.children n.children).2.facets n.facets).2 :=
  w.owned_induction .refl .trans leads_visit n

theorem Walk.filter_facets {w : Walk} (hw : ¬ w.Marks id) (fs : List (String × Node)) :
    ((w.facets fs).1.flatMap fun f => placedGroup f.1 f.2).filter (·.2.creationId = some id) =
      (fs.flatMap fun f => placedGroup f.1 f.2).filter (·.2.creationId = some id) := by
  induction fs generalizing w with
  | nil => rfl
  | cons f fs ih =>
    obtain ⟨name, facet⟩ := f
    have hfacet := filter_facet hw name facet
    have hrest := ih ((w.leads_facet facet).unmarked hw)
    rw [List.flatMap_cons, List.filter_append, ← hrest, ← hfacet]
    simp only [facets]
    cases (w.facet facet).1 <;> simp

theorem fades_closeLevel (r : Reconciler) (n : Node) :
    (r.closeLevel n).2.2 = r ∨
      ∃ levels, Fades r.levels levels ∧ (r.closeLevel n).2.2.levels = levels.tail := by
  unfold closeLevel
  split
  · exact .inl rfl
  · have hstart := Fades.takeMark r.levels n.ownId
    generalize (takeMark r.levels n.ownId).2 = levels at hstart
    exact .inr ⟨_, hstart.trans (Walk.leads_owned n.ownId ⟨levels, []⟩ n).fades, rfl⟩

theorem bearers_closeLevel {r : Reconciler} {k : Nat} (hdepth : r.depth = k + 1)
    (hunmarked : ¬ marksAt r.levels id k) (n : Node) :
    ∃ removed n' r', r.closeLevel n = (.ok removed, n', r') ∧ id ∉ removed ∧
      n'.bearers id = n.bearers id := by
  have hopen : r.levels ≠ [] := List.ne_nil_of_length_eq_add_one hdepth
  have hstart := Fades.takeMark r.levels n.ownId
  rw [closeLevel_of_open hopen]
  generalize (takeMark r.levels n.ownId).2 = levels at hstart
  have hw : ¬ (Walk.mk levels []).Marks id := by
    rw [Walk.Marks, hstart.length_eq, show r.levels.length = k + 1 from hdepth]
    exact fun hmark => hunmarked (hstart.marksAt_le id k hmark)
  refine ⟨_, _, _, rfl, fun hmem => ?_, ?_⟩
  · cases (Walk.leads_owned id _ n).removed hw hmem
  · have hchildren := (Walk.leads_children _ n.children).unmarked hw
    rw [bearers, bearers, placed, placed, List.filter_append, List.filter_append,
      Walk.filter_facets hchildren, filter_map_place, filter_map_place, Walk.filter_children hw]

variable {r : Reconciler} {k : Nat}

theorem marksAt_openLevel (hr : r.Pooled) (hunmarked : ¬ marksAt r.levels id k) :
    ¬ marksAt r.openLevel.levels id k := by
  rw [hr.openLevel.1, marksAt_cons]
  split
  · exact Bool.false_ne_true
  · exact hunmarked

theorem marksAt_mark {n : Node} (hid : id ∉ n.ownId :: creationIds n.owned)
    (hunmarked : ¬ marksAt r.levels id k) : ¬ marksAt (r.mark n).2.levels id k := by
  unfold mark
  cases hlevels : r.levels with
  | nil => simp [hlevels]
  | cons level outer =>
    rw [hlevels, marksAt_cons] at hunmarked
    rw [marksAt_cons]
    split at hunmarked
    · next hk =>
      rw [if_pos hk, SortedMap.contains_insertAll, mem_keys_marks]
      rw [List.mem_cons] at hid
      exact not_or.2 ⟨hid, hunmarked⟩
    · next hk => rwa [if_neg hk]

theorem marksAt_closeLevel (n : Node) (hunmarked : ¬ marksAt r.levels id k) :
    ¬ marksAt (r.closeLevel n).2.2.levels id k := by
  rcases r.fades_closeLevel n with hsame | ⟨levels, hfades, htail⟩
  · rwa [hsame]
  · rw [htail]
    intro hmark
    apply hunmarked
    apply hfades.marksAt_le
    cases levels with
    | nil => simp at hmark
    | cons level outer =>
      rw [marksAt_cons]
      split
      · next hk => rw [List.tail_cons, marksAt_of_le (Nat.le_of_eq hk.symm)] at hmark; cases hmark
      · exact hmark

theorem marksAt_after (hr : r.Pooled) {c : Call} (hc : id ∉ c.marked)
    (hunmarked : ¬ marksAt r.levels id k) : ¬ marksAt (r.after c).levels id k := by
  cases c with
  | openLevel => exact marksAt_openLevel hr hunmarked
  | begin n => exact marksAt_mark hc (marksAt_openLevel hr hunmarked)
  | mark n => exact marksAt_mark hc hunmarked
  | reaffirm n =>
    have hfades := Fades.takeMark r.levels n.ownId
    simp only [Reconciler.after, reaffirm]
    split
    · exact hunmarked
    · exact fun hmark => hunmarked (hfades.marksAt_le id k hmark)
  | closeLevel n => exact marksAt_closeLevel n hunmarked

theorem marksAt_run (hr : r.Pooled) {calls : List Call} (hcalls : ∀ c ∈ calls, id ∉ c.marked)
    (hunmarked : ¬ marksAt r.levels id k) : ¬ marksAt (calls.foldl after r).levels id k := by
  induction calls generalizing r with
  | nil => exact hunmarked
  | cons c calls ih =>
    obtain ⟨hc, hcalls⟩ := List.forall_mem_cons.1 hcalls
    exact ih (hr.after c) hcalls (marksAt_after hr hc hunmarked)

/-- Re-affirming takes the mark from the innermost level and the one around it. -/
theorem reaffirm_eq {m : Node} (hmarked : r.isMarked m.ownId) :
    ∃ level outer, r.levels = level :: outer ∧
      r.reaffirm m =
        (.ok true, { r with levels := level.erase m.ownId :: forget m.ownId outer }) := by
  unfold isMarked level? at hmarked
  unfold reaffirm
  cases hlevels : r.levels with
  | nil =>
    rw [hlevels] at hmarked
    cases hmarked
  | cons level outer =>
    rw [hlevels] at hmarked
    replace hmarked : level.contains m.ownId := hmarked
    refine ⟨level, outer, rfl, ?_⟩
    rw [takeMark_of_contains hmarked]
    rfl

theorem marksAt_reaffirm {m : Node} (hmarked : r.isMarked m.ownId)
    (hk : r.depth ≤ k + 2 ∨ ¬ marksAt r.levels m.ownId k) :
    ¬ marksAt (r.reaffirm m).2.levels m.ownId k := by
  obtain ⟨level, outer, hlevels, heq⟩ := reaffirm_eq hmarked
  have herased (level : Level) : ¬ (level.erase m.ownId).contains m.ownId := by
    simp [SortedMap.contains_erase]
  rw [heq]
  rw [depth, hlevels] at hk
  rw [marksAt_cons, (Fades.forget m.ownId outer).length_eq]
  split
  · exact herased level
  · next hlevel =>
    cases outer with
    | nil => simp [forget]
    | cons next rest =>
      rw [forget, marksAt_cons]
      split
      · exact herased next
      · next hnext =>
        rcases hk with hk | hk
        · simp only [List.length_cons] at hk hlevel
          rw [marksAt_of_le (by omega)]
          exact Bool.false_ne_true
        · rwa [marksAt_cons, if_neg hlevel, marksAt_cons, if_neg hnext] at hk

end

end Reconciler

end ViewState
