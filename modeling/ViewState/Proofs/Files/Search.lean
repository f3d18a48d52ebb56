import ViewState.Proofs.Files.Tree

/-!
The search for all files below a directory. Of the directories that are still to be read any one may
be the next, and its entries come in any order. What was found and what is still below directories
to be read are together all files, after every turn, and every turn has one directory less to read.
-/
namespace ViewState.Files

/-- Directories that are still to be read, with the names that lead to them, and the paths of the
files found. -/
structure Search where
  pending : List (List String × List (String × Entry))
  found : List (List String)

namespace Search

def start (entries : List (String × Entry)) : Search := ⟨[([], entries)], []⟩

def meet (names : List String) (s : Search) : String × Entry → Search
  | (name, .file _ _) => { s with found := (names ++ [name]) :: s.found }
  | (name, .directory entries _) => { s with pending := (names ++ [name], entries) :: s.pending }

inductive Turn : Search → Search → Prop
  | read {before after : List (List String × List (String × Entry))} {found : List (List String)}
      {names : List String} {entries order : List (String × Entry)} (horder : order.Perm entries) :
    Turn ⟨before ++ (names, entries) :: after, found⟩
      (order.foldl (meet names) ⟨before ++ after, found⟩)

/-- What a number of turns can lead to. -/
inductive After (entries : List (String × Entry)) : Nat → Search → Prop
  | start : After entries 0 (start entries)
  | turn {turns : Nat} {s s' : Search} (hafter : After entries turns s) (hturn : Turn s s') :
    After entries (turns + 1) s'

theorem exists_turn {s : Search} (h : s.pending ≠ []) : ∃ s', Turn s s' := by
  obtain ⟨pending, found⟩ := s
  obtain ⟨⟨names, entries⟩, pending, rfl⟩ := List.exists_cons_of_ne_nil h
  have hturn : Turn ⟨[] ++ (names, entries) :: pending, found⟩ _ := .read (List.Perm.refl entries)
  exact ⟨_, hturn⟩

def paths (s : Search) : List (List String) :=
  s.found ++ s.pending.flatMap fun d => (Entry.pathsIn d.2).map (d.1 ++ ·)

/-- The number of directories still to be read, with those that are not known yet. -/
def left (s : Search) : Nat := (s.pending.map fun d => Entry.directoriesIn d.2 + 1).sum

theorem paths_meet (names : List String) (s : Search) (e : String × Entry) :
    (s.meet names e).paths.Perm ((e.2.filePaths.map (e.1 :: ·)).map (names ++ ·) ++ s.paths) := by
  obtain ⟨name, e⟩ := e
  cases e with
  | file content modified => simp [meet, paths, Entry.filePaths]
  | directory entries modified =>
    have hnew : (Entry.pathsIn entries).map (names ++ [name] ++ ·) =
        ((Entry.pathsIn entries).map (name :: ·)).map (names ++ ·) := by
      simp
    simp only [meet, paths, Entry.filePaths, List.flatMap_cons, hnew]
    exact List.perm_append_comm_assoc ..

theorem paths_foldl_meet (names : List String) (s : Search) (order : List (String × Entry)) :
    (order.foldl (meet names) s).paths.Perm
      ((Entry.pathsIn order).map (names ++ ·) ++ s.paths) := by
  induction order generalizing s with
  | nil => exact List.Perm.refl _
  | cons e order ih =>
    rw [List.foldl_cons, Entry.pathsIn, List.map_append]
    refine (ih _).trans (((paths_meet names s e).append_left _).trans ?_)
    rw [List.append_assoc]
    exact List.perm_append_comm_assoc ..

theorem left_meet (names : List String) (s : Search) (e : String × Entry) :
    (s.meet names e).left = e.2.directoryCount + s.left := by
  obtain ⟨name, e⟩ := e
  cases e <;> simp [meet, left, Entry.directoryCount]

theorem left_foldl_meet (names : List String) (s : Search) (order : List (String × Entry)) :
    (order.foldl (meet names) s).left = Entry.directoriesIn order + s.left := by
  induction order generalizing s with
  | nil => simp [Entry.directoriesIn]
  | cons e order ih =>
    rw [List.foldl_cons, ih, left_meet, Entry.directoriesIn]
    omega

theorem paths_middle (before after : List (List String × List (String × Entry)))
    (found : List (List String)) (names : List String) (entries : List (String × Entry)) :
    (paths ⟨before ++ (names, entries) :: after, found⟩).Perm
      ((Entry.pathsIn entries).map (names ++ ·) ++ paths ⟨before ++ after, found⟩) := by
  have hmiddle := (@List.perm_middle _ (names, entries) before after).flatMap_right
    fun d => (Entry.pathsIn d.2).map (d.1 ++ ·)
  rw [List.flatMap_cons] at hmiddle
  exact (hmiddle.append_left found).trans (List.perm_append_comm_assoc ..)

/-- A turn loses no file and counts none twice. -/
theorem Turn.paths_perm {s s' : Search} (h : Turn s s') : s'.paths.Perm s.paths := by
  cases h with
  | @read before after found names entries order horder =>
    have hread : ((Entry.pathsIn order).map (names ++ ·)).Perm
        ((Entry.pathsIn entries).map (names ++ ·)) := by
      simp only [Entry.pathsIn_eq_flatMap]
      exact (horder.flatMap_right _).map _
    exact (paths_foldl_meet names _ order).trans
      ((hread.append_right _).trans (paths_middle before after found names entries).symm)

theorem Turn.left_eq {s s' : Search} (h : Turn s s') : s.left = s'.left + 1 := by
  cases h with
  | @read before after found names entries order horder =>
    have hread : Entry.directoriesIn order = Entry.directoriesIn entries := by
      simp only [Entry.directoriesIn_eq_sum]
      exact (horder.map _).sum_nat
    rw [left_foldl_meet, hread]
    simp only [left, List.map_append, List.map_cons, List.sum_append, List.sum_cons]
    omega

theorem After.paths_perm {entries : List (String × Entry)} {turns : Nat} {s : Search}
    (h : After entries turns s) : s.paths.Perm (Entry.pathsIn entries) := by
  induction h with
  | start => simp [Search.start, paths]
  | turn _ hturn ih => exact hturn.paths_perm.trans ih

theorem After.left_eq {entries : List (String × Entry)} {turns : Nat} {s : Search}
    (h : After entries turns s) : turns + s.left = Entry.directoriesIn entries + 1 := by
  induction h with
  | start => simp [Search.start, left]
  | turn _ hturn ih =>
    rw [← ih, hturn.left_eq]
    omega

theorem left_eq_zero_iff {s : Search} : s.left = 0 ↔ s.pending = [] := by
  obtain ⟨pending, found⟩ := s
  cases pending <;> simp [left]

end Search

end ViewState.Files
