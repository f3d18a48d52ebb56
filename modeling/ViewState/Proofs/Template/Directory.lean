import ViewState.Proofs.Files.Search
import ViewState.Proofs.Template.Walk

/-!
Sources and the files they stand for. Cut at its slashes a source gives back the names it was made
of, so that different files have different sources, and behind the root it leads to its file.
-/
namespace ViewState.Template.Directory

open Files (IsName)

variable {name : String} {names : List String}

@[simp] theorem sourceOf_cons (name : String) (names : List String) :
    sourceOf (name :: names) = "/" ++ name ++ sourceOf names := rfl

theorem splitSlashes_sourceOf (h : ∀ name ∈ names, IsName name) :
    Files.splitSlashes (sourceOf names).toList = [] :: names.map String.toList := by
  induction names with
  | nil => rfl
  | cons name names ih =>
    obtain ⟨hname, hnames⟩ := List.forall_mem_cons.1 h
    have hrest := Files.splitSlashes_append hname.slashless (ih hnames)
    simp [Files.splitSlashes, hrest]

theorem names_append_sourceOf (hname : IsName name) (h : ∀ name ∈ names, IsName name) :
    Files.names (name ++ sourceOf names) = name :: names := by
  rw [Files.names, String.toList_append,
    Files.splitSlashes_append hname.slashless (splitSlashes_sourceOf h)]
  simp

theorem sourceOf_inj {names' : List String} (h : ∀ name ∈ names, IsName name)
    (h' : ∀ name ∈ names', IsName name) (heq : sourceOf names = sourceOf names') :
    names = names' := by
  have hsplit := splitSlashes_sourceOf h
  rw [heq, splitSlashes_sourceOf h'] at hsplit
  have hlists : names.map String.toList = names'.map String.toList := (List.cons.inj hsplit).2.symm
  exact (List.map_injective_iff.2 fun _ _ => String.toList_injective) hlists

theorem join_append (root path rest : String) :
    Files.join root (path ++ rest) = Files.join root path ++ rest := by
  unfold Files.join
  split <;> simp [String.append_assoc]

/-- A path that ends in a name does not end in a slash. -/
theorem join_join {root : String} (hname : IsName name) (path : String) :
    Files.join (Files.join root name) path = Files.join root name ++ "/" ++ path := by
  have hlist : ∃ front, (Files.join root name).toList = front ++ name.toList := by
    unfold Files.join
    split
    · exact ⟨root.toList, String.toList_append⟩
    · exact ⟨root.toList ++ ['/'], by simp⟩
  obtain ⟨front, hfront⟩ := hlist
  have hne : name.toList ≠ [] := Files.toList_ne_nil hname.ne_empty
  have hlast : (Files.join root name).toList.getLast? ≠ some '/' := by
    rw [hfront, List.getLast?_append_of_ne_nil _ hne]
    exact fun hslash => hname.slashless (List.mem_of_getLast? hslash)
  have hempty : Files.join root name ≠ "" := by
    intro hempty
    rw [hempty] at hfront
    exact hne (List.append_eq_nil_iff.1 hfront.symm).2
  generalize Files.join root name = path' at hlast hempty
  simp [Files.join, hlast, hempty]

theorem foldl_join (root : String) (hname : IsName name) (h : ∀ name ∈ names, IsName name) :
    (name :: names).foldl Files.join root = Files.join root (name ++ sourceOf names) := by
  induction names generalizing root name with
  | nil => simp [sourceOf]
  | cons next names ih =>
    obtain ⟨hnext, hnames⟩ := List.forall_mem_cons.1 h
    rw [List.foldl_cons, ih _ hnext hnames, join_join hname, sourceOf_cons, join_append,
      String.append_assoc, String.append_assoc]

theorem pathOf_sourceOf (root : String) (hname : IsName name) (names : List String) :
    pathOf root (sourceOf (name :: names)) = Files.join root (name ++ sourceOf names) := by
  obtain ⟨c, cs, hcs⟩ := List.exists_cons_of_ne_nil (Files.toList_ne_nil hname.ne_empty)
  have hc : c ≠ '/' := by
    rintro rfl
    exact hname.slashless (by simp [hcs])
  have hlist : (sourceOf (name :: names)).toList = '/' :: (name ++ sourceOf names).toList := by
    simp
  have hdrop : (name ++ sourceOf names).toList.dropWhile (· = '/') =
      (name ++ sourceOf names).toList := by
    simp [hcs, hc]
  rw [pathOf, hlist, List.dropWhile_cons_of_pos (by simp), hdrop, String.ofList_toList]

theorem find_join_sourceOf {files : Files.Tree} {root : String} {here found : Files.Entry}
    (hroot : files.find root = .ok here) (hhere : here.WellFormed)
    (hdown : here.descend (name :: names) = some found) :
    files.find (Files.join root (name ++ sourceOf names)) = .ok found := by
  have hne : root ≠ "" := by
    rintro rfl
    cases hroot
  obtain ⟨hname, hnames⟩ := List.forall_mem_cons.1 (Files.Entry.isName_of_descend hhere hdown)
  rw [files.find_eq_follow hne] at hroot
  obtain ⟨above, hfollow⟩ := Files.Entry.follow_append hroot
  rw [files.find_join hne, names_append_sourceOf hname hnames, hfollow]
  exact Files.Entry.follow_of_descend hhere hdown

theorem isName_of_hasFile {e : Files.Entry} (h : e.WellFormed) (hfile : e.HasFile names) :
    ∀ name ∈ names, IsName name := by
  obtain ⟨content, time, hdown⟩ := hfile
  exact Files.Entry.isName_of_descend h hdown

theorem sources_perm {files : Files.Tree} {root : String}
    {entries : List (String × Files.Entry)} {modified : Int}
    (hroot : files.find root = .ok (.directory entries modified))
    (hformed : (Files.Entry.directory entries modified).WellFormed) :
    ∃ found, sources files root = .ok found ∧
      ((Files.Entry.pathsIn entries).map sourceOf).Perm found := by
  have hfound : sources files root =
      .ok (SortedSet.ofList ((Files.Entry.pathsIn entries).map sourceOf)).keys := by
    rw [sources, Files.Tree.list, hroot]
    rfl
  have hpaths (names : List String) (hnames : names ∈ Files.Entry.pathsIn entries) :
      ∀ name ∈ names, IsName name :=
    isName_of_hasFile hformed ((Files.Entry.mem_filePaths hformed).1 hnames)
  have hnodup : ((Files.Entry.pathsIn entries).map sourceOf).Nodup :=
    (Files.Entry.nodup_filePaths hformed).map_on fun names hnames names' hnames' heq =>
      sourceOf_inj (hpaths names hnames) (hpaths names' hnames') heq
  have hkeys := (sources_ascend hfound).imp fun hlt => String.ne_of_lt hlt
  exact ⟨_, hfound, (List.perm_ext_iff_of_nodup hnodup hkeys).2 fun source =>
    SortedSet.mem_keys_ofList.symm⟩

/-- All files below a directory, and nothing else, are listed as sources in ascending order. Every
source starts with a slash, stands for one file only, and behind the root it leads to that file. A
search comes to an end after it has read every directory once, and then it has found the same, in
whatever order directories and entries came. -/
theorem sources_complete {files : Files.Tree} {root : String}
    {entries : List (String × Files.Entry)} {modified : Int}
    (hroot : files.find root = .ok (.directory entries modified))
    (hformed : (Files.Entry.directory entries modified).WellFormed) :
    ∃ found, sources files root = .ok found ∧ found.Pairwise (· < ·) ∧
      (∀ source ∈ found, (∃ rest, source = "/" ++ rest) ∧
        ∃! names, (Files.Entry.directory entries modified).HasFile names ∧
          sourceOf names = source) ∧
      (∀ names content time,
        (Files.Entry.directory entries modified).descend names = some (.file content time) →
        sourceOf names ∈ found ∧
        pathOf root (sourceOf names) = names.foldl Files.join root ∧
        files.find (pathOf root (sourceOf names)) = .ok (.file content time)) ∧
      ∀ turns s, Files.Search.After entries turns s →
        (s.pending ≠ [] →
          turns ≤ Files.Entry.directoriesIn entries ∧ ∃ s', Files.Search.Turn s s') ∧
        (s.pending = [] →
          turns = Files.Entry.directoriesIn entries + 1 ∧ (s.found.map sourceOf).Perm found) := by
  obtain ⟨found, hfound, hperm⟩ := sources_perm hroot hformed
  have hmem (names : List String) :
      names ∈ Files.Entry.pathsIn entries ↔
        (Files.Entry.directory entries modified).HasFile names :=
    Files.Entry.mem_filePaths hformed
  refine ⟨found, hfound, sources_ascend hfound, ?_, ?_, ?_⟩
  · intro source hsource
    obtain ⟨names, hnames, rfl⟩ := List.mem_map.1 (hperm.mem_iff.2 hsource)
    have hfile := (hmem names).1 hnames
    constructor
    · cases names with
      | nil =>
        obtain ⟨content, time, hdown⟩ := hfile
        cases hdown
      | cons name names => exact ⟨name ++ sourceOf names, String.append_assoc⟩
    · exact ⟨names, ⟨hfile, rfl⟩, fun names' ⟨hfile', heq⟩ =>
        sourceOf_inj (isName_of_hasFile hformed hfile') (isName_of_hasFile hformed hfile) heq⟩
  · intro names content time hdown
    have hnames := isName_of_hasFile hformed ⟨content, time, hdown⟩
    have hlisted : sourceOf names ∈ found :=
      hperm.mem_iff.1 (List.mem_map_of_mem ((hmem names).2 ⟨content, time, hdown⟩))
    cases names with
    | nil => cases hdown
    | cons name names =>
      obtain ⟨hname, hrest⟩ := List.forall_mem_cons.1 hnames
      rw [pathOf_sourceOf root hname, foldl_join root hname hrest]
      exact ⟨hlisted, rfl, find_join_sourceOf hroot hformed hdown⟩
  · intro turns s hafter
    have hleft := hafter.left_eq
    constructor
    · intro hpending
      have hpositive := mt Files.Search.left_eq_zero_iff.1 hpending
      exact ⟨by omega, Files.Search.exists_turn hpending⟩
    · intro hpending
      have hzero := Files.Search.left_eq_zero_iff.2 hpending
      refine ⟨by omega, ?_⟩
      have hpaths := hafter.paths_perm
      simp only [Files.Search.paths, hpending, List.flatMap_nil, List.append_nil] at hpaths
      exact (hpaths.map sourceOf).trans hperm

/-- A file in a directory stands before the file next to that directory, and its source behind. The
root has a slash of its own at its end. -/
theorem sources_complete_nested :
    let page := Files.Entry.file ⟨#[104]⟩ 0
    let site := [("b", Files.Entry.directory [("c", page)] 0), ("b!", page)]
    let files : Files.Tree := ⟨.directory [("site", .directory site 0)] 0, []⟩
    files.find "/site/" = .ok (.directory site 0) ∧
    (Files.Entry.directory site 0).WellFormed ∧
    sources files "/site/" = .ok ["/b!", "/b/c"] ∧
    pathOf "/site/" "/b/c" = Files.join (Files.join "/site/" "b") "c" ∧
    files.find (pathOf "/site/" "/b/c") = .ok page ∧
    ∀ turns s, Files.Search.After site turns s → s.pending = [] →
      turns = 2 ∧ (s.found.map sourceOf).Perm ["/b!", "/b/c"] := by
  intro page site files
  have hroot : files.find "/site/" = .ok (.directory site 0) := by rfl
  have hformed : (Files.Entry.directory site 0).WellFormed :=
    ⟨by decide, by decide, ⟨by decide, by decide, trivial, trivial⟩, by decide, trivial, trivial⟩
  have hsources : sources files "/site/" = .ok ["/b!", "/b/c"] := by rfl
  obtain ⟨found, hfound, -, -, hfiles, hsearch⟩ := sources_complete hroot hformed
  obtain rfl : ["/b!", "/b/c"] = found := Except.ok.inj (hsources.symm.trans hfound)
  obtain ⟨-, hpath, hfind⟩ := hfiles ["b", "c"] ⟨#[104]⟩ 0 rfl
  exact ⟨hroot, hformed, hsources, hpath, hfind, fun turns s hafter => (hsearch turns s hafter).2⟩

end ViewState.Template.Directory
