import Mathlib.Algebra.GroupWithZero.Nat
import Mathlib.Data.List.Nodup
import ViewState.Files.Tree
import ViewState.Proofs.SortedMap

/-!
Trees of files in which every entry has a name of its own, and the paths that lead to their files.
Below a directory such names are walked down one by one. A path that goes on behind another one goes
on from where that one leads to.
-/
namespace ViewState.Files

structure IsName (name : String) : Prop where
  ne_empty : name ≠ ""
  ne_here : name ≠ "."
  ne_up : name ≠ ".."
  slashless : '/' ∉ name.toList

instance (name : String) : Decidable (IsName name) :=
  decidable_of_iff (name ≠ "" ∧ name ≠ "." ∧ name ≠ ".." ∧ '/' ∉ name.toList)
    ⟨fun ⟨h₁, h₂, h₃, h₄⟩ => ⟨h₁, h₂, h₃, h₄⟩, fun ⟨h₁, h₂, h₃, h₄⟩ => ⟨h₁, h₂, h₃, h₄⟩⟩

namespace Entry

mutual

/-- The entries of every directory have names, and stand in ascending order of them. -/
def WellFormed : Entry → Prop
  | file _ _ => True
  | directory entries _ => Assoc.Sorted entries ∧ AllWellFormed entries

def AllWellFormed : List (String × Entry) → Prop
  | [] => True
  | (name, e) :: es => IsName name ∧ e.WellFormed ∧ AllWellFormed es

end

theorem allWellFormed_iff {es : List (String × Entry)} :
    AllWellFormed es ↔ ∀ e ∈ es, IsName e.1 ∧ e.2.WellFormed := by
  induction es with
  | nil => simp [AllWellFormed]
  | cons e es ih =>
    obtain ⟨name, e⟩ := e
    simp [AllWellFormed, ih, and_assoc]

def descend : Entry → List String → Option Entry
  | here, [] => some here
  | file _ _, _ :: _ => none
  | directory entries _, name :: names =>
    (Assoc.lookup name entries).bind fun next => next.descend names

def HasFile (e : Entry) (names : List String) : Prop :=
  ∃ content time, e.descend names = some (file content time)

theorem exists_descend_cons {e found : Entry} (h : e.WellFormed) {name : String}
    {names : List String} (hdown : e.descend (name :: names) = some found) :
    ∃ next, IsName name ∧ next.WellFormed ∧ next.descend names = some found ∧
      ∃ entries modified,
        e = directory entries modified ∧ Assoc.lookup name entries = some next := by
  cases e with
  | file content modified => cases hdown
  | directory entries modified =>
    obtain ⟨hsorted, hentries⟩ := h
    obtain ⟨next, hlookup, hnext⟩ := Option.bind_eq_some_iff.1 hdown
    obtain ⟨hname, hformed⟩ :=
      allWellFormed_iff.1 hentries _ ((Assoc.lookup_eq_some_iff hsorted).1 hlookup)
    exact ⟨next, hname, hformed, hnext, entries, modified, rfl, hlookup⟩

theorem isName_of_descend {e found : Entry} (h : e.WellFormed) {names : List String}
    (hdown : e.descend names = some found) : ∀ name ∈ names, IsName name := by
  induction names generalizing e with
  | nil => simp
  | cons name names ih =>
    obtain ⟨next, hname, hformed, hnext, -⟩ := exists_descend_cons h hdown
    exact List.forall_mem_cons.2 ⟨hname, ih hformed hnext⟩

theorem mem_pathsIn {es : List (String × Entry)} {path : List String} :
    path ∈ pathsIn es ↔ ∃ e ∈ es, ∃ rest ∈ e.2.filePaths, path = e.1 :: rest := by
  induction es with
  | nil => simp [pathsIn]
  | cons e es ih =>
    obtain ⟨name, e⟩ := e
    simp [pathsIn, ih, eq_comm]

theorem mem_filePaths {e : Entry} (h : e.WellFormed) {names : List String} :
    names ∈ e.filePaths ↔ e.HasFile names := by
  induction names generalizing e with
  | nil =>
    cases e with
    | file content modified => simp [filePaths, HasFile, descend]
    | directory entries modified => simp [filePaths, mem_pathsIn, HasFile, descend]
  | cons name names ih =>
    cases e with
    | file content modified => simp [filePaths, HasFile, descend]
    | directory entries modified =>
      obtain ⟨hsorted, hentries⟩ := h
      have hformed := allWellFormed_iff.1 hentries
      rw [filePaths, mem_pathsIn]
      constructor
      · rintro ⟨⟨name', next⟩, hmem, rest, hrest, heq⟩
        cases heq
        obtain ⟨content, time, hfile⟩ := (ih (hformed _ hmem).2).1 hrest
        refine ⟨content, time, ?_⟩
        rw [descend, (Assoc.lookup_eq_some_iff hsorted).2 hmem]
        exact hfile
      · rintro ⟨content, time, hfile⟩
        obtain ⟨next, hlookup, hnext⟩ := Option.bind_eq_some_iff.1 hfile
        have hmem := (Assoc.lookup_eq_some_iff hsorted).1 hlookup
        exact ⟨(name, next), hmem, names, (ih (hformed _ hmem).2).2 ⟨content, time, hnext⟩, rfl⟩

theorem pathsIn_eq_flatMap (es : List (String × Entry)) :
    pathsIn es = es.flatMap fun e => e.2.filePaths.map (e.1 :: ·) := by
  induction es with
  | nil => rfl
  | cons e es ih => rw [pathsIn, ih, List.flatMap_cons]

mutual

theorem nodup_filePaths : ∀ {e : Entry}, e.WellFormed → e.filePaths.Nodup
  | file _ _, _ => List.nodup_singleton _
  | directory _ _, h => nodup_pathsIn h.1 h.2

theorem nodup_pathsIn : ∀ {es : List (String × Entry)}, Assoc.Sorted es → AllWellFormed es →
    (pathsIn es).Nodup
  | [], _, _ => List.nodup_nil
  | (name, e) :: es, hsorted, hformed => by
    refine List.nodup_append'.2 ⟨(nodup_filePaths hformed.2.1).map List.cons_injective,
      nodup_pathsIn hsorted.tail hformed.2.2, ?_⟩
    intro path hfirst hother
    obtain ⟨_, -, rfl⟩ := List.mem_map.1 hfirst
    obtain ⟨other, hmem, _, -, heq⟩ := mem_pathsIn.1 hother
    exact hsorted.head_ne hmem (List.cons.inj heq).1.symm

end

mutual

def directoryCount : Entry → Nat
  | file _ _ => 0
  | directory entries _ => directoriesIn entries + 1

def directoriesIn : List (String × Entry) → Nat
  | [] => 0
  | (_, e) :: es => e.directoryCount + directoriesIn es

end

theorem directoriesIn_eq_sum (es : List (String × Entry)) :
    directoriesIn es = (es.map fun e => e.2.directoryCount).sum := by
  induction es with
  | nil => rfl
  | cons e es ih => rw [directoriesIn, ih, List.map_cons, List.sum_cons]

theorem follow_append {above : List Entry} {here found : Entry} {names : List String}
    (h : follow above here names = .ok found) :
    ∃ above', ∀ more, follow above here (names ++ more) = follow above' found more := by
  induction names generalizing above here with
  | nil =>
    cases h
    exact ⟨above, fun _ => rfl⟩
  | cons name names ih =>
    cases here with
    | file content modified => cases h
    | directory entries modified =>
      simp only [follow, List.cons_append] at h ⊢
      split at h
      · next hstays => simpa only [if_pos hstays] using ih h
      · next hstays =>
        simp only [if_neg hstays]
        split at h
        · next hup =>
          simp only [if_pos hup]
          cases above with
          | nil => exact ih h
          | cons up above => exact ih h
        · next hup =>
          simp only [if_neg hup]
          cases hlookup : Assoc.lookup name entries with
          | none =>
            rw [hlookup] at h
            cases h
          | some next =>
            rw [hlookup] at h
            exact ih h

theorem follow_blank (above : List Entry) (here : Entry) (names : List String) {more : List String}
    (hmore : more ≠ []) :
    follow above here (names ++ "" :: more) = follow above here (names ++ more) := by
  induction names generalizing above here with
  | nil =>
    obtain ⟨name, more, rfl⟩ := List.exists_cons_of_ne_nil hmore
    cases here with
    | file content modified => rfl
    | directory entries modified =>
      simp only [List.nil_append, follow, true_or, if_true]
  | cons name names ih =>
    cases here with
    | file content modified => rfl
    | directory entries modified =>
      simp only [follow, List.cons_append, ih]

theorem follow_of_descend {above : List Entry} {here found : Entry} (hhere : here.WellFormed)
    {names : List String} (h : here.descend names = some found) :
    follow above here names = .ok found := by
  induction names generalizing above here with
  | nil =>
    cases h
    rfl
  | cons name names ih =>
    obtain ⟨next, hname, hformed, hnext, entries, modified, rfl, hlookup⟩ :=
      exists_descend_cons hhere h
    simp only [follow, hname.ne_empty, hname.ne_here, hname.ne_up, or_self, if_false, hlookup]
    exact ih hformed hnext

end Entry

theorem splitSlashes_ne_nil (cs : List Char) : splitSlashes cs ≠ [] := by
  induction cs with
  | nil => simp [splitSlashes]
  | cons c cs ih =>
    rw [splitSlashes]
    split
    · simp
    · split <;> simp

theorem splitSlashes_append_slash (cs ds : List Char) :
    splitSlashes (cs ++ '/' :: ds) = splitSlashes cs ++ splitSlashes ds := by
  induction cs with
  | nil => simp [splitSlashes]
  | cons c cs ih =>
    rw [List.cons_append, splitSlashes, splitSlashes, ih]
    split
    · rfl
    · cases hcs : splitSlashes cs with
      | nil => exact absurd hcs (splitSlashes_ne_nil cs)
      | cons piece pieces => rfl

/-- Characters other than slashes go to the first piece. -/
theorem splitSlashes_append {cs ds : List Char} (hcs : '/' ∉ cs) {piece : List Char}
    {pieces : List (List Char)} (hds : splitSlashes ds = piece :: pieces) :
    splitSlashes (cs ++ ds) = (cs ++ piece) :: pieces := by
  induction cs with
  | nil => simpa using hds
  | cons c cs ih =>
    obtain ⟨hc, hrest⟩ := not_or.1 (mt List.mem_cons.2 hcs)
    rw [List.cons_append, splitSlashes, if_neg (Ne.symm hc), ih hrest]
    rfl

theorem names_ne_nil (path : String) : names path ≠ [] := by
  simp [names, splitSlashes_ne_nil]

theorem toList_ne_nil {path : String} (h : path ≠ "") : path.toList ≠ [] := by
  simpa using h

theorem names_append_slash (path rest : String) :
    names (path ++ "/" ++ rest) = names path ++ names rest := by
  simp [names, splitSlashes_append_slash]

theorem isAbsolute_append {root : String} (hroot : root ≠ "") (path : String) :
    isAbsolute (root ++ path) = isAbsolute root := by
  obtain ⟨c, cs, hcs⟩ := List.exists_cons_of_ne_nil (toList_ne_nil hroot)
  simp [isAbsolute, hcs]

/-- A slash at the end of a path divides its names from an empty one, in whose place others stand
when they are put behind it. -/
theorem names_of_ends_in_slash {path : String} (h : path.toList.getLast? = some '/') :
    ∃ front, names path = front ++ [""] ∧ ∀ rest, names (path ++ rest) = front ++ names rest := by
  obtain ⟨cs, hcs⟩ := List.getLast?_eq_some_iff.1 h
  refine ⟨(splitSlashes cs).map String.ofList, ?_, fun rest => ?_⟩
  · rw [names, hcs, splitSlashes_append_slash]
    simp [splitSlashes]
  · rw [names, names, String.toList_append, hcs, List.append_assoc, List.singleton_append,
      splitSlashes_append_slash, List.map_append]

namespace Tree

theorem find_eq_follow (t : Tree) {path : String} (hpath : path ≠ "") :
    t.find path = t.root.follow [] (t.names path) := by
  simp [find, hpath]

theorem find_join (t : Tree) {root : String} (hroot : root ≠ "") (path : String) :
    t.find (join root path) = t.root.follow [] (t.names root ++ Files.names path) := by
  have hjoin : join root path ≠ "" := by
    unfold join
    split <;> simp [hroot]
  rw [t.find_eq_follow hjoin]
  unfold join
  split
  · next hslash =>
    obtain ⟨front, hfront, happend⟩ :=
      names_of_ends_in_slash (hslash.resolve_left (by simpa using hroot))
    simp only [names, isAbsolute_append hroot, hfront, happend]
    split
    · simpa using (Entry.follow_blank [] t.root front (names_ne_nil path)).symm
    · simpa using (Entry.follow_blank [] t.root (t.working ++ front) (names_ne_nil path)).symm
  · simp only [names, String.append_assoc, isAbsolute_append hroot]
    rw [← String.append_assoc, names_append_slash]
    split
    · rfl
    · rw [List.append_assoc]

end Tree

end ViewState.Files
