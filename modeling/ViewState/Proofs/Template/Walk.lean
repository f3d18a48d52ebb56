import ViewState.Proofs.Template.Run
import ViewState.Template.Walk

/-!
Walks over the templates below a directory that nothing changes. The walk keeps the template that it
got last for each source and tells from it what the cache did; the cache holds the same template, or
none if its window is disabled. So the report of a pass depends only on what compiles and on whether
the source was visited before.
-/
namespace ViewState.Template

namespace Cache

variable {α : Type} {c : Cache α} {ns : Namespace} {source : String}

theorem get_of_none (hnone : c.get? ns source = none) (w : Workshop α) (now : UInt64) :
    c.get w now ns source = c.compile w now ns source ∅ := by
  unfold get
  rw [hnone]

theorem get_of_infinite (hwindow : c.windows ns = .infinite) {held : Handle α}
    (hheld : c.get? ns source = some held) (w : Workshop α) (now : UInt64) :
    c.get w now ns source = (.ok held, c) := by
  unfold get needsRefresh
  rw [hheld]
  dsimp only
  rw [hwindow]

end Cache

namespace Walk

variable {w : Workshop Summary} {window : Window} {visited : List String} {s : State}

def line (w : Workshop Summary) (window : Window) (again : Bool) (pass : Nat) (source : String) :
    Report :=
  match w.compile .standard source with
  | .error e => ⟨pass, source, .failed, ⟨0, 0⟩, some e.message⟩
  | .ok summary =>
    let status : Status :=
      if again then if window = .infinite then .hit else .recompiled else .compiled
    ⟨pass, source, status, summary, none⟩

/-- The walk has got the templates of those sources visited that compile, and the cache holds them,
unless it holds nothing. -/
structure Follows (w : Workshop Summary) (window : Window) (visited : List String) (s : State) :
    Prop where
  windows : s.cache.windows .standard = window
  held : ∀ source, s.cache.get? .standard source =
    if window = .disabled then none else s.previous.get? source
  previous : ∀ source, (s.previous.get? source).map Handle.artifact =
    if source ∈ visited then (w.compile .standard source).toOption else none
  older : ∀ source h, s.previous.get? source = some h → h.serial < s.cache.compiled

theorem follows_start (w : Workshop Summary) (windows : Windows) :
    Follows w (windows .standard) [] ⟨.new windows, ∅⟩ where
  windows := rfl
  held source := by
    split <;> rfl
  previous source := by
    rw [if_neg List.not_mem_nil]
    rfl
  older source h hprevious := by cases hprevious

namespace Follows

theorem failed (h : Follows w window visited s) {source : String} {e : Failure}
    (hcompile : w.compile .standard source = .error e) :
    Follows w window (source :: visited) s where
  windows := h.windows
  held := h.held
  previous source' := by
    rw [h.previous]
    by_cases hsource : source' = source
    · simp [hsource, hcompile, Except.toOption]
    · simp [hsource]
  older := h.older

theorem hit (h : Follows w window visited s) {source : String} {held : Handle Summary}
    (hheld : s.cache.get? .standard source = some held) :
    window ≠ .disabled ∧ s.previous.get? source = some held ∧ source ∈ visited ∧
      w.compile .standard source = .ok held.artifact := by
  have hsame := h.held source
  rw [hheld] at hsame
  split at hsame
  · cases hsame
  · next hwindow =>
    have hartifact := h.previous source
    rw [← hsame, Option.map_some] at hartifact
    split at hartifact
    · next hvisited =>
      refine ⟨hwindow, hsame.symm, hvisited, ?_⟩
      cases hcompile : w.compile .standard source with
      | error e => simp [hcompile, Except.toOption] at hartifact
      | ok summary => simpa [hcompile, Except.toOption] using hartifact.symm
    · cases hartifact

theorem again (h : Follows w window visited s) {source : String} {held : Handle Summary}
    (hheld : s.cache.get? .standard source = some held) :
    Follows w window (source :: visited) ⟨s.cache, s.previous.insert source held⟩ := by
  obtain ⟨-, hprevious, hvisited, -⟩ := h.hit hheld
  have hsame : s.previous.insert source held = s.previous := by
    apply SortedMap.ext_get?
    intro source'
    rw [SortedMap.get?_insert]
    split
    · next hsource => rw [hsource, hprevious]
    · rfl
  rw [hsame]
  exact
    { windows := h.windows
      held := h.held
      previous := fun source' => by
        have hmem : source' ∈ source :: visited ↔ source' ∈ visited := by
          rw [List.mem_cons, or_iff_right_of_imp (fun hsource => hsource ▸ hvisited)]
        simp only [h.previous, hmem]
      older := h.older }

theorem compiled (h : Follows w window visited s) {source : String} {summary : Summary}
    (hcompile : w.compile .standard source = .ok summary) {made : Handle Summary}
    (hartifact : made.artifact = summary) (hserial : made.serial = s.cache.compiled) :
    Follows w window (source :: visited)
      ⟨{ s.cache with compiled := s.cache.compiled + 1 }.keep .standard source made,
        s.previous.insert source made⟩ where
  windows := by
    rw [Cache.windows_keep]
    exact h.windows
  held source' := by
    have hheld := h.held source'
    rw [Cache.get?_keep, SortedMap.get?_insert]
    dsimp only [Cache.get?] at hheld ⊢
    rw [h.windows, hheld]
    by_cases hwindow : window = .disabled <;> simp [hwindow]
  previous source' := by
    rw [SortedMap.get?_insert]
    by_cases hsource : source' = source
    · simp [hsource, hcompile, hartifact, Except.toOption]
    · simp [hsource, h.previous]
  older source' h' hprevious := by
    rw [SortedMap.get?_insert] at hprevious
    rw [Cache.compiled_keep]
    split at hprevious
    · cases hprevious
      exact hserial ▸ Nat.lt_succ_self _
    · exact Nat.lt_succ_of_lt (h.older source' h' hprevious)

end Follows

/-- Where the cache has no template to give, the walk has got none before, or the window is
disabled. -/
theorem Follows.statusOf_compiled (h : Follows w window visited s) {source : String}
    {summary : Summary} (hcompile : w.compile .standard source = .ok summary)
    (hnone : s.cache.get? .standard source = none) {made : Handle Summary}
    (hserial : made.serial = s.cache.compiled) :
    statusOf (s.previous.get? source) made =
      if source ∈ visited then if window = .infinite then .hit else .recompiled else .compiled := by
  have hartifact := h.previous source
  rw [hcompile] at hartifact
  cases hprevious : s.previous.get? source with
  | none =>
    rw [hprevious] at hartifact
    split at hartifact
    · cases hartifact
    · next hvisited => rw [if_neg hvisited, statusOf]
  | some prior =>
    have hdisabled : window = .disabled := by
      have hheld := h.held source
      rw [hnone, hprevious] at hheld
      split at hheld
      · assumption
      · cases hheld
    have hvisited : source ∈ visited := by
      rw [hprevious] at hartifact
      split at hartifact
      · assumption
      · cases hartifact
    have hne : prior.serial ≠ made.serial := by
      have := h.older source prior hprevious
      omega
    rw [if_pos hvisited, hdisabled, statusOf, if_neg hne]
    rfl

/-- Only failed compilations of a source are passed on to the walk as such. -/
def Constructs (w : Workshop Summary) : Prop :=
  ∀ source e, w.compile .standard source = .error e → ∃ message, e = .construction source message

theorem visit_eq (hw : Constructs w) (hwindow : window = .infinite ∨ window = .disabled)
    (h : Follows w window visited s) (now : UInt64) (pass : Nat) (source : String) :
    ∃ s', visit w now pass s source =
        .ok (line w window (decide (source ∈ visited)) pass source, s') ∧
      Follows w window (source :: visited) s' := by
  unfold visit line
  cases hheld : s.cache.get? .standard source with
  | some held =>
    obtain ⟨hkeeps, hprevious, hvisited, hcompile⟩ := h.hit hheld
    have hinfinite : window = .infinite := hwindow.resolve_right hkeeps
    have hcache : s.cache.windows .standard = .infinite := h.windows.trans hinfinite
    rw [Cache.get_of_infinite hcache hheld, hcompile, hprevious]
    exact ⟨_, by simp [statusOf, hvisited, hinfinite], h.again hheld⟩
  | none =>
    rw [Cache.get_of_none hheld, Cache.compile_eq]
    cases hcompile : w.compile .standard source with
    | error e =>
      obtain ⟨message, rfl⟩ := hw source e hcompile
      exact ⟨_, rfl, h.failed hcompile⟩
    | ok summary =>
      let made : Handle Summary := ⟨source, summary, now, ∅, s.cache.compiled⟩
      have hartifact : made.artifact = summary := rfl
      have hserial : made.serial = s.cache.compiled := rfl
      have hstatus := h.statusOf_compiled hcompile hheld hserial
      exact ⟨_, by simp [hstatus, made], h.compiled hcompile hartifact hserial⟩

def blockAt (w : Workshop Summary) (clock : String → UInt64) (pass : Nat) :
    State → List String → Except Failure (List Report × State)
  | s, [] => .ok ([], s)
  | s, source :: rest => do
    let (report, s) ← visit w (clock source) pass s source
    let (reports, s) ← blockAt w clock pass s rest
    return (report :: reports, s)

/-- Looks all sources up in each of `left` passes, at times that the clock gives by the pass and the
source. -/
def passesAt (w : Workshop Summary) (clock : Nat → String → UInt64) (sources : List String)
    (pass : Nat) : State → (left : Nat) → Except Failure (List Report)
  | _, 0 => .ok []
  | s, left + 1 => do
    let (reports, s) ← blockAt w (clock pass) pass s sources
    return reports ++ (← passesAt w clock sources (pass + 1) s left)

theorem block_eq_blockAt (w : Workshop Summary) (now : UInt64) (pass : Nat) (s : State)
    (sources : List String) :
    block w now pass s sources = blockAt w (fun _ => now) pass s sources := by
  induction sources generalizing s with
  | nil => rfl
  | cons source sources ih => simp only [block, blockAt, ih]

theorem passes_eq_passesAt (w : Workshop Summary) (now : UInt64) (sources : List String)
    (pass : Nat) (s : State) (left : Nat) :
    passes w now sources pass s left = passesAt w (fun _ _ => now) sources pass s left := by
  induction left generalizing pass s with
  | zero => rfl
  | succ left ih => simp only [passes, passesAt, block_eq_blockAt, ih]

theorem passesAt_nil (w : Workshop Summary) (clock : Nat → String → UInt64) (pass : Nat) (s : State)
    (left : Nat) : passesAt w clock [] pass s left = .ok [] := by
  induction left generalizing pass with
  | zero => rfl
  | succ left ih =>
    simp only [passesAt, blockAt, bind, Except.bind, ih]
    rfl

theorem blockAt_eq (hw : Constructs w) (hwindow : window = .infinite ∨ window = .disabled)
    (h : Follows w window visited s) (clock : String → UInt64) (pass : Nat) {again : Bool}
    {sources : List String} (hnodup : sources.Nodup)
    (hagain : ∀ source ∈ sources, decide (source ∈ visited) = again) :
    ∃ s', blockAt w clock pass s sources = .ok (sources.map (line w window again pass), s') ∧
      Follows w window (sources.reverse ++ visited) s' := by
  induction sources generalizing visited s with
  | nil => exact ⟨s, rfl, h⟩
  | cons source sources ih =>
    obtain ⟨hnew, hrest⟩ := List.nodup_cons.1 hnodup
    obtain ⟨s₁, hvisit, h₁⟩ := visit_eq hw hwindow h (clock source) pass source
    rw [hagain source List.mem_cons_self] at hvisit
    have hagain₁ : ∀ source' ∈ sources, decide (source' ∈ source :: visited) = again := by
      intro source' hsource'
      have hne : source' ≠ source := fun he => hnew (he ▸ hsource')
      rw [← hagain source' (List.mem_cons_of_mem _ hsource')]
      simp [hne]
    obtain ⟨s₂, hblock, h₂⟩ := ih h₁ hrest hagain₁
    refine ⟨s₂, ?_, by simpa using h₂⟩
    rw [blockAt, hvisit]
    simp only [bind, Except.bind, hblock]
    rfl

theorem passesAt_again (hw : Constructs w) (hwindow : window = .infinite ∨ window = .disabled)
    (h : Follows w window visited s) (clock : Nat → String → UInt64) {sources : List String}
    (hnodup : sources.Nodup) (hvisited : ∀ source ∈ sources, source ∈ visited) (pass left : Nat) :
    passesAt w clock sources pass s left =
      .ok ((List.range left).map fun i => sources.map (line w window true (pass + i))).flatten := by
  induction left generalizing visited s pass with
  | zero => rfl
  | succ left ih =>
    obtain ⟨s', hblock, h'⟩ := blockAt_eq hw hwindow h (clock pass) pass hnodup
      fun source hsource => decide_eq_true (hvisited source hsource)
    have hrest := ih h' (fun source hsource => List.mem_append_right _ (hvisited source hsource))
      (pass + 1)
    rw [passesAt, hblock, List.range_succ_eq_map, List.map_cons, List.map_map, List.flatten_cons]
    simp only [bind, Except.bind, hrest, Function.comp_def, Nat.succ_eq_add_one, Nat.add_assoc,
      Nat.add_comm 1]
    rfl

/-- The first pass finds nothing visited, and all later ones find everything visited. -/
theorem passesAt_eq (hw : Constructs w) (hwindow : window = .infinite ∨ window = .disabled)
    (h : Follows w window [] s) (clock : Nat → String → UInt64) {sources : List String}
    (hnodup : sources.Nodup) (left : Nat) :
    passesAt w clock sources 1 s left =
      .ok ((List.range left).map fun i =>
        sources.map (line w window (decide (i ≠ 0)) (i + 1))).flatten := by
  cases left with
  | zero => rfl
  | succ left =>
    obtain ⟨s', hblock, h'⟩ := blockAt_eq hw hwindow h (clock 1) 1 hnodup
      fun source _ => decide_eq_false List.not_mem_nil
    have hrest := passesAt_again hw hwindow h' clock hnodup
      (fun source hsource => by simpa using hsource) 2 left
    rw [passesAt, hblock, List.range_succ_eq_map, List.map_cons, List.map_map, List.flatten_cons]
    simp only [bind, Except.bind, hrest, Function.comp_def, Nat.add_comm 2, Nat.succ_eq_add_one,
      Nat.add_assoc, Nat.succ_ne_zero, ne_eq, not_false_eq_true, decide_true, not_true_eq_false,
      decide_false]
    rfl

end Walk

namespace Directory

theorem summarize_eq (files : Files.Tree) (root source : String) :
    summarize files root source =
      match files.sizeOf (pathOf root source), files.readText (pathOf root source) with
      | .error fault, _ => .error (.construction source fault.message)
      | .ok size, text =>
        if limit < size then
          .error (.construction source (Text.Decimal.ofNat size ++
            " bytes exceeds maximum allowed " ++ Text.Decimal.ofNat limit ++ " bytes"))
        else
          match text with
          | .error fault => .error (.construction source fault.message)
          | .ok text => .ok ⟨text.utf8ByteSize, Text.lineCount text⟩ := by
  simp only [summarize]
  cases files.sizeOf (pathOf root source) with
  | error fault => rfl
  | ok size =>
    have hsize (fail : Files.Fault → Failure) :
        (Except.ok size : Except Files.Fault Nat).mapError fail = .ok size := rfl
    simp only [hsize, bind, Except.bind]
    split
    · rfl
    · cases files.readText (pathOf root source) <;> rfl

theorem constructs_workshop (files : Files.Tree) (root : String) :
    Walk.Constructs (workshop files root) := by
  intro source e h
  have hsummary : summarize files root source = .error e := h
  rw [summarize_eq] at hsummary
  split at hsummary
  · cases hsummary
    exact ⟨_, rfl⟩
  · split at hsummary
    · cases hsummary
      exact ⟨_, rfl⟩
    · split at hsummary
      · cases hsummary
        exact ⟨_, rfl⟩
      · cases hsummary

theorem sources_ascend {files : Files.Tree} {root : String} {found : List String}
    (h : sources files root = .ok found) : found.Pairwise (· < ·) := by
  unfold sources at h
  split at h
  · cases h
  · next paths hpaths =>
    cases h
    have hsorted := (SortedSet.ofList (paths.map sourceOf)).sorted
    exact List.pairwise_map.2 (List.Pairwise.imp compareOfLessAndEq_eq_lt.1 hsorted)

end Directory

/-- The windows of a walk: one for all parts if a period is given, else those of the settings. -/
def windowsFor (lookup : Settings.Lookup) : Option Int → Windows
  | some seconds => .uniform (.ofSeconds seconds)
  | none => .ofSettings lookup

namespace Walk

/-- A walk that reads the clock anew for each source. As every pass comes to a source once, the pass
and the source tell which reading is meant. -/
def walkAt (files : Files.Tree) (clock : Nat → String → UInt64) (lookup : Settings.Lookup)
    (root : String) (refresh : Option Int) (count : Nat) : Except Failure (List Report) := do
  let sources ← Directory.sources files root
  passesAt (Directory.workshop files root) clock sources 1 ⟨.new (windowsFor lookup refresh), ∅⟩
    count

theorem walk_eq_walkAt (files : Files.Tree) (now : UInt64) (lookup : Settings.Lookup)
    (root : String) (refresh : Option Int) (count : Nat) :
    walk files now lookup root refresh count =
      walkAt files (fun _ _ => now) lookup root refresh count := by
  unfold walk walkAt
  cases Directory.sources files root with
  | error e => rfl
  | ok sources =>
    simp only [bind, Except.bind, passes_eq_passesAt]
    cases sources with
    | nil => exact (passesAt_nil ..).symm
    | cons source sources => cases refresh <;> rfl

/-- What a line of the `i`th block, counted from 0, says of its source. -/
theorem line_content (w : Workshop Summary) (window : Window) (i : Nat) (source : String) :
    let report := line w window (decide (i ≠ 0)) (i + 1) source
    report.pass = i + 1 ∧ report.source = source ∧
      match w.compile .standard source with
      | .error e =>
        report.status = .failed ∧ report.summary = ⟨0, 0⟩ ∧ report.error = some e.message
      | .ok summary =>
        report.summary = summary ∧ report.error = none ∧
          report.status =
            if i = 0 then .compiled else if window = .infinite then .hit else .recompiled := by
  unfold line
  cases w.compile .standard source with
  | error e => exact ⟨rfl, rfl, rfl, rfl, rfl⟩
  | ok summary =>
    refine ⟨rfl, rfl, rfl, rfl, ?_⟩
    by_cases hfirst : i = 0 <;> simp [hfirst]

/-- A walk over the templates below a directory, with a window that never ends or one that keeps
nothing, reports a block for each pass. A block has a line for every source, in ascending order.
What does not compile fails in every pass with the same message; all else is compiled in the first
pass, and found or compiled again in the later ones, with the same counts each time. The clock has
no say in it, be it read once or for each source. -/
theorem walk_report {files : Files.Tree} {root : String} {sources : List String}
    (hsources : Directory.sources files root = .ok sources) {lookup : Settings.Lookup}
    {refresh : Option Int} {window : Window}
    (hwindow : windowsFor lookup refresh .standard = window)
    (hkind : window = .infinite ∨ window = .disabled) (count : Nat) :
    sources.Pairwise (· < ·) ∧
    ∃ blocks : List (List Report),
      (∀ now, walk files now lookup root refresh count = .ok blocks.flatten) ∧
      (∀ clock, walkAt files clock lookup root refresh count = .ok blocks.flatten) ∧
      blocks.length = count ∧
      ∀ i block, blocks[i]? = some block →
        block.map Report.source = sources ∧
        ∀ report ∈ block, report.pass = i + 1 ∧
          match Directory.summarize files root report.source with
          | .error e =>
            report.status = .failed ∧ report.summary = ⟨0, 0⟩ ∧ report.error = some e.message
          | .ok summary =>
            report.summary = summary ∧ report.error = none ∧
              report.status =
                if i = 0 then .compiled else if window = .infinite then .hit else .recompiled := by
  have hascend := Directory.sources_ascend hsources
  let w := Directory.workshop files root
  let blocks := (List.range count).map fun i =>
    sources.map (line w window (decide (i ≠ 0)) (i + 1))
  have hclock (clock : Nat → String → UInt64) :
      walkAt files clock lookup root refresh count = .ok blocks.flatten := by
    have hnodup : sources.Nodup := hascend.imp fun hlt => String.ne_of_lt hlt
    have hstart := follows_start w (windowsFor lookup refresh)
    rw [hwindow] at hstart
    unfold walkAt
    rw [hsources]
    exact passesAt_eq (Directory.constructs_workshop files root) hkind hstart clock hnodup count
  refine ⟨hascend, blocks, fun now => ?_, hclock, by simp [blocks], ?_⟩
  · rw [walk_eq_walkAt]
    exact hclock _
  · intro i block hblock
    rw [List.getElem?_map] at hblock
    obtain ⟨j, hj, rfl⟩ := Option.map_eq_some_iff.1 hblock
    obtain ⟨hi, hij⟩ := List.getElem?_eq_some_iff.1 hj
    obtain rfl : i = j := by simpa using hij
    constructor
    · rw [List.map_map]
      exact List.map_id'' (fun source => (line_content w window i source).2.1) sources
    · intro report hreport
      obtain ⟨source, -, rfl⟩ := List.mem_map.1 hreport
      obtain ⟨hpass, hsource, hrest⟩ := line_content w window i source
      refine ⟨hpass, ?_⟩
      rw [hsource]
      exact hrest

/-- One file compiles and another is no text. Nothing is kept, so the first is compiled three times,
and the second fails three times. -/
theorem walk_report_mixed :
    let page := Files.Entry.file ⟨#[104, 10]⟩ 0
    let image := Files.Entry.file ⟨#[255]⟩ 0
    let files : Files.Tree :=
      ⟨.directory [("t", .directory [("a", page), ("b", .directory [("c", image)] 0)] 0)] 0, []⟩
    let refused := Failure.construction "/b/c" "stream did not contain valid UTF-8"
    Directory.sources files "t" = .ok ["/a", "/b/c"] ∧
    windowsFor (fun _ => none) (some 0) .standard = .disabled ∧
    Directory.summarize files "t" "/a" = .ok ⟨2, 1⟩ ∧
    Directory.summarize files "t" "/b/c" = .error refused ∧
    ∃ blocks : List (List Report),
      walk files 7 (fun _ => none) "t" (some 0) 3 = .ok blocks.flatten ∧ blocks.length = 3 ∧
      ∀ i block, blocks[i]? = some block → ∀ report ∈ block,
        (report.source = "/a" → report.status = if i = 0 then .compiled else .recompiled) ∧
        (report.source = "/b/c" → report.error = some refused.message) := by
  intro page image files refused
  have hsources : Directory.sources files "t" = .ok ["/a", "/b/c"] := by rfl
  have hwindow : windowsFor (fun _ => none) (some 0) .standard = .disabled := rfl
  have hline : Text.lineCount "h\n" = 1 := by
    rw [Text.lineCount, String.foldl_eq_foldl_toList]
    rfl
  have hpage : Directory.summarize files "t" "/a" = .ok ⟨2, 1⟩ := by
    rw [← hline]
    rfl
  have himage : Directory.summarize files "t" "/b/c" = .error refused := by rfl
  obtain ⟨-, blocks, hwalk, -, hlength, hblocks⟩ := walk_report hsources hwindow (.inr rfl) 3
  refine ⟨hsources, hwindow, hpage, himage, blocks, hwalk 7, hlength, ?_⟩
  intro i block hblock report hreport
  obtain ⟨-, hcase⟩ := (hblocks i block hblock).2 report hreport
  constructor
  · intro hsource
    rw [hsource, hpage] at hcase
    simpa using hcase.2.2
  · intro hsource
    rw [hsource, himage] at hcase
    exact hcase.2.2

end Walk

end ViewState.Template
