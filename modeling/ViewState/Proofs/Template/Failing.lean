import ViewState.Proofs.Template.Content

/-!
Calls for a template that fail. There are two reasons for that, both of them outside of the cache:
the time of the last change could not be told, or the source could not be compiled. The failure is
passed on, and the cache stays as it was but for the number of look-ups. Someone who asks with a
parameter that the entry does not have causes no look-up at all.
-/
namespace ViewState.Template

variable {α : Type}

/-- The window of a compiled template has gone by, so its source has to be looked at. -/
def Handle.Expired (h : Handle α) (window : Window) (now : UInt64) : Prop :=
  match window with
  | .infinite | .disabled => False
  | .every milliseconds => h.createdAt.toNat + milliseconds.toNat < now.toNat

theorem Handle.Expired.not_stale {h : Handle α} {window : Window} {w : Workshop α} {now : UInt64}
    (hexpired : h.Expired window now) {cause : String}
    (hlookup : w.lastModified h.source = .error cause) : ¬ h.Stale window w now := by
  intro hstale
  cases window with
  | infinite | disabled => exact hexpired
  | every milliseconds =>
    obtain ⟨-, modified, hmodified, -⟩ := hstale
    rw [hlookup] at hmodified
    cases hmodified

namespace Cache

/-- What makes a call for a template fail, and the failure that is passed on. An entry will do for
the call if it is `Wanted` and not stale. -/
inductive Fails (c : Cache α) (w : Workshop α) (now : UInt64) (ns : Namespace) (source : String)
    (Wanted : Handle α → Prop) : Failure → Prop
  | unchecked {held : Handle α} {cause : String} (hheld : c.get? ns source = some held)
      (hwanted : Wanted held) (hexpired : held.Expired (c.windows ns) now)
      (hlookup : w.lastModified source = .error cause) :
      Fails c w now ns source Wanted (.staleness (w.displayName source) cause)
  | uncompiled {e : Failure}
      (hstale : ∀ held, c.get? ns source = some held → Wanted held →
        held.Stale (c.windows ns) w now)
      (hcompile : w.compile ns source = .error e) :
      Fails c w now ns source Wanted e

section Check

variable (c : Cache α) (w : Workshop α) (now : UInt64) (ns : Namespace) (source : String)

theorem needsRefresh_eq_error_iff (h : Handle α) {e : Failure} :
    (c.needsRefresh w now ns h).1 = .error e ↔
      h.Expired (c.windows ns) now ∧
        ∃ cause, w.lastModified h.source = .error cause ∧
          e = .staleness (w.displayName h.source) cause := by
  unfold needsRefresh Handle.Expired
  cases hwindow : c.windows ns with
  | infinite => simp
  | disabled => simp
  | every milliseconds =>
    dsimp only
    by_cases hnow : now ≤ Word.add h.createdAt milliseconds
    · have hfresh : ¬ h.createdAt.toNat + milliseconds.toNat < now.toNat := by
        intro hpast
        exact absurd hnow (UInt64.not_le.2 (Word.add_lt_iff.2 hpast))
      simp [hnow, hfresh]
    · have hpast := Word.add_lt_iff.1 (UInt64.not_le.1 hnow)
      cases hlookup : w.lastModified h.source with
      | error cause => simp [hnow, hpast, eq_comm]
      | ok modified => simp [hnow]

theorem needsRefresh_eq_true_iff (h : Handle α) :
    (c.needsRefresh w now ns h).1 = .ok true ↔ h.Stale (c.windows ns) w now := by
  have hcheck := c.check_needsRefresh w now ns h
  have herror (e : Failure) := c.needsRefresh_eq_error_iff w now ns h (e := e)
  generalize c.needsRefresh w now ns h = checked at hcheck herror ⊢
  obtain ⟨result, c'⟩ := checked
  cases hcheck with
  | @failed cause hlookup lookups =>
    obtain ⟨hexpired, -⟩ := (herror _).1 rfl
    exact iff_of_false (by simp) (hexpired.not_stale hlookup)
  | passed hfresh lookups => exact iff_of_false (by simp) hfresh
  | stale hstale lookups => exact iff_of_true rfl hstale

theorem compile_eq_error_iff (parameters : Parameters) {e : Failure} :
    (c.compile w now ns source parameters).1 = .error e ↔ w.compile ns source = .error e := by
  rw [compile_eq]
  cases w.compile ns source <;> simp

theorem renew_eq_error_iff (parameters : Parameters) (held : Handle α) {e : Failure} :
    (c.renew w now ns source parameters held).1 = .error e ↔
      (c.needsRefresh w now ns held).1 = .error e ∨
        held.Stale (c.windows ns) w now ∧ w.compile ns source = .error e := by
  rw [← needsRefresh_eq_true_iff]
  unfold renew
  generalize c.needsRefresh w now ns held = checked
  obtain ⟨_ | _ | _, c'⟩ := checked
  · simp
  · simp
  · simp [compile_eq_error_iff]

variable {c w now ns source} {Wanted : Handle α → Prop} {e : Failure}

theorem fails_iff_of_unwanted
    (hunwanted : ∀ held, c.get? ns source = some held → ¬ Wanted held) :
    c.Fails w now ns source Wanted e ↔ w.compile ns source = .error e := by
  constructor
  · intro h
    cases h with
    | unchecked hheld hwanted => exact absurd hwanted (hunwanted _ hheld)
    | uncompiled _ hcompile => exact hcompile
  · apply Fails.uncompiled
    intro held hheld hwanted
    exact absurd hwanted (hunwanted held hheld)

theorem fails_iff_of_wanted {held : Handle α} (hheld : c.get? ns source = some held)
    (hsource : held.source = source) (hwanted : Wanted held) :
    c.Fails w now ns source Wanted e ↔
      (c.needsRefresh w now ns held).1 = .error e ∨
        held.Stale (c.windows ns) w now ∧ w.compile ns source = .error e := by
  have hsame {held' : Handle α} (hheld' : c.get? ns source = some held') : held' = held :=
    Option.some.inj (hheld'.symm.trans hheld)
  rw [needsRefresh_eq_error_iff, hsource]
  constructor
  · intro h
    cases h with
    | unchecked hheld' _ hexpired hlookup =>
      obtain rfl := hsame hheld'
      exact .inl ⟨hexpired, _, hlookup, rfl⟩
    | uncompiled hstale hcompile => exact .inr ⟨hstale held hheld hwanted, hcompile⟩
  · rintro (⟨hexpired, cause, hlookup, rfl⟩ | ⟨hstale, hcompile⟩)
    · exact .unchecked hheld hwanted hexpired hlookup
    · refine .uncompiled (fun held' hheld' _ => ?_) hcompile
      rwa [hsame hheld']

theorem get_eq_error_iff (hsource : ∀ held, c.get? ns source = some held → held.source = source) :
    (c.get w now ns source).1 = .error e ↔ c.Fails w now ns source (fun _ => True) e := by
  unfold get
  cases hheld : c.get? ns source with
  | none =>
    rw [fails_iff_of_unwanted (by simp [hheld])]
    exact c.compile_eq_error_iff w now ns source ∅
  | some held =>
    rw [fails_iff_of_wanted hheld (hsource held hheld) trivial]
    exact c.renew_eq_error_iff w now ns source _ held

theorem getWith_eq_error_iff
    (hsource : ∀ held, c.get? .standard source = some held → held.source = source)
    (known : Parameters) :
    (c.getWith w now source known).1 = .error e ↔
      c.Fails w now .standard source (fun held => held.Bakes known) e := by
  rw [getWith_eq, fst_inform]
  unfold seek
  cases hheld : c.get? .standard source with
  | none =>
    rw [fails_iff_of_unwanted (by simp [hheld])]
    exact c.compile_eq_error_iff w now .standard source _
  | some held =>
    have hall : known.keys.all held.parameters.contains ↔ held.Bakes known := List.all_eq_true
    by_cases hbakes : held.Bakes known
    · rw [fails_iff_of_wanted hheld (hsource held hheld) hbakes]
      simp only [hall.2 hbakes, if_true]
      exact c.renew_eq_error_iff w now .standard source _ held
    · rw [fails_iff_of_unwanted (by simpa [hheld] using hbakes)]
      simp only [mt hall.1 hbakes]
      exact c.compile_eq_error_iff w now .standard source _

end Check

/-- A failure leaves all of the cache as it was, but for the number of look-ups. -/
theorem Outcome.unchanged {c c' : Cache α} {w : Workshop α} {now : UInt64} {ns : Namespace}
    {source : String} {Good : Handle α → Prop} {parameters : Parameters}
    {result : Except Failure (Handle α)}
    (h : c.Outcome w now ns source Good parameters result c') {e : Failure}
    (herror : result = .error e) : ∃ lookups, c' = { c with lookups := lookups } := by
  cases h with
  | unchecked | uncompiled => exact ⟨_, rfl⟩
  | served | compiled => cases herror

theorem known_of_error {c : Cache α} {w : Workshop α} {now : UInt64} {source : String}
    {known : Parameters} {e : Failure} (herror : (c.getWith w now source known).1 = .error e) :
    (c.getWith w now source known).2.1 = known := by
  rw [getWith_eq] at herror ⊢
  generalize c.seek w now source known = sought at herror ⊢
  obtain ⟨result, c'⟩ := sought
  cases result with
  | error e' => rfl
  | ok found => cases herror

/-- With a parameter that the entry does not have, a template is compiled whatever became of its
source. -/
theorem getWith_of_unbaked {c : Cache α} {source : String} {known : Parameters} {held : Handle α}
    (hheld : c.get? .standard source = some held) (hunbaked : ¬ held.Bakes known)
    (w : Workshop α) (now : UInt64) :
    c.getWith w now source known =
      inform known (c.compile w now .standard source (SortedSet.union held.parameters known)) := by
  have hall : known.keys.all held.parameters.contains ↔ held.Bakes known := List.all_eq_true
  rw [getWith_eq, seek, hheld]
  simp only [mt hall.1 hunbaked]
  rfl

theorem lookups_compile (c : Cache α) (w : Workshop α) (now : UInt64) (ns : Namespace)
    (source : String) (parameters : Parameters) :
    (c.compile w now ns source parameters).2.lookups = c.lookups := by
  rw [compile_eq]
  cases w.compile ns source with
  | error e => rfl
  | ok artifact =>
    unfold keep
    dsimp only
    split <;> rfl

theorem source_of_get? (windows : Windows) (calls : List (Call α)) {ns : Namespace}
    {source : String} {held : Handle α}
    (hheld : ((new windows).after calls).get? ns source = some held) : held.source = source := by
  obtain ⟨c, call, hpair, hmade⟩ := exists_compiled_of_get?_after windows calls hheld
  obtain ⟨w, now, artifact, -, rfl⟩ := c.eq_of_compiled?_event call hmade
  exact congrArg Prod.snd hpair

/-- After any run, a call for a template fails exactly if the outside does: the time of the last
change cannot be told when the window of a wanted entry has gone by, or the source cannot be
compiled when there is no wanted entry that is not stale. The failure is passed on, the cache stays
as it was but for the number of look-ups, and so do the parameters that were asked with. If one of
these is not in the entry, no time of a last change is asked for, and none makes a difference. -/
theorem failure_changes_nothing (windows : Windows) (calls : List (Call α)) (w : Workshop α)
    (now : UInt64) :
    let c := (new windows).after calls
    (∀ ns source e, (c.get w now ns source).1 = .error e ↔
      c.Fails w now ns source (fun _ => True) e) ∧
    (∀ ns source e, (c.get w now ns source).1 = .error e →
      ∃ lookups, (c.get w now ns source).2 = { c with lookups := lookups }) ∧
    (∀ source known e, (c.getWith w now source known).1 = .error e ↔
      c.Fails w now .standard source (fun held => held.Bakes known) e) ∧
    (∀ source known e, (c.getWith w now source known).1 = .error e →
      (c.getWith w now source known).2.1 = known ∧
        ∃ lookups, (c.getWith w now source known).2.2 = { c with lookups := lookups }) ∧
    ∀ source known held parameter, c.get? .standard source = some held →
      known.contains parameter → ¬ held.parameters.contains parameter →
        (c.getWith w now source known).2.2.lookups = c.lookups ∧
          ∀ lastModified, c.getWith { w with lastModified := lastModified } now source known =
            c.getWith w now source known := by
  intro c
  have hsource {ns : Namespace} {source : String} (held : Handle α)
      (hheld : c.get? ns source = some held) : held.source = source :=
    source_of_get? windows calls hheld
  refine ⟨?_, ?_, ?_, ?_, ?_⟩
  · intro ns source e
    exact get_eq_error_iff hsource
  · intro ns source e herror
    exact (c.outcome_get w now ns source).unchanged herror
  · intro source known e
    exact getWith_eq_error_iff hsource known
  · intro source known e herror
    exact ⟨known_of_error herror, (c.outcome_getWith w now source known).unchanged herror⟩
  · intro source known held parameter hheld hknown hlacks
    have hunbaked : ¬ held.Bakes known := fun hbakes =>
      hlacks (hbakes parameter (SortedSet.mem_keys_iff_contains.2 hknown))
    have hcompiled := getWith_of_unbaked hheld hunbaked
    constructor
    · rw [hcompiled, cache_inform, lookups_compile]
    · intro lastModified
      rw [hcompiled, hcompiled]
      rfl

/-- The time of the last change of a page cannot be told, or the page has been changed and does not
compile any more. Either way it stays in the cache. Someone with a new parameter finds out that it
does not compile without a look at the time. -/
theorem failure_changes_nothing_page :
    let windows : Windows := Windows.uniform (.every 1000)
    let workshop (modified : Except String UInt64) (compiled : Except Failure String) :
        Workshop String := ⟨fun _ _ => compiled, fun _ => modified, id⟩
    let user : Parameters := SortedSet.ofList ["user"]
    let theme : Parameters := SortedSet.ofList ["theme"]
    let calls : List (Call String) := [.getWith (workshop (.ok 0) (.ok "page")) 5 "page" user]
    let c := (new windows).after calls
    let lost := workshop (.error "disk") (.ok "page")
    let fault : Failure := .construction "page" "syntax"
    let broken := workshop (.ok 1500) (.error fault)
    let neither := workshop (.error "disk") (.error fault)
    (c.get lost 2000 .standard "page").1 = .error (.staleness "page" "disk") ∧
      (c.get lost 2000 .standard "page").2.get? .standard "page" = c.get? .standard "page" ∧
      (c.get broken 2000 .standard "page").1 = .error fault ∧
      (c.get broken 2000 .standard "page").2.get? .standard "page" = c.get? .standard "page" ∧
      (c.getWith neither 2000 "page" theme).1 = .error fault ∧
      (c.getWith neither 2000 "page" theme).2.1 = theme ∧
      (c.getWith neither 2000 "page" theme).2.2.lookups = c.lookups := by
  intro windows workshop user theme calls c lost fault broken neither
  obtain ⟨held, hheld⟩ : ∃ held, c.get? .standard "page" = some held :=
    Option.isSome_iff_exists.1 (by decide +kernel)
  have hdata : held.createdAt = 5 ∧ ¬ held.parameters.contains "theme" := by
    have hall : (c.get? .standard "page").all fun held =>
        held.createdAt = 5 ∧ ¬ held.parameters.contains "theme" := by decide +kernel
    rw [hheld] at hall
    exact of_decide_eq_true hall
  have honly (held' : Handle String) (hheld' : c.get? .standard "page" = some held') :
      held'.createdAt = 5 := by
    obtain rfl : held = held' := Option.some.inj (hheld.symm.trans hheld')
    exact hdata.1
  have hwindow : c.windows .standard = .every 1000 := rfl
  have hlost : c.Fails lost 2000 .standard "page" (fun _ => True) (.staleness "page" "disk") := by
    refine .unchecked hheld trivial ?_ rfl
    rw [hwindow, Handle.Expired, hdata.1]
    decide
  have hbroken : c.Fails broken 2000 .standard "page" (fun _ => True) fault := by
    refine .uncompiled (fun held' hheld' _ => ?_) rfl
    rw [hwindow, Handle.Stale, honly held' hheld']
    exact ⟨by decide, 1500, rfl, .inr (by decide)⟩
  have hneither : c.Fails neither 2000 .standard "page" (fun held => held.Bakes theme) fault := by
    refine .uncompiled (fun held' hheld' hbakes => ?_) rfl
    obtain rfl : held = held' := Option.some.inj (hheld.symm.trans hheld')
    exact absurd (hbakes "theme" (by decide +kernel)) hdata.2
  obtain ⟨hfails, hkept, -⟩ := failure_changes_nothing windows calls lost 2000
  obtain ⟨hfails', hkept', -⟩ := failure_changes_nothing windows calls broken 2000
  obtain ⟨-, -, hfailsWith, hkeptWith, hunasked⟩ :=
    failure_changes_nothing windows calls neither 2000
  have herror := (hfails .standard "page" _).2 hlost
  have herror' := (hfails' .standard "page" _).2 hbroken
  have herrorWith := (hfailsWith "page" theme _).2 hneither
  obtain ⟨lookups, hsame⟩ := hkept .standard "page" _ herror
  obtain ⟨lookups', hsame'⟩ := hkept' .standard "page" _ herror'
  refine ⟨herror, ?_, herror', ?_, herrorWith, (hkeptWith "page" theme _ herrorWith).1, ?_⟩
  · exact (congrArg (get? · .standard "page") hsame).trans rfl
  · exact (congrArg (get? · .standard "page") hsame').trans rfl
  · exact (hunasked "page" theme held "theme" hheld (by decide +kernel) hdata.2).1

end Cache

end ViewState.Template
