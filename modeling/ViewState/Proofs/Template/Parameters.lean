import ViewState.Proofs.Template.Content

/-!
The parameters of templates over whole runs. A template that takes the place of another in the
standard part of a cache has the parameters of the other, so an entry only gains parameters until it
is dropped. Whoever asks with parameters of their own gets a template that has exactly those and the
ones of the entry, and knows all of them from then on.
-/
namespace ViewState.Template

variable {α : Type}

/-- All parameters of the one template are parameters of the other. -/
def Handle.Within (h h' : Handle α) : Prop :=
  ∀ name, h.parameters.contains name → h'.parameters.contains name

theorem Handle.Within.refl (h : Handle α) : h.Within h := fun _ hname => hname

theorem Handle.Within.trans {h h' h'' : Handle α} (hle : h.Within h') (hle' : h'.Within h'') :
    h.Within h'' :=
  fun name hname => hle' name (hle name hname)

namespace Cache

theorem contains_parametersFor {c : Cache α} {call : Call α} {source : String} {held : Handle α}
    (hpair : call.pair = (.standard, source)) (hdrops : call.drops = false)
    (hheld : c.get? .standard source = some held) {name : String}
    (hname : held.parameters.contains name) : (c.parametersFor call).contains name := by
  cases call with
  | get w now ns source' =>
    cases hpair
    rw [parametersFor, hheld]
    exact hname
  | getWith w now source' known =>
    cases hpair
    rw [parametersFor, SortedSet.contains_union, hheld]
    exact .inl hname
  | invalidate ns source' => cases hdrops

theorem parametersFor_eq_empty (c : Cache α) {call : Call α} (hpair : call.pair.1 ≠ .standard) :
    c.parametersFor call = ∅ := by
  cases call with
  | get w now ns source =>
    cases ns with
    | standard => exact absurd rfl hpair
    | viewMetadata | compositeMetadata => rfl
  | getWith w now source known => exact absurd rfl hpair
  | invalidate ns source => rfl

theorem exists_get?_perform {c : Cache α} {call : Call α} {source : String} {held : Handle α}
    (hheld : c.get? .standard source = some held)
    (hkept : call.drops → call.pair ≠ (.standard, source)) :
    ∃ held', (c.perform call).2.get? .standard source = some held' ∧ held.Within held' := by
  have hsame : ∃ held', some held = some held' ∧ held.Within held' := ⟨held, rfl, .refl held⟩
  rw [get?_perform, hheld]
  by_cases hpair : call.pair = (.standard, source)
  · have hdrops : call.drops = false := by
      cases h : call.drops with
      | false => rfl
      | true => exact absurd hpair (hkept h)
    rw [if_pos hpair, hdrops, if_neg Bool.false_ne_true]
    split
    · exact hsame
    · cases hcompiled : (c.event call).compiled? with
      | none => exact hsame
      | some made =>
        obtain ⟨w, now, artifact, -, rfl⟩ := c.eq_of_compiled?_event call hcompiled
        exact ⟨_, rfl, fun name hname => contains_parametersFor hpair hdrops hheld hname⟩
  · rw [if_neg hpair]
    exact hsame

theorem exists_get?_after {c : Cache α} {calls : List (Call α)} {source : String}
    {held : Handle α} (hheld : c.get? .standard source = some held)
    (hkept : ∀ call ∈ calls, call.drops → call.pair ≠ (.standard, source)) :
    ∃ held', (c.after calls).get? .standard source = some held' ∧ held.Within held' := by
  induction calls generalizing c held with
  | nil => exact ⟨held, hheld, .refl held⟩
  | cons call calls ih =>
    obtain ⟨hcall, hcalls⟩ := List.forall_mem_cons.1 hkept
    obtain ⟨held', hheld', hwithin⟩ := exists_get?_perform hheld hcall
    obtain ⟨held'', hheld'', hwithin'⟩ := ih hheld' hcalls
    exact ⟨held'', hheld'', hwithin.trans hwithin'⟩

theorem parameters_after_eq_empty (windows : Windows) (calls : List (Call α)) {ns : Namespace}
    (hns : ns ≠ .standard) {source : String} {held : Handle α}
    (hheld : ((new windows).after calls).get? ns source = some held) : held.parameters = ∅ := by
  obtain ⟨c, call, hpair, hmade⟩ := exists_compiled_of_get?_after windows calls hheld
  obtain ⟨w, now, artifact, -, rfl⟩ := c.eq_of_compiled?_event call hmade
  exact parametersFor_eq_empty _ (by rwa [hpair])

section Asking

variable {c c' : Cache α} {w : Workshop α} {now : UInt64} {source : String}
  {known known' : Parameters} {found : Handle α}

theorem Outcome.found_with {result : Except Failure (Handle α)}
    (h : c.Outcome w now .standard source
      (fun held => held.Bakes known ∧ ¬ held.Stale (c.windows .standard) w now)
      (SortedSet.union (inherited .standard (c.get? .standard source)) known) result c')
    (hkeeps : c.windows .standard ≠ .disabled) (hresult : result = .ok found) :
    found.parameters =
        SortedSet.union (inherited .standard (c.get? .standard source)) known ∧
      c'.get? .standard source = some found := by
  cases h with
  | unchecked | uncompiled => cases hresult
  | served hheld hgood lookups =>
    -- all that is known is in the entry, so the union is the entry's own set
    cases hresult
    refine ⟨SortedSet.ext_contains fun name => ?_, hheld⟩
    rw [SortedSet.contains_union, hheld]
    refine ⟨.inl, ?_⟩
    rintro (hname | hname)
    · exact hname
    · exact hgood.1 name (SortedSet.mem_keys_iff_contains.2 hname)
  | compiled hcompile hbad lookups hmade =>
    cases hresult
    subst hmade
    refine ⟨rfl, ?_⟩
    rw [get?_keep]
    exact if_pos ⟨rfl, hkeeps⟩

theorem known_inform (known : Parameters) {sought : Except Failure (Handle α) × Cache α}
    (hsought : sought.1 = .ok found) :
    (inform known sought).2.1 = SortedSet.union known found.parameters := by
  obtain ⟨result, c⟩ := sought
  cases hsought
  rfl

theorem getWith_of_ok (hkeeps : c.windows .standard ≠ .disabled)
    (hget : c.getWith w now source known = (.ok found, known', c')) :
    (∀ name, found.parameters.contains name ↔
        (∃ held, c.get? .standard source = some held ∧ held.parameters.contains name) ∨
          known.contains name) ∧
      known' = found.parameters ∧ c'.get? .standard source = some found := by
  have houtcome := c.outcome_getWith w now source known
  rw [hget] at houtcome
  obtain ⟨hparameters, hentry⟩ := houtcome.found_with hkeeps rfl
  have hunion (name : String) : found.parameters.contains name ↔
      (∃ held, c.get? .standard source = some held ∧ held.parameters.contains name) ∨
        known.contains name := by
    rw [hparameters, SortedSet.contains_union]
    cases c.get? .standard source with
    | none => simp [inherited]
    | some held => simp [inherited]
  have hknown' : known' = SortedSet.union known found.parameters := by
    have hseek : (c.seek w now source known).1 = .ok found := by
      rw [← fst_inform known, ← getWith_eq, hget]
    rw [← known_inform known hseek, ← getWith_eq, hget]
  refine ⟨hunion, ?_, hentry⟩
  rw [hknown']
  apply SortedSet.ext_contains
  intro name
  rw [SortedSet.contains_union, or_iff_right_iff_imp]
  exact fun hname => (hunion name).2 (.inr hname)

end Asking

/-- After any run, whoever asks with parameters and gets a template gets one with the parameters of
the entry and those asked with, and no others; they know exactly these afterwards, and the template
is the entry. As long as the entry is not dropped there is one, and it loses no parameter, whatever
is asked for in between. Entries of the two other parts never have any. -/
theorem parameters_only_grow (windows : Windows) (calls : List (Call α)) :
    let c := (new windows).after calls
    (windows .standard ≠ .disabled → ∀ w now source known found known' c',
      c.getWith w now source known = (.ok found, known', c') →
        (∀ name, found.parameters.contains name ↔
          (∃ held, c.get? .standard source = some held ∧ held.parameters.contains name) ∨
            known.contains name) ∧
        known' = found.parameters ∧ c'.get? .standard source = some found) ∧
    (∀ source held later, c.get? .standard source = some held →
      (∀ call ∈ later, call.drops → call.pair ≠ (.standard, source)) →
        ∃ held', (c.after later).get? .standard source = some held' ∧
          ∀ name, held.parameters.contains name → held'.parameters.contains name) ∧
    ∀ ns source held, ns ≠ .standard → c.get? ns source = some held → held.parameters = ∅ := by
  intro c
  refine ⟨?_, ?_, ?_⟩
  · intro hkeeps w now source known found known' c' hget
    have hwindows : c.windows = windows := windows_after calls (new windows)
    exact getWith_of_ok (hwindows ▸ hkeeps) hget
  · intro source held later hheld hkept
    exact exists_get?_after hheld hkept
  · intro ns source held hns hheld
    exact parameters_after_eq_empty windows calls hns hheld

/-- A page with a parameter is compiled again when its source has changed, and once more for a
second parameter. It has both of them then. -/
theorem parameters_only_grow_page :
    let windows : Windows := Windows.uniform (.every 1000)
    let workshop (modified : UInt64) : Workshop String :=
      ⟨fun ns _ => .ok ns.name, fun _ => .ok modified, id⟩
    let user : Parameters := SortedSet.ofList ["user"]
    let calls : List (Call String) :=
      [.getWith (workshop 0) 5 "page" user, .get (workshop 0) 6 .viewMetadata "page"]
    let c := (new windows).after calls
    let later : List (Call String) :=
      [.get (workshop 1500) 1700 .standard "page", .invalidate .viewMetadata "page",
        .getWith (workshop 0) 1800 "page" (SortedSet.ofList ["theme"])]
    (∃ held, c.get? .standard "page" = some held ∧ held.parameters.contains "user" ∧
      ∃ held', (c.after later).get? .standard "page" = some held' ∧
        held'.parameters.contains "user") ∧
    (∃ found known' c',
      c.getWith (workshop 0) 1800 "page" (SortedSet.ofList ["theme"]) = (.ok found, known', c') ∧
        known' = found.parameters ∧ found.parameters.contains "user" ∧
        found.parameters.contains "theme" ∧ c'.get? .standard "page" = some found) ∧
    ∃ held, c.get? .viewMetadata "page" = some held ∧ held.parameters = ∅ := by
  intro windows workshop user calls c later
  obtain ⟨hwith, hkept, hother⟩ := parameters_only_grow windows calls
  obtain ⟨held, hheld⟩ : ∃ held, c.get? .standard "page" = some held :=
    Option.isSome_iff_exists.1 (by decide +kernel)
  have huser : held.parameters.contains "user" := by
    have hsome : (c.get? .standard "page").any fun held => held.parameters.contains "user" := by
      decide +kernel
    rwa [hheld] at hsome
  obtain ⟨held', hheld', hwithin⟩ := hkept "page" held later hheld (by decide +kernel)
  refine ⟨⟨held, hheld, huser, held', hheld', hwithin "user" huser⟩, ?_, ?_⟩
  · obtain ⟨found, hfound⟩ : ∃ found,
        (c.getWith (workshop 0) 1800 "page" (SortedSet.ofList ["theme"])).1.toOption = some found :=
      Option.isSome_iff_exists.1 (by decide +kernel)
    generalize hget : c.getWith (workshop 0) 1800 "page" (SortedSet.ofList ["theme"]) = answer
    rw [hget] at hfound
    obtain ⟨result, known', c'⟩ := answer
    cases result with
    | error e => cases hfound
    | ok found' =>
      obtain ⟨hunion, hknown, hentry⟩ := hwith (by decide) _ _ _ _ _ _ _ hget
      exact ⟨found', known', c', rfl, hknown, (hunion "user").2 (.inl ⟨held, hheld, huser⟩),
        (hunion "theme").2 (.inr (by decide +kernel)), hentry⟩
  · obtain ⟨bare, hbare⟩ : ∃ held, c.get? .viewMetadata "page" = some held :=
      Option.isSome_iff_exists.1 (by decide +kernel)
    exact ⟨bare, hbare, hother .viewMetadata "page" bare (by decide) hbare⟩

end Cache

end ViewState.Template
