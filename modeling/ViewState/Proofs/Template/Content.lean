import Mathlib.Data.List.Induction
import ViewState.Proofs.Template.Run

/-!
The entries of a cache over whole runs. What is held for a source is what the calls about that
source alone leave of it: the last instance that was compiled, unless it was dropped since.
-/
namespace ViewState.Template.Cache

variable {α : Type}

def Event.compiled? (e : Event α) : Option (Handle α) :=
  if e.compilations = 0 then none else e.answer.handle?

/-- The instance that was last compiled for a source since its entry was last dropped. -/
def lastCompiled (ns : Namespace) (source : String) (history : List (Event α)) :
    Option (Handle α) :=
  let about := history.filter fun e => e.call.pair = (ns, source)
  (about.reverse.takeWhile fun e => !e.call.drops).findSome? Event.compiled?

theorem lastCompiled_append_singleton (ns : Namespace) (source : String) (history : List (Event α))
    (e : Event α) :
    lastCompiled ns source (history ++ [e]) =
      if e.call.pair = (ns, source) then
        if e.call.drops then none else e.compiled?.or (lastCompiled ns source history)
      else lastCompiled ns source history := by
  unfold lastCompiled
  by_cases hpair : e.call.pair = (ns, source)
  · cases hdrops : e.call.drops with
    | true => simp [hpair, hdrops]
    | false => cases hcompiled : e.compiled? <;> simp [hpair, hdrops, hcompiled]
  · simp [hpair]

def Serves (c : Cache α) (call : Call α) : Prop :=
  ∃ held, c.get? call.pair.1 call.pair.2 = some held ∧ call.Accepts c.windows held

/-- The instance that was compiled between two states, of which the second hands out `found`. -/
def compiled? (c c' : Cache α) (found : Option (Handle α)) : Option (Handle α) :=
  if c'.compiled - c.compiled = 0 then none else found

section Outcome

variable {c : Cache α} {w : Workshop α} {now : UInt64} {ns : Namespace} {source : String}
  {Good : Handle α → Prop} {parameters : Parameters} {result : Except Failure (Handle α)}
  {c' : Cache α}

theorem Outcome.windows (h : c.Outcome w now ns source Good parameters result c') :
    c'.windows = c.windows := by
  cases h with
  | unchecked | uncompiled | served => rfl
  | compiled => apply windows_keep

theorem Outcome.range_compiled (h : c.Outcome w now ns source Good parameters result c') :
    List.range c'.compiled =
      List.range c.compiled ++ (c.compiled? c' result.toOption).toList.map Handle.serial := by
  unfold compiled?
  cases h with
  | unchecked | uncompiled | served => simp
  | compiled hcompile hbad lookups hh =>
    rw [compiled_keep]
    simp [Except.toOption, hh, List.range_succ]

/-- Only what was compiled takes the place of an entry. -/
theorem Outcome.get? (h : c.Outcome w now ns source Good parameters result c') (ns' : Namespace)
    (source' : String) :
    c'.get? ns' source' =
      if (ns, source) = (ns', source') ∧ c.windows ns ≠ .disabled then
        (c.compiled? c' result.toOption).or (c.get? ns' source')
      else c.get? ns' source' := by
  unfold compiled?
  cases h with
  | unchecked | uncompiled | served => simp [Cache.get?]
  | compiled hcompile hbad lookups hh =>
    rw [get?_keep, compiled_keep]
    simp [Except.toOption, Cache.get?, eq_comm]

/-- What is held is handed out as it is, without a compilation, exactly if it will do. Else a new
instance comes of one compilation. -/
theorem Outcome.found (h : c.Outcome w now ns source Good parameters result c') {found : Handle α}
    (hresult : result = .ok found) :
    ((c.get? ns source = some found ∧ c'.compiled = c.compiled) ↔
        ∃ held, c.get? ns source = some held ∧ Good held) ∧
      ((¬ ∃ held, c.get? ns source = some held ∧ Good held) →
        c'.compiled = c.compiled + 1 ∧ found.serial = c.compiled) := by
  cases h with
  | unchecked | uncompiled => cases hresult
  | served hheld hgood lookups =>
    cases hresult
    have hserves : ∃ held, c.get? ns source = some held ∧ Good held := ⟨_, hheld, hgood⟩
    exact ⟨iff_of_true ⟨hheld, rfl⟩ hserves, fun hnot => absurd hserves hnot⟩
  | compiled hcompile hbad lookups hmade =>
    cases hresult
    have hcount : (keep { c with lookups := lookups, compiled := c.compiled + 1 } ns source
        found).compiled = c.compiled + 1 := compiled_keep ..
    have hserial : found.serial = c.compiled := congrArg Handle.serial hmade
    constructor
    · apply iff_of_false
      · rintro ⟨-, hsame⟩
        omega
      · rintro ⟨held, hheld, hgood⟩
        exact hbad held hheld hgood
    · exact fun _ => ⟨hcount, hserial⟩

theorem Outcome.eq_of_compiled? (h : c.Outcome w now ns source Good parameters result c')
    {made : Handle α} (hmade : c.compiled? c' result.toOption = some made) :
    ∃ artifact, made = ⟨source, artifact, now, parameters, c.compiled⟩ := by
  unfold compiled? at hmade
  cases h with
  | unchecked | uncompiled | served => simp at hmade
  | @compiled artifact hcompile hbad lookups h' hh =>
    rw [compiled_keep] at hmade
    have hsame : h' = made := by simpa [Except.toOption] using hmade
    exact ⟨artifact, hsame ▸ hh⟩

end Outcome

section Perform

variable (c : Cache α) (call : Call α)

theorem windows_perform : (c.perform call).2.windows = c.windows := by
  rcases c.outcome_perform call with ⟨ns, source, rfl⟩ | ⟨-, w, now, result, -, -, h⟩
  · rfl
  · exact h.windows

theorem compiled?_invalidate (ns : Namespace) (source : String) :
    (c.event (.invalidate ns source)).compiled? = none :=
  ite_self _

theorem range_compiled_perform :
    List.range (c.perform call).2.compiled =
      List.range c.compiled ++ (c.event call).compiled?.toList.map Handle.serial := by
  rcases c.outcome_perform call with ⟨ns, source, rfl⟩ | ⟨-, w, now, result, -, hfound, h⟩
  · rw [compiled?_invalidate, Option.toList_none, List.map_nil, List.append_nil]
    rfl
  · rw [h.range_compiled, ← hfound]
    rfl

/-- An entry is dropped or takes the instance that was compiled for a call about it. No other call
does anything to it. -/
theorem get?_perform (ns : Namespace) (source : String) :
    (c.perform call).2.get? ns source =
      if call.pair = (ns, source) then
        if call.drops then none
        else if c.windows ns = .disabled then c.get? ns source
        else (c.event call).compiled?.or (c.get? ns source)
      else c.get? ns source := by
  rcases c.outcome_perform call with
    ⟨ns', source', rfl⟩ | ⟨hdrops, w, now, result, -, hfound, h⟩
  · exact (c.get?_invalidate ns' source' ns source).trans (by simp [Call.pair, Call.drops, eq_comm])
  · rw [h.get?, ← hfound, hdrops]
    show (if call.pair = (ns, source) ∧ c.windows call.pair.1 ≠ .disabled then
      (c.event call).compiled?.or _ else _) = _
    by_cases hpair : call.pair = (ns, source)
    · by_cases hdisabled : c.windows ns = .disabled <;> simp [hpair, hdisabled]
    · simp [hpair]

theorem held_or_compiled {ns : Namespace} {source : String} {held : Handle α}
    (hheld : (c.perform call).2.get? ns source = some held) :
    c.get? ns source = some held ∨
      call.pair = (ns, source) ∧ (c.event call).compiled? = some held := by
  rw [get?_perform] at hheld
  by_cases hpair : call.pair = (ns, source)
  · rw [if_pos hpair] at hheld
    split at hheld
    · cases hheld
    split at hheld
    · exact .inl hheld
    · rcases Option.or_eq_some_iff.1 hheld with hmade | ⟨-, hheld⟩
      · exact .inr ⟨hpair, hmade⟩
      · exact .inl hheld
  · rw [if_neg hpair] at hheld
    exact .inl hheld

theorem eq_of_compiled?_event {made : Handle α} (hmade : (c.event call).compiled? = some made) :
    ∃ w now artifact, call.outside? = some (w, now) ∧
      made = ⟨call.pair.2, artifact, now, c.parametersFor call, c.compiled⟩ := by
  rcases c.outcome_perform call with
    ⟨ns, source, rfl⟩ | ⟨-, w, now, result, houtside, hfound, h⟩
  · rw [compiled?_invalidate] at hmade
    cases hmade
  · have hresult : c.compiled? (c.perform call).2 result.toOption = some made := hfound ▸ hmade
    obtain ⟨artifact, heq⟩ := h.eq_of_compiled? hresult
    exact ⟨w, now, artifact, houtside, heq⟩

theorem found_perform {found : Handle α} (hfound : (c.perform call).1.handle? = some found) :
    ((c.get? call.pair.1 call.pair.2 = some found ∧ (c.perform call).2.compiled = c.compiled) ↔
        c.Serves call) ∧
      (¬ c.Serves call →
        (c.perform call).2.compiled = c.compiled + 1 ∧ found.serial = c.compiled) := by
  rcases c.outcome_perform call with
    ⟨ns, source, rfl⟩ | ⟨-, w, now, result, -, hresult, h⟩
  · cases hfound
  · rw [hresult] at hfound
    cases result with
    | error e => cases hfound
    | ok h' => exact h.found (congrArg Except.ok (Option.some.inj hfound))

end Perform

variable (windows : Windows) (calls : List (Call α))

theorem windows_after (c : Cache α) : (c.after calls).windows = c.windows := by
  induction calls using List.reverseRecOn with
  | nil => rfl
  | append_singleton calls call ih => rw [after_append_singleton, windows_perform, ih]

theorem exists_compiled_of_get?_after {ns : Namespace} {source : String} {held : Handle α}
    (hheld : ((new windows).after calls).get? ns source = some held) :
    ∃ (c : Cache α) (call : Call α), call.pair = (ns, source) ∧
      (c.event call).compiled? = some held := by
  induction calls using List.reverseRecOn with
  | nil => cases hheld
  | append_singleton calls call ih =>
    rw [after_append_singleton] at hheld
    rcases held_or_compiled _ call hheld with hheld | hmade
    · exact ih hheld
    · exact ⟨_, call, hmade⟩

theorem get?_after (ns : Namespace) (source : String) :
    ((new windows).after calls).get? ns source =
      if windows ns = .disabled then none
      else lastCompiled ns source ((new windows : Cache α).events calls) := by
  -- A history grows at its end, so the induction takes the last call off.
  induction calls using List.reverseRecOn with
  | nil => exact (ite_self _).symm
  | append_singleton calls call ih =>
    rw [after_append_singleton, events_append_singleton, get?_perform, windows_after,
      lastCompiled_append_singleton, ih]
    show (if call.pair = (ns, source) then if call.drops then none else _ else _) =
      if windows ns = .disabled then none
      else if call.pair = (ns, source) then if call.drops then none else _ else _
    by_cases hdisabled : windows ns = .disabled <;> simp [new, hdisabled]

theorem serial_after :
    (((new windows : Cache α).events calls).filterMap Event.compiled?).map Handle.serial =
      List.range ((new windows).after calls).compiled := by
  induction calls using List.reverseRecOn with
  | nil => rfl
  | append_singleton calls call ih =>
    rw [after_append_singleton, events_append_singleton, range_compiled_perform,
      List.filterMap_append, List.map_append, ih]
    cases hcompiled : (((new windows).after calls).event call).compiled? <;> simp [hcompiled]

/-- After any run, what is held for a source is the instance that was last compiled for it since its
entry was last dropped, and no part of the cache that keeps nothing holds anything. A further call
that hands out a template hands out the one that is held, without a compilation, exactly if it will
do; else it hands out a new instance, compiled just then. It does nothing to the entries of other
sources and of other parts. -/
theorem holds_last_compiled (windows : Windows) (calls : List (Call α)) :
    let c := (new windows).after calls
    let history := (new windows : Cache α).events calls
    (∀ ns source, c.get? ns source =
      if windows ns = .disabled then none else lastCompiled ns source history) ∧
    (history.filterMap Event.compiled?).map Handle.serial = List.range c.compiled ∧
    (∀ call found, (c.perform call).1.handle? = some found →
      ((c.get? call.pair.1 call.pair.2 = some found ∧
          (c.perform call).2.compiled = c.compiled) ↔ c.Serves call) ∧
        (¬ c.Serves call →
          (c.perform call).2.compiled = c.compiled + 1 ∧ found.serial = c.compiled)) ∧
    ∀ call ns source, call.pair ≠ (ns, source) →
      (c.perform call).2.get? ns source = c.get? ns source := by
  intro c history
  refine ⟨get?_after windows calls, serial_after windows calls, ?_, ?_⟩
  · intro call found hfound
    exact c.found_perform call hfound
  · intro call ns source hother
    rw [get?_perform, if_neg hother]

/-- A page is compiled again for a parameter. From then on it is used as it is, also past its
window, until its source has changed. -/
theorem holds_last_compiled_page :
    let windows : Windows := fun
      | .standard => .every 1000
      | .viewMetadata => .disabled
      | .compositeMetadata => .infinite
    let workshop (modified : UInt64) : Workshop String :=
      ⟨fun ns _ => .ok ns.name, fun _ => .ok modified, id⟩
    let calls : List (Call String) :=
      [.get (workshop 0) 5 .standard "page",
        .getWith (workshop 0) 600 "page" (SortedSet.ofList ["user"]),
        .get (workshop 0) 700 .viewMetadata "page",
        .get (workshop 0) 800 .compositeMetadata "page", .invalidate .compositeMetadata "page"]
    let c := (new windows).after calls
    let later : Call String := .get (workshop 1500) 1700 .standard "page"
    let changed : Call String := .get (workshop 1650) 1700 .standard "page"
    (c.get? .standard "page").map Handle.serial = some 1 ∧ c.get? .viewMetadata "page" = none ∧
      c.get? .compositeMetadata "page" = none ∧ c.Serves later ∧ ¬ c.Serves changed ∧
      (c.perform changed).1.handle?.map Handle.serial = some 4 ∧
      (c.perform changed).2.get? .compositeMetadata "page" = none := by
  intro windows workshop calls c later changed
  obtain ⟨hheld, -, hfound, hother⟩ := holds_last_compiled windows calls
  have hserial : (c.get? .standard "page").map Handle.serial = some 1 := by
    rw [hheld, if_neg (by decide)]
    decide +kernel
  have hdropped : c.get? .compositeMetadata "page" = none := by
    rw [hheld, if_neg (by decide)]
    exact Option.isNone_iff_eq_none.1 (by decide +kernel)
  have hserves : c.Serves later := by
    obtain ⟨found, hlater⟩ : ∃ found, (c.perform later).1.handle? = some found :=
      Option.isSome_iff_exists.1 (by decide +kernel)
    by_contra hnot
    exact absurd ((hfound later found hlater).2 hnot).1 (by decide +kernel)
  obtain ⟨found, hchanged⟩ : ∃ found, (c.perform changed).1.handle? = some found :=
    Option.isSome_iff_exists.1 (by decide +kernel)
  have hnot : ¬ c.Serves changed := fun hserves =>
    absurd ((hfound changed found hchanged).1.2 hserves).2 (by decide +kernel)
  have hnew : (c.perform changed).1.handle?.map Handle.serial = some 4 := by
    rw [hchanged, Option.map_some, ((hfound changed found hchanged).2 hnot).2]
    decide +kernel
  exact ⟨hserial, (hheld .viewMetadata "page").trans (if_pos rfl), hdropped, hserves, hnot, hnew,
    (hother changed .compositeMetadata "page" (by decide)).trans hdropped⟩

end ViewState.Template.Cache
