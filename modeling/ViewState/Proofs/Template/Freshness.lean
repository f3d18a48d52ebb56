import ViewState.Proofs.Template.Content

/-!
How far the templates of a source keep up with its changes. The clock never goes back, and the time
that is told for the source is that of its last change. A change after the window of the template
that is held is noticed, and what is handed out then was compiled behind it; a change inside the
window is not noticed, however late the template is asked for.
-/
namespace ViewState.Template

variable {α : Type}

/-- If the time of the last change of a source is told, it is this one. -/
def Workshop.Reports (w : Workshop α) (source : String) (changed : UInt64) : Prop :=
  ∀ modified ∈ (w.lastModified source).toOption, modified = changed

instance (w : Workshop α) (source : String) (changed : UInt64) :
    Decidable (w.Reports source changed) :=
  -- spelled out, since an instance that is found may try all words in turn
  decidable_of_iff ((w.lastModified source).toOption.all (· = changed))
    (by simp [Workshop.Reports, Option.all_eq_true])

inductive Happening (α : Type)
  | changed (now : UInt64)
  | called (call : Cache.Call α)

structure Scene (α : Type) where
  cache : Cache α
  /-- The time of what happened last. -/
  now : UInt64
  /-- The time of the last change of the source. -/
  changed : UInt64
  /-- How many templates had been compiled when the source was changed last. -/
  compiledBefore : Nat

namespace Scene

def new (windows : Windows) (now changed : UInt64) : Scene α := ⟨.new windows, now, changed, 0⟩

def step (s : Scene α) : Happening α → Scene α
  | .changed now => ⟨s.cache, now, now, s.cache.compiled⟩
  | .called call =>
    { s with
      cache := (s.cache.perform call).2
      now := (call.outside?.map Prod.snd).getD s.now }

def after (s : Scene α) (history : List (Happening α)) : Scene α := history.foldl step s

/-- The clock does not go back, no change is at time zero, and the time that is told for the source
is that of its last change. -/
def Admits (source : String) (s : Scene α) : Happening α → Prop
  | .changed now => s.now ≤ now ∧ now ≠ 0
  | .called call =>
    ∀ outside ∈ call.outside?, s.now ≤ outside.2 ∧ outside.1.Reports source s.changed

instance decidableAdmits (source : String) (s : Scene α) :
    (h : Happening α) → Decidable (s.Admits source h)
  | .changed now => inferInstanceAs (Decidable (s.now ≤ now ∧ now ≠ 0))
  | .called call =>
    inferInstanceAs (Decidable (∀ outside ∈ call.outside?,
      s.now ≤ outside.2 ∧ outside.1.Reports source s.changed))

/-- Everything in a history is as it is admitted when it happens. -/
def Steady (source : String) (s : Scene α) : List (Happening α) → Prop
  | [] => True
  | h :: history => s.Admits source h ∧ (s.step h).Steady source history

instance decidableSteady (source : String) :
    (s : Scene α) → (history : List (Happening α)) → Decidable (s.Steady source history)
  | _, [] => .isTrue trivial
  | s, h :: history =>
    have := decidableSteady source (s.step h) history
    inferInstanceAs (Decidable (_ ∧ _))

/-- What an entry of the source tells about its compilation: it was compiled from the source, no
later than now, and if it was not compiled before the last change, it has a time from then on. -/
structure Tells (source : String) (s : Scene α) (held : Handle α) : Prop where
  source_eq : held.source = source
  created_le : held.createdAt ≤ s.now
  serial_lt : held.serial < s.cache.compiled
  changed_le : s.compiledBefore ≤ held.serial → s.changed ≤ held.createdAt

structure Dated (source : String) (s : Scene α) : Prop where
  changed_le : s.changed ≤ s.now
  changed_ne : s.changed ≠ 0
  before_le : s.compiledBefore ≤ s.cache.compiled
  entry : ∀ ns held, s.cache.get? ns source = some held → s.Tells source held

variable {source : String} {s : Scene α}

theorem dated_new (windows : Windows) {now changed : UInt64} (hle : changed ≤ now)
    (hne : changed ≠ 0) : (new windows now changed : Scene α).Dated source where
  changed_le := hle
  changed_ne := hne
  before_le := Nat.le_refl 0
  entry ns held hheld := by cases hheld

theorem now_le_step {h : Happening α} (hadmits : s.Admits source h) : s.now ≤ (s.step h).now := by
  cases h with
  | changed now => exact hadmits.1
  | called call =>
    show s.now ≤ (call.outside?.map Prod.snd).getD s.now
    cases houtside : call.outside? with
    | none => exact UInt64.le_refl _
    | some outside => exact (hadmits outside houtside).1

theorem compiled_perform (c : Cache α) (call : Cache.Call α) :
    (c.perform call).2.compiled = c.compiled + (c.event call).compiled?.toList.length := by
  have hrange := congrArg List.length (c.range_compiled_perform call)
  simpa using hrange

theorem compiled_le_perform (c : Cache α) (call : Cache.Call α) :
    c.compiled ≤ (c.perform call).2.compiled :=
  (compiled_perform c call).symm ▸ Nat.le_add_right _ _

theorem Tells.step {held : Handle α} (hheld : s.Tells source held) {h : Happening α}
    (hadmits : s.Admits source h) : (s.step h).Tells source held where
  source_eq := hheld.source_eq
  created_le := UInt64.le_trans hheld.created_le (now_le_step hadmits)
  serial_lt := by
    cases h with
    | changed now => exact hheld.serial_lt
    | called call => exact Nat.lt_of_lt_of_le hheld.serial_lt (compiled_le_perform s.cache call)
  changed_le := by
    cases h with
    | changed now => exact fun hbefore => absurd hheld.serial_lt (Nat.not_lt.2 hbefore)
    | called call => exact hheld.changed_le

theorem Dated.tells_compiled (hs : s.Dated source) {call : Cache.Call α}
    (hadmits : s.Admits source (.called call)) (hsource : call.pair.2 = source)
    {made : Handle α} (hmade : (s.cache.event call).compiled? = some made) :
    (s.step (.called call)).Tells source made := by
  have hcompiled := compiled_perform s.cache call
  rw [hmade, Option.toList_some, List.length_singleton] at hcompiled
  obtain ⟨w, now, artifact, houtside, rfl⟩ := s.cache.eq_of_compiled?_event call hmade
  have hthen : (s.step (.called call)).now = now := by simp [Scene.step, houtside]
  refine ⟨hsource, UInt64.le_of_eq hthen.symm, ?_, fun _ => ?_⟩
  · show s.cache.compiled < (s.cache.perform call).2.compiled
    omega
  · show s.changed ≤ now
    rw [← hthen]
    exact UInt64.le_trans hs.changed_le (now_le_step hadmits)

theorem Dated.step {h : Happening α} (hs : s.Dated source) (hadmits : s.Admits source h) :
    (s.step h).Dated source := by
  have hnow := now_le_step hadmits
  cases h with
  | changed now =>
    refine ⟨UInt64.le_refl now, hadmits.2, Nat.le_refl _, fun ns held hheld => ?_⟩
    exact (hs.entry ns held hheld).step hadmits
  | called call =>
    have hbefore := Nat.le_trans hs.before_le (compiled_le_perform s.cache call)
    refine ⟨UInt64.le_trans hs.changed_le hnow, hs.changed_ne, hbefore, fun ns held hheld => ?_⟩
    rcases s.cache.held_or_compiled call hheld with hheld | ⟨hpair, hmade⟩
    · exact (hs.entry ns held hheld).step hadmits
    · exact hs.tells_compiled hadmits (congrArg Prod.snd hpair) hmade

theorem Dated.after {history : List (Happening α)} (hs : s.Dated source)
    (hsteady : s.Steady source history) : (s.after history).Dated source := by
  induction history generalizing s with
  | nil => exact hs
  | cons h history ih => exact ih (hs.step hsteady.1) hsteady.2

/-- Past the window of the template that is held, nothing is handed out without a look at the
source. -/
theorem exists_lastModified_of_get {c : Cache α} {w : Workshop α} {now : UInt64} {ns : Namespace}
    {held found : Handle α} {milliseconds : UInt64} (hwindow : c.windows ns = .every milliseconds)
    (hheld : c.get? ns source = some held)
    (hpast : held.createdAt.toNat + milliseconds.toNat < now.toNat)
    (hfound : (c.get w now ns source).1 = .ok found) :
    ∃ modified, w.lastModified held.source = .ok modified := by
  cases hlookup : w.lastModified held.source with
  | ok modified => exact ⟨modified, rfl⟩
  | error cause =>
    have hlate : ¬ now ≤ Word.add held.createdAt milliseconds :=
      UInt64.not_le.2 (Word.add_lt_iff.2 hpast)
    simp [Cache.get, hheld, Cache.needsRefresh, hwindow, hlate, hlookup] at hfound

/-- What a look-up past the window of the template that is held comes to: a template that is
compiled just then if the source was changed after the window, else the one that is held. -/
theorem Dated.get_past_window (hs : s.Dated source) {w : Workshop α} {now : UInt64}
    {ns : Namespace} {held found : Handle α} {milliseconds : UInt64}
    (hwindow : s.cache.windows ns = .every milliseconds)
    (hadmits : s.Admits source (.called (.get w now ns source)))
    (hheld : s.cache.get? ns source = some held)
    (hpast : held.createdAt.toNat + milliseconds.toNat < now.toNat)
    (hfound : (s.cache.get w now ns source).1 = .ok found) :
    if held.createdAt.toNat + milliseconds.toNat < s.changed.toNat then
      found.serial = s.cache.compiled ∧ found.createdAt = now
    else found = held := by
  obtain ⟨modified, hlookup⟩ := exists_lastModified_of_get hwindow hheld hpast hfound
  have hmodified : modified = s.changed := by
    apply (hadmits (w, now) rfl).2
    rw [← (hs.entry ns held hheld).source_eq, hlookup]
    rfl
  have hstale : held.Stale (s.cache.windows ns) w now ↔
      held.createdAt.toNat + milliseconds.toNat < s.changed.toNat := by
    simp [Handle.Stale, hwindow, hpast, hlookup, hmodified, hs.changed_ne]
  have houtcome := s.cache.outcome_get w now ns source
  generalize s.cache.get w now ns source = answer at hfound houtcome
  obtain ⟨result, c'⟩ := answer
  cases houtcome with
  | unchecked | uncompiled => cases hfound
  | @served held' hheld' hfresh lookups =>
    cases hfound
    obtain rfl : held = found := Option.some.inj (hheld.symm.trans hheld')
    rw [if_neg (mt hstale.2 hfresh)]
  | compiled hcompile hbad lookups hmade =>
    cases hfound
    rw [if_pos (hstale.1 (not_not.1 (hbad held hheld)))]
    exact ⟨congrArg Handle.serial hmade, congrArg Handle.createdAt hmade⟩

theorem windows_after (s : Scene α) (history : List (Happening α)) :
    (s.after history).cache.windows = s.cache.windows := by
  induction history generalizing s with
  | nil => rfl
  | cons h history ih =>
    refine (ih (s.step h)).trans ?_
    cases h with
    | changed now => rfl
    | called call => exact s.cache.windows_perform call

/-- A template that is asked for past its window, in whatever run, was compiled after the last
change of its source if that change came after the window, too. If it came inside the window, behind
the compilation of the template that is held, that older template is handed out. -/
theorem fresh_past_window {windows : Windows} {ns : Namespace} {milliseconds : UInt64}
    (hwindow : windows ns = .every milliseconds) {start changed : UInt64} (hle : changed ≤ start)
    (hne : changed ≠ 0) {source : String} {history : List (Happening α)}
    (hsteady : (new windows start changed).Steady source history) {w : Workshop α} {now : UInt64} :
    let s := (new windows start changed).after history
    s.Admits source (.called (.get w now ns source)) →
    ∀ held, s.cache.get? ns source = some held → held.createdAt < s.changed →
    held.createdAt.toNat + milliseconds.toNat < now.toNat →
    ∀ found, (s.cache.get w now ns source).1 = .ok found →
      (held.createdAt.toNat + milliseconds.toNat < s.changed.toNat →
        s.compiledBefore ≤ found.serial ∧ s.changed ≤ found.createdAt ∧ found ≠ held) ∧
      (s.changed.toNat ≤ held.createdAt.toNat + milliseconds.toNat →
        found = held ∧ found.serial < s.compiledBefore) := by
  intro s hadmits held hheld hchanged hpast found hfound
  have hs : s.Dated source := (dated_new windows hle hne).after hsteady
  have hwindow' : s.cache.windows ns = .every milliseconds := by
    rw [show s.cache.windows = windows from windows_after _ history, hwindow]
  have hcase := hs.get_past_window hwindow' hadmits hheld hpast hfound
  have holder : held.serial < s.compiledBefore := by
    by_contra hnot
    exact UInt64.not_lt.2 ((hs.entry ns held hheld).changed_le (Nat.not_lt.1 hnot)) hchanged
  constructor
  · intro hlate
    rw [if_pos hlate] at hcase
    obtain ⟨hserial, hcreated⟩ := hcase
    have hnew : s.compiledBefore ≤ found.serial := hserial ▸ hs.before_le
    refine ⟨hnew, ?_, ?_⟩
    · rw [hcreated]
      exact UInt64.le_trans hs.changed_le (hadmits (w, now) rfl).1
    · rintro rfl
      exact absurd holder (Nat.not_lt.2 hnew)
  · intro hinside
    rw [if_neg (Nat.not_lt.2 hinside)] at hcase
    exact ⟨hcase, hcase ▸ holder⟩

/-- A page that is changed after its window is compiled again when it is asked for next. -/
theorem fresh_past_window_page :
    let windows : Windows := Windows.uniform (.every 1000)
    let workshop (modified : UInt64) : Workshop String :=
      ⟨fun ns _ => .ok ns.name, fun _ => .ok modified, id⟩
    let history : List (Happening String) :=
      [.called (.get (workshop 500) 1000 .standard "page"),
        .called (.get (workshop 500) 1700 .viewMetadata "page"), .changed 2500]
    let s := (new windows 900 500).after history
    (new windows 900 500).Steady "page" history ∧
      s.Admits "page" (.called (.get (workshop 2500) 2500 .standard "page")) ∧
      ∃ held found, s.cache.get? .standard "page" = some held ∧
        (s.cache.get (workshop 2500) 2500 .standard "page").1 = .ok found ∧ found ≠ held ∧
        s.compiledBefore ≤ found.serial ∧ 2500 ≤ found.createdAt := by
  intro windows workshop history s
  have hsteady : (new windows 900 500).Steady "page" history := by decide +kernel
  have hadmits : s.Admits "page" (.called (.get (workshop 2500) 2500 .standard "page")) := by
    decide +kernel
  obtain ⟨held, hheld⟩ : ∃ held, s.cache.get? .standard "page" = some held :=
    Option.isSome_iff_exists.1 (by decide +kernel)
  have hcreated : held.createdAt = 1000 := by
    have hmap : (s.cache.get? .standard "page").map Handle.createdAt = some 1000 := by
      decide +kernel
    rw [hheld] at hmap
    exact Option.some.inj hmap
  have hchanged : s.changed = 2500 := by decide +kernel
  have hwindow : windows .standard = .every 1000 := rfl
  refine ⟨hsteady, hadmits, held, ?_⟩
  cases hget : (s.cache.get (workshop 2500) 2500 .standard "page").1 with
  | error e =>
    have hok : (s.cache.get (workshop 2500) 2500 .standard "page").1.toOption.isSome := by
      decide +kernel
    rw [hget] at hok
    cases hok
  | ok found =>
    obtain ⟨hlate, -⟩ :=
      fresh_past_window hwindow (by decide) (by decide) hsteady hadmits held hheld
      (by rw [hcreated, hchanged]; decide) (by rw [hcreated]; decide)
      found hget
    obtain ⟨hserial, htime, hne⟩ := hlate (by rw [hcreated, hchanged]; decide)
    exact ⟨found, hheld, rfl, hne, hserial, hchanged ▸ htime⟩

/-- A page that is changed inside its window is handed out as it was before the change, however late
it is asked for. -/
theorem stale_inside_window :
    let windows : Windows := Windows.uniform (.every 1000)
    let workshop (modified : UInt64) : Workshop String :=
      ⟨fun ns _ => .ok ns.name, fun _ => .ok modified, id⟩
    let history : List (Happening String) :=
      [.called (.get (workshop 500) 1000 .standard "page"), .changed 1500]
    let s := (new windows 900 500).after history
    (new windows 900 500).Steady "page" history ∧
      s.Admits "page" (.called (.get (workshop 1500) 5000 .standard "page")) ∧
      s.changed = 1500 ∧ s.compiledBefore = 1 ∧
      (s.cache.get? .standard "page").map Handle.createdAt = some 1000 ∧
      (s.cache.get (workshop 1500) 5000 .standard "page").1.toOption.map
        (fun found => (found.createdAt, found.serial)) = some (1000, 0) := by
  decide +kernel

end Scene

end ViewState.Template
