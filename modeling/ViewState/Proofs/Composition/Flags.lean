import Mathlib.Data.List.Induction
import ViewState.Proofs.Composition

/-!
The flags of a rebuild pass under settings that change while it goes on. A flag is settled when it
is first asked for, and what is written down of the questions to the settings shows that each key
comes up once at most. Of the flag that can also be set by hand the last setting counts, and after
one the settings are not asked for it any more.
-/
namespace ViewState

namespace Settings

variable {S : Type}

/-- How settings of some kind answer. All that was asked before may have a part in an answer. -/
abbrev Source (S : Type) : Type := S → Key → Option String × S

/-- Settings with the keys that they were asked for and their answers, the first ones first. -/
structure Log (S : Type) where
  source : S
  entries : List (Key × Option String)

def Source.logged (ask : Source S) : Source (Log S) := fun l key =>
  let (raw, source) := ask l.source key
  (raw, ⟨source, l.entries ++ [(key, raw)]⟩)

end Settings

theorem Flag.key_injective {f g : Flag} (h : f.key = g.key) : f = g := by
  cases f <;> cases g <;> first | rfl | cases h

namespace Composition

variable {S : Type}

def reading (raw : Option String) : Bool := (raw.bind Settings.parseBool).getD false

def flagOf (ask : Settings.Source S) (c : Composition) (s : S) (f : Flag) :
    Bool × Composition × S :=
  match c.flags f with
  | some value => (value, c, s)
  | none =>
    let (raw, s) := ask s f.key
    (reading raw, c.settle f (reading raw), s)

def refreshingOf (ask : Settings.Source S) (c : Composition) (s : S) : Bool × Composition × S :=
  match c.flagOf ask s .refreshingTransientBuild with
  | (true, c, s) => (true, c, s)
  | (false, c, s) =>
    match c.flagOf ask s .buildingViewMetadata with
    | (true, c, s) => (false, c, s)
    | (false, c, s) => (c.ids.inMetadata, c, s)

theorem flagOf_ask (c : Composition) (p : Settings.Provider) (f : Flag) :
    c.flagOf Settings.Provider.ask p f = c.flag p f := by
  unfold flagOf flag
  cases c.flags f <;> rfl

theorem refreshingOf_ask (c : Composition) (p : Settings.Provider) :
    c.refreshingOf Settings.Provider.ask p = c.refreshingSection p := by
  unfold refreshingOf refreshingSection
  rw [flagOf_ask]
  generalize c.flag p .refreshingTransientBuild = first
  obtain ⟨_ | _, c₁, p₁⟩ := first
  · dsimp only
    rw [flagOf_ask]
    generalize c₁.flag p₁ .buildingViewMetadata = second
    obtain ⟨_ | _, c₂, p₂⟩ := second <;> rfl
  · rfl

theorem flagOf_of_settled {ask : Settings.Source S} {c : Composition} {f : Flag} {value : Bool}
    (h : c.flags f = some value) (s : S) : c.flagOf ask s f = (value, c, s) := by
  rw [flagOf, h]

theorem flagOf_of_open {ask : Settings.Source S} {c : Composition} {f : Flag}
    (h : c.flags f = none) (s : S) :
    c.flagOf ask s f =
      (reading (ask s f.key).1, c.settle f (reading (ask s f.key).1), (ask s f.key).2) := by
  rw [flagOf, h]

theorem refreshingOf_eq (ask : Settings.Source S) (c : Composition) (s : S) :
    c.refreshingOf ask s =
      let first := c.flagOf ask s .refreshingTransientBuild
      let second := first.2.1.flagOf ask first.2.2 .buildingViewMetadata
      if first.1 then first else (!second.1 && second.2.1.ids.inMetadata, second.2) := by
  unfold refreshingOf
  generalize c.flagOf ask s .refreshingTransientBuild = first
  obtain ⟨_ | _, c₁, s₁⟩ := first
  · dsimp only
    generalize c₁.flagOf ask s₁ .buildingViewMetadata = second
    obtain ⟨_ | _, c₂, s₂⟩ := second <;> rfl
  · rfl

structure Watched (S : Type) where
  pass : Composition
  settings : Settings.Log S

inductive Inquiry (S : Type)
  | flag (f : Flag)
  | refreshing
  | markInitialState (value : Bool)
  | move (m : Move)
  | edit (change : S → S)

def Inquiry.override? (f : Flag) : Inquiry S → Option Bool
  | markInitialState value => if f = .markInitialState then some value else none
  | _ => none

/-- The value that a flag was set to last. -/
def lastOverride (f : Flag) (inquiries : List (Inquiry S)) : Option Bool :=
  (inquiries.filterMap (Inquiry.override? f)).getLast?

/-- The value of a flag by the first answer to the question for it. -/
def firstRead (entries : List (Settings.Key × Option String)) (f : Flag) : Option Bool :=
  (entries.find? fun e => e.1 = f.key).map fun e => reading e.2

theorem lastOverride_of_ne {f : Flag} (h : f ≠ .markInitialState) (done : List (Inquiry S)) :
    lastOverride f done = none := by
  have hnone (q : Inquiry S) (_ : q ∈ done) : q.override? f = none := by
    cases q with
    | markInitialState value => exact if_neg h
    | flag _ | refreshing | move _ | edit _ => rfl
  rw [lastOverride, List.filterMap_eq_nil_iff.2 hnone]
  rfl

theorem lastOverride_snoc (f : Flag) (done : List (Inquiry S)) (q : Inquiry S) :
    lastOverride f (done ++ [q]) = (q.override? f).or (lastOverride f done) := by
  unfold lastOverride
  rw [List.filterMap_append, List.getLast?_append]
  cases h : q.override? f <;> simp [h]

theorem firstRead_append (entries : List (Settings.Key × Option String)) (g : Flag)
    (raw : Option String) (f : Flag) :
    firstRead (entries ++ [(g.key, raw)]) f =
      (firstRead entries f).or (if g = f then some (reading raw) else none) := by
  unfold firstRead
  rw [List.find?_append]
  by_cases hg : g = f
  · subst hg
    cases entries.find? fun e => e.1 = g.key <;> simp
  · have hkey : g.key ≠ f.key := fun h => hg (Flag.key_injective h)
    cases entries.find? fun e => e.1 = f.key <;> simp [hg, hkey]

namespace Watched

variable (ask : Settings.Source S)

def start (ids : Identifier.Allocator) (source : S) : Watched S := ⟨.new ids, ⟨source, []⟩⟩

def flag (w : Watched S) (f : Flag) : Bool × Watched S :=
  let (value, pass, settings) := w.pass.flagOf ask.logged w.settings f
  (value, ⟨pass, settings⟩)

def refreshing (w : Watched S) : Bool × Watched S :=
  let (value, pass, settings) := w.pass.refreshingOf ask.logged w.settings
  (value, ⟨pass, settings⟩)

def act (w : Watched S) : Inquiry S → Watched S
  | .flag f => (w.flag ask f).2
  | .refreshing => (w.refreshing ask).2
  | .markInitialState value => { w with pass := w.pass.settle .markInitialState value }
  | .move m => { w with pass := (w.pass.perform m).2 }
  | .edit change =>
    { w with settings := { w.settings with source := change w.settings.source } }

def run (w : Watched S) (inquiries : List (Inquiry S)) : Watched S := inquiries.foldl (act ask) w

def asked (w : Watched S) (f : Flag) : Nat :=
  w.settings.entries.countP fun e => e.1 = f.key

/-- The flags are settled as they were set and read, and no key was read twice. -/
structure Pinned (override : Flag → Option Bool) (w : Watched S) : Prop where
  once : ∀ f, w.asked f ≤ 1
  flags_eq : ∀ f, w.pass.flags f = (override f).or (firstRead w.settings.entries f)

/-- What asking for a flag does: nothing if the flag is settled, and else its key is read. -/
inductive Asking (f : Flag) : Watched S → Bool → Watched S → Prop
  | settled {w : Watched S} {value : Bool} (h : w.pass.flags f = some value) : Asking f w value w
  | read {w : Watched S} (h : w.pass.flags f = none) (raw : Option String) (source : S) :
      Asking f w (reading raw)
        ⟨w.pass.settle f (reading raw), source, w.settings.entries ++ [(f.key, raw)]⟩

variable {ask} {w : Watched S}

theorem asking_flag (ask : Settings.Source S) (w : Watched S) (f : Flag) :
    Asking f w (w.flag ask f).1 (w.flag ask f).2 := by
  unfold flag
  cases h : w.pass.flags f with
  | some value =>
    rw [flagOf_of_settled h]
    exact .settled h
  | none =>
    rw [flagOf_of_open h]
    exact .read h _ _

theorem refreshing_eq (w : Watched S) :
    w.refreshing ask =
      let first := w.flag ask .refreshingTransientBuild
      let second := first.2.flag ask .buildingViewMetadata
      if first.1 then first else (!second.1 && second.2.pass.ids.inMetadata, second.2) := by
  unfold refreshing flag
  rw [refreshingOf_eq]
  dsimp only
  split <;> rfl

theorem refreshing_keeps {P : Watched S → Prop} (hflag : ∀ w f, P w → P (w.flag ask f).2)
    (h : P w) : P (w.refreshing ask).2 := by
  rw [refreshing_eq]
  dsimp only
  split
  · exact hflag _ _ h
  · exact hflag _ _ (hflag _ _ h)

variable {override : Flag → Option Bool} {f g : Flag} {value : Bool} {w' : Watched S}

theorem flags_perform (c : Composition) (m : Move) : (c.perform m).2.flags = c.flags := by
  cases m with
  | enter component => rfl
  | leave =>
    show c.leave.2.flags = c.flags
    unfold leave
    cases c.opened .composite with
    | nil => rfl
    | cons component rest =>
      generalize c.ids.closeSection = r
      obtain ⟨_ | _, ids⟩ := r <;> rfl
  | ids action => rfl
  | push region item => rfl
  | pop region =>
    show (c.pop region).2.flags = c.flags
    unfold pop
    cases c.opened region <;> rfl

theorem asked_append (pass : Composition) (source : S)
    (entries : List (Settings.Key × Option String)) (raw : Option String) :
    asked ⟨pass, source, entries ++ [(g.key, raw)]⟩ f =
      asked ⟨pass, source, entries⟩ f + if g = f then 1 else 0 := by
  by_cases hg : g = f
  · simp [asked, hg]
  · have hkey : g.key ≠ f.key := fun h => hg (Flag.key_injective h)
    simp [asked, hg, hkey]

theorem firstRead_eq_none_iff : firstRead w.settings.entries f = none ↔ w.asked f = 0 := by
  rw [firstRead, Option.map_eq_none_iff, List.find?_eq_none, asked, List.countP_eq_zero]

theorem Pinned.open_iff (h : Pinned override w) :
    w.pass.flags f = none ↔ override f = none ∧ w.asked f = 0 := by
  rw [h.flags_eq, Option.or_eq_none_iff, firstRead_eq_none_iff]

theorem Asking.flags_eq (h : Asking f w value w') : w'.pass.flags f = some value := by
  cases h with
  | settled h => exact h
  | read h raw source => exact if_pos rfl

theorem Asking.frame (h : Asking g w value w') (hf : f = g → (w.pass.flags f).isSome) :
    w'.pass.flags f = w.pass.flags f ∧ w'.asked f = w.asked f := by
  cases h with
  | settled h => exact ⟨rfl, rfl⟩
  | read h raw source =>
    have hne : f ≠ g := by
      intro heq
      have hsome := hf heq
      rw [heq, h] at hsome
      cases hsome
    refine ⟨if_neg hne, ?_⟩
    rw [asked_append, if_neg hne.symm]
    rfl

theorem Asking.grows (h : Asking g w value w') : w.settings.entries <+: w'.settings.entries := by
  cases h with
  | settled h => exact List.prefix_rfl
  | read h raw source => exact List.prefix_append _ _

theorem Asking.pinned (ha : Asking g w value w') (h : Pinned override w) : Pinned override w' := by
  cases ha with
  | settled _ => exact h
  | read hopen raw source =>
    obtain ⟨-, hasked⟩ := h.open_iff.1 hopen
    refine ⟨fun f => ?_, fun f => ?_⟩
    · rw [asked_append]
      split
      · next heq =>
        subst heq
        exact Nat.le_of_eq (congrArg (· + 1) hasked)
      · exact h.once f
    · show (if f = g then _ else w.pass.flags f) = (override f).or (firstRead _ f)
      rw [firstRead_append, ← Option.or_assoc, ← h.flags_eq]
      by_cases heq : f = g
      · rw [if_pos heq, if_pos heq.symm, heq, hopen]
        rfl
      · rw [if_neg heq, if_neg (Ne.symm heq), Option.or_none]

theorem pinned_start (ids : Identifier.Allocator) (source : S) :
    Pinned (fun _ => none) (start ids source) :=
  ⟨fun _ => Nat.zero_le 1, fun _ => rfl⟩

theorem Pinned.flag (h : Pinned override w) (f : Flag) : Pinned override (w.flag ask f).2 :=
  (asking_flag ask w f).pinned h

/-- A setting by hand takes the place of the ones before it, and hides what was read. -/
theorem Pinned.act (h : Pinned override w) (q : Inquiry S) :
    Pinned (fun f => (q.override? f).or (override f)) (w.act ask q) := by
  cases q with
  | flag f => exact h.flag f
  | refreshing => exact refreshing_keeps (fun _ f hw => hw.flag f) h
  | markInitialState value =>
    refine ⟨h.once, fun f => ?_⟩
    show (if f = .markInitialState then some value else w.pass.flags f) =
      ((if f = .markInitialState then some value else none).or (override f)).or _
    split
    · rfl
    · exact h.flags_eq f
  | move m => exact ⟨h.once, fun f => (congrFun (flags_perform w.pass m) f).trans (h.flags_eq f)⟩
  | edit change => exact ⟨h.once, h.flags_eq⟩

theorem pinned_run (ask : Settings.Source S) (ids : Identifier.Allocator) (source : S)
    (done : List (Inquiry S)) :
    Pinned (fun f => lastOverride f done) ((start ids source).run ask done) := by
  induction done using List.reverseRecOn with
  | nil => exact pinned_start ids source
  | append_singleton done q ih =>
    simp only [lastOverride_snoc]
    rw [run, List.foldl_append]
    exact ih.act q

/-- A settled flag stays as it is until it is set by hand, and its key is not read any more. -/
theorem act_of_settled (ask : Settings.Source S) (h : w.pass.flags f = some value)
    (q : Inquiry S) :
    (w.act ask q).pass.flags f = some ((q.override? f).getD value) ∧
      (w.act ask q).asked f = w.asked f := by
  let P (w' : Watched S) : Prop := w'.pass.flags f = some value ∧ w'.asked f = w.asked f
  have hflag (w' : Watched S) (g : Flag) (hw' : P w') : P (w'.flag ask g).2 := by
    obtain ⟨hsettled, hasked⟩ := hw'
    obtain ⟨hflags, hasked'⟩ :=
      (asking_flag ask w' g).frame fun _ => Option.isSome_of_eq_some hsettled
    exact ⟨hflags.trans hsettled, hasked'.trans hasked⟩
  cases q with
  | flag g => exact hflag w g ⟨h, rfl⟩
  | refreshing => exact refreshing_keeps hflag ⟨h, rfl⟩
  | markInitialState value' =>
    refine ⟨?_, rfl⟩
    show (if f = .markInitialState then some value' else w.pass.flags f) =
      some ((if f = .markInitialState then some value' else none).getD value)
    split
    · rfl
    · exact h
  | move m => exact ⟨(congrFun (flags_perform w.pass m) f).trans h, rfl⟩
  | edit change => exact ⟨h, rfl⟩

theorem run_of_settled (ask : Settings.Source S) (h : w.pass.flags f = some value)
    (later : List (Inquiry S)) :
    (w.run ask later).pass.flags f = some ((lastOverride f later).getD value) ∧
      (w.run ask later).asked f = w.asked f := by
  induction later using List.reverseRecOn with
  | nil => exact ⟨h, rfl⟩
  | append_singleton later q ih =>
    obtain ⟨hsettled, hasked⟩ := ih
    obtain ⟨hsettled', hasked'⟩ := act_of_settled ask hsettled q
    rw [run, List.foldl_append, lastOverride_snoc, Option.getD_or]
    exact ⟨hsettled', hasked'.trans hasked⟩

theorem grows_act (ask : Settings.Source S) (w : Watched S) (q : Inquiry S) :
    w.settings.entries <+: (w.act ask q).settings.entries := by
  cases q with
  | flag f => exact (asking_flag ask w f).grows
  | refreshing =>
    let P (w' : Watched S) : Prop := w.settings.entries <+: w'.settings.entries
    have hflag (w' : Watched S) (f : Flag) (hw' : P w') : P (w'.flag ask f).2 :=
      hw'.trans (asking_flag ask w' f).grows
    exact refreshing_keeps hflag List.prefix_rfl
  | markInitialState value => exact List.prefix_rfl
  | move m => exact List.prefix_rfl
  | edit change => exact List.prefix_rfl

theorem grows_run (ask : Settings.Source S) (w : Watched S) (later : List (Inquiry S)) :
    w.settings.entries <+: (w.run ask later).settings.entries := by
  induction later generalizing w with
  | nil => exact List.prefix_rfl
  | cons q later ih => exact (grows_act ask w q).trans (ih (w.act ask q))

theorem flag_of_settled (h : w.pass.flags f = some value) : w.flag ask f = (value, w) := by
  rw [flag, flagOf_of_settled h]

/-- Asking for a flag asks the settings if it was not set by hand and its key was not read, and it
asks them as they are by then. -/
theorem Pinned.entries_flag (h : Pinned override w) (f : Flag) :
    (w.flag ask f).2.settings.entries =
      w.settings.entries ++
        if override f = none ∧ w.asked f = 0 then [(f.key, (ask w.settings.source f.key).1)]
        else [] := by
  simp only [← h.open_iff]
  cases hf : w.pass.flags f with
  | some value => rw [flag_of_settled hf, if_neg nofun, List.append_nil]
  | none =>
    rw [Watched.flag, flagOf_of_open hf, if_pos rfl]
    rfl

theorem Pinned.answer (h : Pinned override w) (f : Flag) :
    some (w.flag ask f).1 = (override f).or (firstRead (w.flag ask f).2.settings.entries f) := by
  rw [← (h.flag f).flags_eq, (asking_flag ask w f).flags_eq]

theorem ids_flag (w : Watched S) (f : Flag) :
    (w.flag ask f).2.pass.ids = w.pass.ids := by
  cases h : w.pass.flags f with
  | some value => rw [flag_of_settled h]
  | none => rw [flag, flagOf_of_open h]; rfl

theorem Pinned.firstRead_eq (h : Pinned override w) (hoverride : override f = none)
    (hvalue : w.pass.flags f = some value) : firstRead w.settings.entries f = some value := by
  rw [← hvalue, h.flags_eq, hoverride]
  rfl

/-- The flag that comes second counts, and is asked for, where the first one is not set. -/
theorem Pinned.answer_refreshing (h : Pinned override w)
    (htransient : override .refreshingTransientBuild = none)
    (hbuilding : override .buildingViewMetadata = none) :
    let r := w.refreshing ask
    ∃ transient, firstRead r.2.settings.entries .refreshingTransientBuild = some transient ∧
      if transient then r.1 = true ∧ r.2.asked .buildingViewMetadata = w.asked .buildingViewMetadata
      else ∃ building, firstRead r.2.settings.entries .buildingViewMetadata = some building ∧
        r.1 = (w.pass.ids.inMetadata && !building) := by
  intro r
  let first := w.flag ask .refreshingTransientBuild
  let second := first.2.flag ask .buildingViewMetadata
  have hr : r = if first.1 then first
      else (!second.1 && second.2.pass.ids.inMetadata, second.2) := refreshing_eq w
  have hfirst : Asking _ w first.1 first.2 := asking_flag ask w _
  have hpinned : Pinned override first.2 := h.flag _
  refine ⟨first.1, ?_⟩
  cases hvalue : first.1 with
  | true =>
    have hr : r = first := hr.trans (if_pos hvalue)
    rw [hvalue] at hfirst
    have hkept := hfirst.frame (f := .buildingViewMetadata) nofun
    rw [hr]
    exact ⟨hpinned.firstRead_eq htransient hfirst.flags_eq, hvalue, hkept.2⟩
  | false =>
    have hr : r = (!second.1 && second.2.pass.ids.inMetadata, second.2) :=
      hr.trans (if_neg (hvalue ▸ Bool.false_ne_true))
    rw [hvalue] at hfirst
    have hsecond : Asking _ first.2 second.1 second.2 := asking_flag ask first.2 _
    have hpinned' : Pinned override second.2 := hpinned.flag _
    have hkept := hsecond.frame (f := .refreshingTransientBuild) nofun
    have hids : second.2.pass.ids = w.pass.ids := (ids_flag first.2 _).trans (ids_flag w _)
    rw [hr]
    refine ⟨hpinned'.firstRead_eq htransient (hkept.1.trans hfirst.flags_eq), second.1,
      hpinned'.firstRead_eq hbuilding hsecond.flags_eq, ?_⟩
    show (!second.1 && second.2.pass.ids.inMetadata) = _
    rw [hids, Bool.and_comm]

/-- How the flags stand after what was done in a pass, whatever became of the settings meanwhile. -/
structure Steady (ask : Settings.Source S) (done : List (Inquiry S)) (w : Watched S) : Prop where
  once : ∀ f, w.asked f ≤ 1
  /-- The settings are asked for a flag if it was not set by hand and was not asked for before, and
  they answer as they are by then. -/
  asks : ∀ f, (w.flag ask f).2.settings.entries = w.settings.entries ++
    if lastOverride f done = none ∧ w.asked f = 0 then [(f.key, (ask w.settings.source f.key).1)]
    else []
  /-- A flag answers as it was set last, or else as it was read. -/
  answers : ∀ f, some (w.flag ask f).1 =
    (lastOverride f done).or (firstRead (w.flag ask f).2.settings.entries f)
  grows : ∀ later, w.settings.entries <+: (w.run ask later).settings.entries
  /-- From its first answer on a flag changes by hand only, and its key is not read any more. -/
  stays : ∀ f later, let w' := (w.flag ask f).2.run ask later
    w'.flag ask f = ((lastOverride f later).getD (w.flag ask f).1, w') ∧
      w'.asked f = (w.flag ask f).2.asked f
  /-- Likewise from the time when it is set by hand, whether it was read before or not. -/
  staysSet : ∀ value later, let w' := (w.act ask (.markInitialState value)).run ask later
    w'.flag ask .markInitialState = ((lastOverride .markInitialState later).getD value, w') ∧
      w'.asked .markInitialState = w.asked .markInitialState
  /-- A section is refreshed if the transient flag says so, and else in a metadata region if the
  flag of metadata builds does not; that flag is not looked at in the first case. -/
  refreshes : let r := w.refreshing ask
    ∃ transient, firstRead r.2.settings.entries .refreshingTransientBuild = some transient ∧
      if transient then
        r.1 = true ∧ r.2.asked .buildingViewMetadata = w.asked .buildingViewMetadata
      else ∃ building, firstRead r.2.settings.entries .buildingViewMetadata = some building ∧
        r.1 = (w.pass.ids.inMetadata && !building)

/-- The flags of a pass are steady at any time, by settings of any kind. For settings that count how
often they are asked, the flags are those of a pass. -/
theorem flags_steady (ask : Settings.Source S) (ids : Identifier.Allocator) (source : S)
    (done : List (Inquiry S)) :
    ((start ids source).run ask done).Steady ask done ∧
      flagOf Settings.Provider.ask = Composition.flag ∧
      refreshingOf Settings.Provider.ask = refreshingSection := by
  have hpinned := pinned_run ask ids source done
  generalize (start ids source).run ask done = w at hpinned ⊢
  have hsettled {w : Watched S} {f : Flag} {value : Bool} (h : w.pass.flags f = some value)
      (later : List (Inquiry S)) :
      (w.run ask later).flag ask f = ((lastOverride f later).getD value, w.run ask later) ∧
        (w.run ask later).asked f = w.asked f := by
    obtain ⟨hflags, hasked⟩ := run_of_settled ask h later
    exact ⟨flag_of_settled hflags, hasked⟩
  refine ⟨?_, ?_, ?_⟩
  · constructor
    case once => exact hpinned.once
    case asks => exact hpinned.entries_flag
    case answers => exact hpinned.answer
    case grows => exact grows_run ask w
    case stays => exact fun f later => hsettled (asking_flag ask w f).flags_eq later
    case staysSet =>
      intro value later
      exact hsettled (w := w.act ask (.markInitialState value)) (if_pos rfl) later
    case refreshes =>
      have hnone {f : Flag} (hf : f ≠ .markInitialState) : lastOverride f done = none :=
        lastOverride_of_ne hf done
      exact hpinned.answer_refreshing (hnone nofun) (hnone nofun)
  · funext c p f
    exact flagOf_ask c p f
  · funext c p
    exact refreshingOf_ask c p

end Watched

end Composition

end ViewState
