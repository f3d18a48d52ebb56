import ViewState.Proofs.SortedMap
import ViewState.Template.Cache

/-!
Runs of calls on one cache of templates. Each call comes at a time of its own and finds the outside
as it is then: sources change, and look-ups and compilations fail, as they like. What a call for a
template can come to is said once, for both of them; what holds over whole runs follows from that.
-/
namespace ViewState.Template

variable {α : Type}

/-- The window of a compiled template has gone by, and its source is gone or has changed since. -/
def Handle.Stale (h : Handle α) (window : Window) (w : Workshop α) (now : UInt64) : Prop :=
  match window with
  | .infinite => False
  | .disabled => True
  | .every milliseconds =>
    h.createdAt.toNat + milliseconds.toNat < now.toNat ∧
      ∃ modified, w.lastModified h.source = .ok modified ∧
        (modified = 0 ∨ h.createdAt.toNat + milliseconds.toNat < modified.toNat)

def Handle.Bakes (h : Handle α) (known : Parameters) : Prop :=
  ∀ parameter ∈ known.keys, h.parameters.contains parameter

namespace Cache

/-- A call, with the outside as it is then and at its time if it looks for a template. -/
inductive Call (α : Type)
  | get (w : Workshop α) (now : UInt64) (ns : Namespace) (source : String)
  | getWith (w : Workshop α) (now : UInt64) (source : String) (known : Parameters)
  | invalidate (ns : Namespace) (source : String)

inductive Answer (α : Type)
  | template (result : Except Failure (Handle α))
  | templateWith (result : Except Failure (Handle α)) (known : Parameters)
  | dropped (existed : Bool)

def Answer.handle? : Answer α → Option (Handle α)
  | template result | templateWith result _ => result.toOption
  | dropped _ => none

namespace Call

def pair : Call α → Namespace × String
  | get _ _ ns source => (ns, source)
  | getWith _ _ source _ => (.standard, source)
  | invalidate ns source => (ns, source)

def drops : Call α → Bool
  | invalidate _ _ => true
  | _ => false

def outside? : Call α → Option (Workshop α × UInt64)
  | get w now _ _ | getWith w now _ _ => some (w, now)
  | invalidate _ _ => none

def Accepts (windows : Windows) : Call α → Handle α → Prop
  | get w now ns _, h => ¬ h.Stale (windows ns) w now
  | getWith w now _ known, h => h.Bakes known ∧ ¬ h.Stale (windows .standard) w now
  | invalidate _ _, _ => False

end Call

def perform (c : Cache α) : Call α → Answer α × Cache α
  | .get w now ns source =>
    let (result, c) := c.get w now ns source
    (.template result, c)
  | .getWith w now source known =>
    let (result, known, c) := c.getWith w now source known
    (.templateWith result known, c)
  | .invalidate ns source =>
    let (existed, c) := c.invalidate ns source
    (.dropped existed, c)

def after (c : Cache α) (calls : List (Call α)) : Cache α :=
  calls.foldl (fun c call => (c.perform call).2) c

/-- A call with its answer, and how many templates were compiled for it. -/
structure Event (α : Type) where
  call : Call α
  answer : Answer α
  compilations : Nat

def event (c : Cache α) (call : Call α) : Event α :=
  ⟨call, (c.perform call).1, (c.perform call).2.compiled - c.compiled⟩

def events (c : Cache α) : List (Call α) → List (Event α)
  | [] => []
  | call :: calls => c.event call :: (c.perform call).2.events calls

theorem after_append_singleton (c : Cache α) (calls : List (Call α)) (call : Call α) :
    c.after (calls ++ [call]) = ((c.after calls).perform call).2 :=
  List.foldl_append

theorem events_append_singleton (c : Cache α) (calls : List (Call α)) (call : Call α) :
    c.events (calls ++ [call]) = c.events calls ++ [(c.after calls).event call] := by
  induction calls generalizing c with
  | nil => rfl
  | cons call' calls ih =>
    rw [List.cons_append, events, ih]
    rfl

/-- Keeps a template, unless its part of the cache keeps nothing. -/
def keep (c : Cache α) (ns : Namespace) (source : String) (h : Handle α) : Cache α :=
  if c.windows ns = .disabled then c else c.setEntries ns ((c.entries ns).insert source h)

section Keep

variable (c : Cache α) (ns : Namespace) (source : String) (h : Handle α)

@[simp] theorem windows_keep : (c.keep ns source h).windows = c.windows := by
  unfold keep
  split <;> rfl

@[simp] theorem compiled_keep : (c.keep ns source h).compiled = c.compiled := by
  unfold keep
  split <;> rfl

theorem get?_setEntries (ns : Namespace) (entries : SortedMap String (Handle α)) (ns' : Namespace)
    (source' : String) :
    (c.setEntries ns entries).get? ns' source' =
      if ns' = ns then entries.get? source' else c.get? ns' source' := by
  unfold setEntries get?
  by_cases hns : ns' = ns <;> simp [hns]

theorem get?_keep (ns' : Namespace) (source' : String) :
    (c.keep ns source h).get? ns' source' =
      if (ns', source') = (ns, source) ∧ c.windows ns ≠ .disabled then some h
      else c.get? ns' source' := by
  unfold keep
  by_cases hdisabled : c.windows ns = .disabled
  · simp [hdisabled]
  · rw [if_neg hdisabled, get?_setEntries, SortedMap.get?_insert]
    by_cases hns : ns' = ns <;> by_cases hsource : source' = source <;>
      simp [hns, hsource, hdisabled, get?]

theorem get?_invalidate (ns' : Namespace) (source' : String) :
    (c.invalidate ns source).2.get? ns' source' =
      if (ns', source') = (ns, source) then none else c.get? ns' source' := by
  unfold invalidate
  rw [get?_setEntries, SortedMap.get?_erase]
  by_cases hns : ns' = ns <;> by_cases hsource : source' = source <;> simp [hns, hsource, get?]

end Keep

theorem compile_eq (c : Cache α) (w : Workshop α) (now : UInt64) (ns : Namespace) (source : String)
    (parameters : Parameters) :
    c.compile w now ns source parameters =
      match w.compile ns source with
      | .error e => (.error e, c)
      | .ok artifact =>
        let h : Handle α := ⟨source, artifact, now, parameters, c.compiled⟩
        (.ok h, { c with compiled := c.compiled + 1 }.keep ns source h) := by
  unfold compile keep
  cases w.compile ns source with
  | error e => rfl
  | ok artifact =>
    dsimp only
    split <;> rfl

/-- What the check of a template that is held can come to. It leaves the cache as it is, but for the
number of look-ups. -/
inductive Check (c : Cache α) (w : Workshop α) (now : UInt64) (ns : Namespace) (h : Handle α) :
    Except Failure Bool → Cache α → Prop
  | failed {cause : String} (hlookup : w.lastModified h.source = .error cause) (lookups : Nat) :
      Check c w now ns h (.error (.staleness (w.displayName h.source) cause))
        { c with lookups := lookups }
  | passed (hfresh : ¬ h.Stale (c.windows ns) w now) (lookups : Nat) :
      Check c w now ns h (.ok false) { c with lookups := lookups }
  | stale (hstale : h.Stale (c.windows ns) w now) (lookups : Nat) :
      Check c w now ns h (.ok true) { c with lookups := lookups }

theorem check_needsRefresh (c : Cache α) (w : Workshop α) (now : UInt64) (ns : Namespace)
    (h : Handle α) :
    c.Check w now ns h (c.needsRefresh w now ns h).1 (c.needsRefresh w now ns h).2 := by
  unfold needsRefresh
  cases hwindow : c.windows ns with
  | infinite => exact .passed (by simp [hwindow, Handle.Stale]) _
  | disabled => exact .stale (by simp [hwindow, Handle.Stale]) _
  | every milliseconds =>
    dsimp only
    by_cases hnow : now ≤ Word.add h.createdAt milliseconds
    · rw [if_pos hnow]
      refine .passed ?_ _
      rw [hwindow]
      intro hstale
      exact absurd hnow (UInt64.not_le.2 (Word.add_lt_iff.2 hstale.1))
    · rw [if_neg hnow]
      have hpast := Word.add_lt_iff.1 (UInt64.not_le.1 hnow)
      cases hlookup : w.lastModified h.source with
      | error cause => exact .failed hlookup _
      | ok modified =>
        have hiff : h.Stale (c.windows ns) w now ↔
            (modified = 0 ∨ Word.add h.createdAt milliseconds < modified) := by
          simp [hwindow, Handle.Stale, hpast, hlookup, Word.add_lt_iff]
        dsimp only
        by_cases hchanged : modified = 0 ∨ Word.add h.createdAt milliseconds < modified
        · rw [show (modified = 0 || Word.add h.createdAt milliseconds < modified) = true by
            simpa using hchanged]
          exact .stale (hiff.2 hchanged) _
        · rw [show (modified = 0 || Word.add h.createdAt milliseconds < modified) = false by
            simpa using hchanged]
          exact .passed (fun hstale => hchanged (hiff.1 hstale)) _

/-- What a call for a template can come to, if it takes what is held as long as `Good` says so and
compiles with `parameters`. -/
inductive Outcome (c : Cache α) (w : Workshop α) (now : UInt64) (ns : Namespace) (source : String)
    (Good : Handle α → Prop) (parameters : Parameters) : Except Failure (Handle α) → Cache α → Prop
  | unchecked {held : Handle α} {cause : String} (hheld : c.get? ns source = some held)
      (hlookup : w.lastModified held.source = .error cause) (lookups : Nat) :
      Outcome c w now ns source Good parameters
        (.error (.staleness (w.displayName held.source) cause)) { c with lookups := lookups }
  | uncompiled {e : Failure} (hcompile : w.compile ns source = .error e) (lookups : Nat) :
      Outcome c w now ns source Good parameters (.error e) { c with lookups := lookups }
  | served {held : Handle α} (hheld : c.get? ns source = some held) (hgood : Good held)
      (lookups : Nat) :
      Outcome c w now ns source Good parameters (.ok held) { c with lookups := lookups }
  | compiled {artifact : α} (hcompile : w.compile ns source = .ok artifact)
      (hbad : ∀ held, c.get? ns source = some held → ¬ Good held) (lookups : Nat)
      {h : Handle α} (hh : h = ⟨source, artifact, now, parameters, c.compiled⟩) :
      Outcome c w now ns source Good parameters (.ok h)
        ({ c with lookups := lookups, compiled := c.compiled + 1 }.keep ns source h)

section Outcome

variable (c : Cache α) (w : Workshop α) (now : UInt64) (ns : Namespace) (source : String)

theorem outcome_compile {Good : Handle α → Prop} (parameters : Parameters)
    (hbad : ∀ held, c.get? ns source = some held → ¬ Good held) (lookups : Nat) :
    c.Outcome w now ns source Good parameters
      (compile { c with lookups := lookups } w now ns source parameters).1
      (compile { c with lookups := lookups } w now ns source parameters).2 := by
  rw [compile_eq]
  cases hcompile : w.compile ns source with
  | error e => exact .uncompiled hcompile lookups
  | ok artifact => exact .compiled hcompile hbad lookups rfl

/-- A template that is held is checked, and compiled again if it is stale. -/
def renew (parameters : Parameters) (held : Handle α) : Except Failure (Handle α) × Cache α :=
  match c.needsRefresh w now ns held with
  | (.error e, c) => (.error e, c)
  | (.ok false, c) => (.ok held, c)
  | (.ok true, c) => c.compile w now ns source parameters

theorem outcome_renew {Good : Handle α → Prop} (parameters : Parameters) {held : Handle α}
    (hheld : c.get? ns source = some held)
    (hgood : Good held ↔ ¬ held.Stale (c.windows ns) w now) :
    c.Outcome w now ns source Good parameters (c.renew w now ns source parameters held).1
      (c.renew w now ns source parameters held).2 := by
  have hcheck := c.check_needsRefresh w now ns held
  unfold renew
  generalize c.needsRefresh w now ns held = checked at hcheck ⊢
  obtain ⟨result, c'⟩ := checked
  cases hcheck with
  | failed hlookup lookups => exact .unchecked hheld hlookup lookups
  | passed hfresh lookups => exact .served hheld (hgood.2 hfresh) lookups
  | stale hstale lookups =>
    apply outcome_compile
    intro held' hheld' hgood'
    obtain rfl : held = held' := Option.some.inj (hheld.symm.trans hheld')
    exact hgood.1 hgood' hstale

theorem outcome_get :
    c.Outcome w now ns source (fun held => ¬ held.Stale (c.windows ns) w now)
      (inherited ns (c.get? ns source)) (c.get w now ns source).1 (c.get w now ns source).2 := by
  unfold get
  cases hheld : c.get? ns source with
  | none =>
    have hnone : inherited ns (none : Option (Handle α)) = ∅ := by cases ns <;> rfl
    rw [hnone]
    exact c.outcome_compile w now ns source ∅ (by simp [hheld]) c.lookups
  | some held => exact c.outcome_renew w now ns source _ hheld Iff.rfl

/-- A template for someone who knows some parameters. One that does not have all of them is compiled
again without a check. -/
def seek (known : Parameters) : Except Failure (Handle α) × Cache α :=
  let parameters := SortedSet.union (inherited .standard (c.get? .standard source)) known
  match c.get? .standard source with
  | none => c.compile w now .standard source parameters
  | some held =>
    if known.keys.all held.parameters.contains then c.renew w now .standard source parameters held
    else c.compile w now .standard source parameters

def inform (known : Parameters) (found : Except Failure (Handle α) × Cache α) :
    Except Failure (Handle α) × Parameters × Cache α :=
  let (result, c) := found
  match result with
  | .ok h => (.ok h, SortedSet.union known h.parameters, c)
  | .error e => (.error e, known, c)

theorem fst_inform (known : Parameters) (found : Except Failure (Handle α) × Cache α) :
    (inform known found).1 = found.1 := by
  obtain ⟨result, c⟩ := found
  cases result <;> rfl

theorem cache_inform (known : Parameters) (found : Except Failure (Handle α) × Cache α) :
    (inform known found).2.2 = found.2 := by
  obtain ⟨result, c⟩ := found
  cases result <;> rfl

theorem getWith_eq (known : Parameters) :
    c.getWith w now source known = inform known (c.seek w now source known) := by
  unfold getWith seek inform renew
  cases c.get? .standard source with
  | none => rfl
  | some held => rfl

theorem outcome_seek (known : Parameters) :
    c.Outcome w now .standard source
      (fun held => held.Bakes known ∧ ¬ held.Stale (c.windows .standard) w now)
      (SortedSet.union (inherited .standard (c.get? .standard source)) known)
      (c.seek w now source known).1 (c.seek w now source known).2 := by
  unfold seek
  cases hheld : c.get? .standard source with
  | none => exact c.outcome_compile w now .standard source _ (by simp [hheld]) c.lookups
  | some held =>
    have hall : known.keys.all held.parameters.contains ↔ held.Bakes known := List.all_eq_true
    by_cases hbakes : held.Bakes known
    · simp only [hall.2 hbakes, if_true]
      exact c.outcome_renew w now .standard source _ hheld (by simp [hbakes])
    · simp only [mt hall.1 hbakes]
      apply c.outcome_compile w now .standard source _ _ c.lookups
      intro held' hheld' hgood'
      obtain rfl : held = held' := Option.some.inj (hheld.symm.trans hheld')
      exact hbakes hgood'.1

theorem outcome_getWith (known : Parameters) :
    c.Outcome w now .standard source
      (fun held => held.Bakes known ∧ ¬ held.Stale (c.windows .standard) w now)
      (SortedSet.union (inherited .standard (c.get? .standard source)) known)
      (c.getWith w now source known).1 (c.getWith w now source known).2.2 := by
  rw [getWith_eq, fst_inform, cache_inform]
  exact c.outcome_seek w now source known

end Outcome

/-- The parameters that a template would be compiled with for a call. -/
def parametersFor (c : Cache α) : Call α → Parameters
  | .get _ _ ns source => inherited ns (c.get? ns source)
  | .getWith _ _ source known =>
    SortedSet.union (inherited .standard (c.get? .standard source)) known
  | .invalidate _ _ => ∅

theorem outcome_perform (c : Cache α) (call : Call α) :
    (∃ ns source, call = .invalidate ns source) ∨
      call.drops = false ∧ ∃ w now result, call.outside? = some (w, now) ∧
        (c.perform call).1.handle? = result.toOption ∧
          c.Outcome w now call.pair.1 call.pair.2 (call.Accepts c.windows) (c.parametersFor call)
            result (c.perform call).2 := by
  cases call with
  | get w now ns source => exact .inr ⟨rfl, w, now, _, rfl, rfl, c.outcome_get w now ns source⟩
  | getWith w now source known =>
    exact .inr ⟨rfl, w, now, _, rfl, rfl, c.outcome_getWith w now source known⟩
  | invalidate ns source => exact .inl ⟨ns, source, rfl⟩

end Cache

end ViewState.Template
