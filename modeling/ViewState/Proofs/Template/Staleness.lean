import ViewState.Proofs.Template.Failing

/-!
The check of a compiled template, which works on words of 64 bits, against the rule for periods in
seconds, which is one of unbounded integers. A product or a sum that leaves the words is held at the
greatest word; no time of the clock and no time of a change is behind that, so the comparisons come
out as those of the integers, at both ends of the range.
-/
namespace ViewState

namespace Word

def mul (a b : UInt64) : UInt64 := clamp (a.toNat * b.toNat)

/-- What is held at the greatest word, once and then again, is below the same words as the sum of
the numbers. -/
theorem add_clamp_lt_iff {a b : UInt64} {n : Nat} :
    add a (clamp n) < b ↔ a.toNat + n < b.toNat := by
  have hsize : UInt64.size = 18446744073709551616 := rfl
  have hb := b.toNat_lt
  rw [add_lt_iff, toNat_clamp]
  omega

end Word

namespace Template

/-- A period has gone by since a template was compiled. All times are in milliseconds; a period is
in seconds, and none that is negative or nothing ever goes by. -/
def Elapsed (seconds created now : Int) : Prop :=
  0 < seconds ∧ created + 1000 * seconds < now

/-- A template is to be compiled again: always if the period is nothing, and else if it has gone by
and the source is gone, which is told as time zero, or was changed after it. -/
def Outdated (seconds created now changed : Int) : Prop :=
  seconds = 0 ∨
    Elapsed seconds created now ∧ (changed = 0 ∨ created + 1000 * seconds < changed)

instance (seconds created now : Int) : Decidable (Elapsed seconds created now) :=
  inferInstanceAs (Decidable (_ ∧ _))

instance (seconds created now changed : Int) : Decidable (Outdated seconds created now changed) :=
  inferInstanceAs (Decidable (_ ∨ _))

theorem Elapsed.outdated_iff {seconds created now : Int} (h : Elapsed seconds created now)
    (changed : Int) :
    Outdated seconds created now changed ↔
      changed = 0 ∨ created + 1000 * seconds < changed := by
  have hne : seconds ≠ 0 := Int.ne_of_gt h.1
  simp [Outdated, h, hne]

theorem outdated_iff_of_not_elapsed {seconds created now : Int}
    (h : ¬ Elapsed seconds created now) (changed : Int) :
    Outdated seconds created now changed ↔ seconds = 0 := by
  simp [Outdated, h]

/-- The window of a period that is a signed word. The milliseconds are counted in words that have no
sign and stop at the greatest one. -/
def Window.ofWord (seconds : Int64) : Window :=
  if seconds < 0 then infinite
  else if seconds = 0 then disabled
  else every (Word.mul seconds.toUInt64 1000)

/-- Of a period that is not negative, dropping the sign leaves the number. -/
theorem toNat_toUInt64 {seconds : Int64} (h : 0 ≤ seconds.toInt) :
    seconds.toUInt64.toNat = seconds.toInt.toNat :=
  Int64.toNat_toUInt64_of_le (Int64.le_iff_toInt_le.2 h)

theorem Window.ofWord_eq (seconds : Int64) : ofWord seconds = ofSeconds seconds.toInt := by
  have hneg : seconds < 0 ↔ seconds.toInt < 0 := Int64.lt_iff_toInt_lt
  have hzero : seconds = 0 ↔ seconds.toInt = 0 := Int64.toInt_inj.symm
  unfold ofWord ofSeconds
  simp only [hneg, hzero]
  by_cases hsign : seconds.toInt < 0
  · rw [if_pos hsign, if_pos hsign]
  · rw [if_neg hsign, if_neg hsign, Word.mul, toNat_toUInt64 (Int.not_lt.1 hsign), Nat.mul_comm]
    rfl

/-- The milliseconds of the longest period are not a word any more. -/
example : Window.ofWord Int64.maxValue = .every Word.greatest := by decide

theorem Window.end_lt_iff {seconds : Int} (hpos : 0 < seconds) (created b : UInt64) :
    Word.add created (Word.clamp (1000 * seconds.toNat)) < b ↔
      (created.toNat : Int) + 1000 * seconds < b.toNat := by
  rw [Word.add_clamp_lt_iff]
  omega

namespace Cache

variable {α : Type}

/-- The check of a template in integers. The source is looked at exactly if the period has gone by;
without a look nothing of the source has a part in the answer. -/
theorem needsRefresh_eq {c : Cache α} {ns : Namespace} {seconds : Int}
    (hwindow : c.windows ns = .ofSeconds seconds) (w : Workshop α) (now : UInt64) (h : Handle α) :
    c.needsRefresh w now ns h =
      if Elapsed seconds h.createdAt.toNat now.toNat then
        (((w.lastModified h.source).mapError (.staleness (w.displayName h.source))).map
            fun changed => decide (Outdated seconds h.createdAt.toNat now.toNat changed.toNat),
          { c with lookups := c.lookups + 1 })
      else (.ok (decide (seconds = 0)), c) := by
  unfold needsRefresh
  rw [hwindow, Window.ofSeconds]
  rcases Int.lt_trichotomy seconds 0 with hneg | rfl | hpos
  · have hnever : ¬ Elapsed seconds h.createdAt.toNat now.toNat := fun he =>
      Int.lt_asymm hneg he.1
    simp [hneg, hnever, Int.ne_of_lt hneg]
  · simp [Elapsed]
  · have hne : seconds ≠ 0 := Int.ne_of_gt hpos
    have hgone : Elapsed seconds h.createdAt.toNat now.toNat ↔
        Word.add h.createdAt (Word.clamp (1000 * seconds.toNat)) < now := by
      rw [Window.end_lt_iff hpos]
      exact and_iff_right hpos
    rw [if_neg (Int.lt_asymm hpos), if_neg hne]
    by_cases helapsed : Elapsed seconds h.createdAt.toNat now.toNat
    · have hlate := UInt64.not_le.2 (hgone.1 helapsed)
      simp only [if_pos helapsed, if_neg hlate]
      cases w.lastModified h.source with
      | error cause => rfl
      | ok changed =>
        have hzero : changed = 0 ↔ (changed.toNat : Int) = 0 := by
          rw [← UInt64.toNat_inj, Int.natCast_eq_zero]
          rfl
        simp [Except.mapError, Except.map, helapsed.outdated_iff, Window.end_lt_iff hpos, hzero]
    · have hearly := UInt64.not_lt.1 (mt hgone.2 helapsed)
      simp only [if_neg helapsed, if_pos hearly, hne, decide_false]

/-- Whatever the periods of the windows, the time of a compilation, the clock and the time that is
told for a source, the check comes out as the rule of the integers does: never for a period below
zero, always for zero, and for a positive one exactly if it has gone by and the source is gone or
was changed after it. The source is asked exactly if the period has gone by; if it does not tell a
time then, the check fails. The windows counted in words are those counted in integers. -/
theorem needsRefresh_exact (c : Cache α) (periods : Namespace → Int64) (w : Workshop α)
    (now : UInt64) (ns : Namespace) (h : Handle α) :
    let c : Cache α := { c with windows := fun ns => .ofWord (periods ns) }
    let seconds := (periods ns).toInt
    let created : Int := h.createdAt.toNat
    (∀ changed, (c.needsRefresh { w with lastModified := fun _ => .ok changed } now ns h).1 =
      .ok (decide (Outdated seconds created now.toNat changed.toNat))) ∧
    (∀ ns, c.windows ns = .ofSeconds (periods ns).toInt) ∧
    c.needsRefresh w now ns h =
      if Elapsed seconds created now.toNat then
        (((w.lastModified h.source).mapError (.staleness (w.displayName h.source))).map
            fun changed => decide (Outdated seconds created now.toNat changed.toNat),
          { c with lookups := c.lookups + 1 })
      else (.ok (decide (seconds = 0)), c) := by
  intro c seconds created
  have hwindow (ns : Namespace) : c.windows ns = .ofSeconds (periods ns).toInt :=
    Window.ofWord_eq (periods ns)
  have hown : c.windows ns = .ofSeconds seconds := hwindow ns
  refine ⟨fun changed => ?_, hwindow, needsRefresh_eq hown w now h⟩
  rw [needsRefresh_eq hown]
  by_cases helapsed : Elapsed seconds created now.toNat
  · rw [if_pos helapsed]
    rfl
  · rw [if_neg helapsed]
    simp only [outdated_iff_of_not_elapsed helapsed]

end Cache

end Template

end ViewState
