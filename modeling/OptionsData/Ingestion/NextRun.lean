import OptionsData.Ingestion.Scheduler

namespace OptionsProof.NextRun

open Kit OptionsModel OptionsProof.Scheduler

variable {z : Zone} {runTime : TimeOfDay} {now : ℤ}

def EndsAfter (candidate : ℤ) (rounds : ℕ) : Prop :=
  (∀ i < rounds, 5 ≤ weekday (date (candidate + i * DAY))) ∧ weekday (date (candidate + rounds * DAY)) < 5

theorem date_add_days (candidate : ℤ) (days : ℕ) : date (candidate + days * DAY) = date candidate + days :=
  Int.add_mul_ediv_right _ _ (by decide)

theorem skipWeekend_of_ends {candidate : ℤ} {rounds : ℕ} (ends : EndsAfter candidate rounds) :
    skipWeekend candidate = candidate + rounds * DAY := by
  induction rounds generalizing candidate with
  | zero =>
    have workday := ends.2
    rw [Nat.cast_zero, zero_mul, add_zero] at workday ⊢
    rw [skipWeekend, if_neg (not_le.mpr workday)]
  | succ rounds ih =>
    have first := ends.1 0 (Nat.succ_pos rounds)
    rw [Nat.cast_zero, zero_mul, add_zero] at first
    have shift (days : ℕ) : candidate + (days + 1 : ℕ) * DAY = candidate + DAY + days * DAY := by
      push_cast
      ring
    rw [skipWeekend, if_pos first, shift]
    apply ih
    refine ⟨fun i before => ?_, ?_⟩
    · rw [← shift]
      exact ends.1 (i + 1) (Nat.succ_lt_succ before)
    · rw [← shift]
      exact ends.2

theorem ends_within_two (candidate : ℤ) : ∃ rounds ≤ 2, EndsAfter candidate rounds := by
  simp only [EndsAfter, date_add_days]
  generalize date candidate = day
  unfold weekday
  by_cases workday : (day + 3) % 7 < 5
  · exact ⟨0, by decide, by simp, by simpa using workday⟩
  · by_cases sunday : (day + 3) % 7 = 6
    · refine ⟨1, by decide, fun i before => ?_, by push_cast; omega⟩
      obtain rfl := Nat.lt_one_iff.mp before
      push_cast
      omega
    · refine ⟨2, le_rfl, fun i before => ?_, by push_cast; omega⟩
      have either : i = 0 ∨ i = 1 := by omega
      rcases either with rfl | rfl
      · push_cast
        omega
      · push_cast
        omega

theorem nextRunAt_least_slot (quiet : z.QuietAt Workday) (runTime : TimeOfDay) (now : ℤ) :
    now < nextRunAt z now runTime ∧ Slot z runTime (nextRunAt z now runTime) ∧
      (∀ s, now < s → s < nextRunAt z now runTime → ¬ Slot z runTime s) ∧
      ∀ candidate, ∃ rounds ≤ 2, EndsAfter candidate rounds ∧ skipWeekend candidate = candidate + rounds * DAY := by
  obtain ⟨slot, ahead, least⟩ := nextRunAt_least quiet runTime now
  refine ⟨ahead, slot, fun s after before other => ?_, fun candidate => ?_⟩
  · exact before.not_ge (least s other after)
  · obtain ⟨rounds, few, ends⟩ := ends_within_two candidate
    exact ⟨rounds, few, ends, skipWeekend_of_ends ends⟩

/-- New York in 2026, with summer time from 8 March to 1 November. -/
def newYork2026 : Zone where
  utcOffset instant := if 1772953200000000 ≤ instant ∧ instant < 1793512800000000 then -14400000000 else -18000000000
  wallOffset reading := if 1772938800000000 ≤ reading ∧ reading < 1793498400000000 then -14400000000 else -18000000000

theorem newYork2026_quiet : newYork2026.QuietAt Workday where
  bounded := by
    refine ⟨18000000000, fun instant => ?_⟩
    simp only [newYork2026]
    split
    · decide
    · decide
  unchanged instant reading workday low high := by
    simp only [Workday, weekday, date, DAY] at workday
    simp only [newYork2026, Zone.wall] at low high ⊢
    split at low <;> split at low <;> split_ifs at high ⊢ <;> omega
  reads instant workday once := by
    simp only [Workday, weekday, date, DAY, newYork2026, Zone.wall] at workday ⊢
    split at workday <;> split_ifs <;> omega

/-- Called at the very instant of Friday's run, before the weekend on which summer time begins. -/
theorem nextRunAt_least_slot_friday :
    let runTime : TimeOfDay := ⟨59400000000, by decide, by decide⟩
    let monday := 1773088200000000
    nextRunAt newYork2026 1772832600000000 runTime = monday ∧ 1772832600000000 < monday ∧
      Slot newYork2026 runTime monday ∧ ∀ s, 1772832600000000 < s → s < monday → ¬ Slot newYork2026 runTime s := by
  intro runTime monday
  have computed : nextRunAt newYork2026 1772832600000000 runTime = monday := by decide +kernel
  obtain ⟨ahead, slot, least, -⟩ := nextRunAt_least_slot newYork2026_quiet runTime 1772832600000000
  rw [computed] at ahead slot least
  exact ⟨computed, ahead, slot, least⟩

end OptionsProof.NextRun
