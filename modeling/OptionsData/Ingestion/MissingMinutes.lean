import OptionsData.Ingestion.GapDetection

namespace OptionsProof.MissingMinutes

open Kit OptionsModel OptionsProof.GapDetection

variable {z : Zone} {existing : Finset ℤ} {start stop t : ℤ}

/-- A whole session minute of the range is inside a gap exactly if it is not stored. -/
def ReportsMissing (z : Zone) (existing : Finset ℤ) (start stop : ℤ) : Prop :=
  ∀ t, SessionMinute z start stop t →
    ((∃ g ∈ findGaps z existing start stop 1, g.start ≤ t ∧ t ≤ g.stop) ↔ t ∉ existing)

/-- The expected minutes of the instant's day do not begin on a whole minute. -/
def OffGrid (z : Zone) (start t : ℤ) : Prop := ¬ MINUTE ∣ firstExpected z start t

/-- No expected minute follows the instant, or the next one is stored. -/
def NextStored (z : Zone) (existing : Finset ℤ) (start stop t : ℤ) : Prop :=
  ∀ next ∈ (expectedBarMinutes z start stop).find? (t < ·), next ∈ existing

theorem find_next (quiet : z.QuietAt InSession) {next : ℤ}
    (found : next ∈ (expectedBarMinutes z start stop).find? (t < ·)) :
    next ∈ expectedBarMinutes z start stop ∧ t < next ∧
      ∀ e ∈ expectedBarMinutes z start stop, t < e → next ≤ e := by
  have listed := List.mem_of_find?_eq_some found
  obtain ⟨after, before, rest, same, skipped⟩ := List.find?_eq_some_iff_append.mp found
  refine ⟨listed, of_decide_eq_true after, fun e expected later => ?_⟩
  have sorted : (expectedBarMinutes z start stop).Pairwise (· < ·) := expectedBarMinutes_sorted quiet
  rw [same, List.pairwise_append] at sorted
  rw [same] at expected
  rcases List.mem_append.mp expected with early | late
  · have passed := skipped e early
    simp [later] at passed
  · rcases List.mem_cons.mp late with rfl | beyond
    · exact le_rfl
    · exact (List.rel_of_pairwise_cons sorted.2.1 beyond).le

theorem offGrid_expected (quiet : z.QuietAt InSession) (minute : SessionMinute z start stop t)
    (offGrid : OffGrid z start t) {c : ℤ} (expected : c ∈ expectedBarMinutes z start stop)
    (low : firstExpected z start t ≤ c) (high : c ≤ t) : ¬ MINUTE ∣ c := by
  intro whole
  obtain ⟨session, today, -⟩ := firstReading_inSession quiet minute
  obtain ⟨after, before, session', step⟩ := (mem_expectedBarMinutes quiet).mp expected
  have here : date (z.wall c) = date (z.wall t) := by
    apply le_antisymm
    · apply date_mono
      rw [quiet.wall_le minute.session, quiet.utc_wall minute.session]
      exact high
    · rw [← today]
      apply date_mono
      rw [quiet.le_wall session]
      exact low
  have same : firstExpected z start c = firstExpected z start t := by
    rw [firstExpected, firstExpected, here]
  have aligned := (mem_expected_iff quiet ⟨after, before, session', whole⟩).mp expected
  rw [same] at aligned
  exact offGrid aligned

theorem reported_off_grid (quiet : z.QuietAt InSession) (whole : ∀ stored ∈ existing, MINUTE ∣ stored)
    (minute : SessionMinute z start stop t) (offGrid : OffGrid z start t) :
    (∃ g ∈ findGaps z existing start stop 1, g.start ≤ t ∧ t ≤ g.stop) ↔ ¬ NextStored z existing start stop t := by
  have unexpected : t ∉ expectedBarMinutes z start stop := fun expected =>
    offGrid ((mem_expected_iff quiet minute).mp expected)
  rw [in_gap_iff quiet]
  constructor
  · intro premise stored
    obtain ⟨a, expected, b, expected', low, high, missing⟩ := premise
    have later : t < b := lt_of_le_of_ne high fun same => unexpected (same ▸ expected')
    cases found : (expectedBarMinutes z start stop).find? (t < ·) with
    | none => exact absurd later (by simpa using List.find?_eq_none.mp found b expected')
    | some next =>
      obtain ⟨listed, after, first⟩ := find_next quiet found
      exact missing next listed (low.trans after.le) (first b expected' later) (stored next found)
  · intro premise
    rw [NextStored] at premise
    push Not at premise
    obtain ⟨next, found, missing⟩ := premise
    obtain ⟨listed, after, first⟩ := find_next quiet found
    obtain ⟨expected, early⟩ := firstExpected_mem quiet minute
    refine ⟨_, expected, next, listed, early, after.le, fun c member low high stored => ?_⟩
    rcases le_or_gt c t with before | later
    · exact offGrid_expected quiet minute offGrid member low before (whole c stored)
    · exact missing (le_antisymm high (first c member later) ▸ stored)

theorem reported_on_grid (quiet : z.QuietAt InSession) (minute : SessionMinute z start stop t)
    (onGrid : ¬ OffGrid z start t) :
    (∃ g ∈ findGaps z existing start stop 1, g.start ≤ t ∧ t ≤ g.stop) ↔ t ∉ existing := by
  have expected := (mem_expected_iff quiet minute).mpr (not_not.mp onGrid)
  rw [in_gap_iff quiet]
  constructor
  · intro premise
    obtain ⟨a, -, b, -, low, high, missing⟩ := premise
    exact missing t expected low high
  · intro absent
    exact ⟨t, expected, t, expected, le_rfl, le_rfl, fun c _ low high => le_antisymm high low ▸ absent⟩

/-- The gaps are right for a set of stored minutes exactly if on each day off the grid the stored minutes happen to be
those before a stored expected minute or after the last; they are right for all sets exactly if no day is off it. -/
theorem reportsMissing_iff (quiet : z.QuietAt InSession) (whole : ∀ stored ∈ existing, MINUTE ∣ stored) :
    (ReportsMissing z existing start stop ↔ ∀ t, SessionMinute z start stop t → OffGrid z start t →
      (t ∈ existing ↔ NextStored z existing start stop t)) ∧
    ((∀ stored : Finset ℤ, (∀ t ∈ stored, MINUTE ∣ t) → ReportsMissing z stored start stop) ↔
      ∀ t, SessionMinute z start stop t → ¬ OffGrid z start t) := by
  have criterion (stored : Finset ℤ) (whole : ∀ t ∈ stored, MINUTE ∣ t) :
      ReportsMissing z stored start stop ↔ ∀ t, SessionMinute z start stop t → OffGrid z start t →
        (t ∈ stored ↔ NextStored z stored start stop t) := by
    refine forall₂_congr fun t minute => ?_
    by_cases offGrid : OffGrid z start t
    · rw [reported_off_grid quiet whole minute offGrid, not_iff_not, forall_prop_of_true offGrid]
      exact Iff.comm
    · rw [reported_on_grid quiet minute offGrid]
      exact iff_of_true Iff.rfl fun off => absurd off offGrid
  refine ⟨criterion existing whole, ?_⟩
  constructor
  · intro all t minute offGrid
    cases found : (expectedBarMinutes z start stop).find? (t < ·) with
    | none =>
      have none_ := (criterion ∅ (by simp)).mp (all ∅ (by simp)) t minute offGrid
      have stored : t ∈ (∅ : Finset ℤ) := none_.mpr fun next listed => by
        rw [found] at listed
        cases listed
      exact absurd stored (Finset.notMem_empty t)
    | some next =>
      have wholes : ∀ stored ∈ ({t} : Finset ℤ), MINUTE ∣ stored := by simpa using minute.whole
      have one := (criterion {t} wholes).mp (all {t} wholes) t minute offGrid
      have same := Finset.mem_singleton.mp (one.mp (Finset.mem_singleton_self t) next found)
      exact absurd (find_next quiet found).2.1 (by omega)
  · intro none_ stored wholes
    rw [criterion stored wholes]
    exact fun t minute off => absurd off (none_ t minute)

/-- Five minutes of a Wednesday morning, from 10:00:30; only the bar of 10:02 is stored. -/
theorem stored_minute_reported : ¬ ∀ (z : Zone) (existing : Finset ℤ) (start stop : ℤ), z.QuietAt InSession →
    (∀ stored ∈ existing, MINUTE ∣ stored) → start ≤ stop → ReportsMissing z existing start stop := by
  intro reports
  have right := reports standardTime {1767798120000000} 1767798030000000 1767798300000000 (standardTime_quiet _)
    (by decide) (by decide) 1767798120000000 ⟨by decide, by decide, by decide, by decide⟩
  have inside : ∃ g ∈ findGaps standardTime {1767798120000000} 1767798030000000 1767798300000000 1,
      g.start ≤ 1767798120000000 ∧ 1767798120000000 ≤ g.stop := by decide +kernel
  exact right.mp inside (Finset.mem_singleton_self _)

theorem reportsMissing_iff_on_grid :
    ReportsMissing standardTime {1767798120000000} 1767798000000000 1767798300000000 := by
  rw [(reportsMissing_iff (standardTime_quiet _) (by decide)).1]
  intro t minute offGrid
  have day : date (standardTime.wall t) = 20460 := by
    have after := minute.after
    have before := minute.before
    apply date_eq
    · show 20460 * 86400000000 ≤ t + -18000000000
      omega
    · show t + -18000000000 < (20460 + 1) * 86400000000
      omega
  rw [OffGrid, firstExpected, day] at offGrid
  exact absurd (by decide) offGrid

end OptionsProof.MissingMinutes
