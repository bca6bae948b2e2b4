import Mathlib

namespace Kit

/-- A time zone: how far its clock is ahead at an instant, and how far it takes itself to be ahead at a reading. -/
structure Zone where
  utcOffset : ℤ → ℤ
  wallOffset : ℤ → ℤ

namespace Zone

def wall (z : Zone) (instant : ℤ) : ℤ := instant + z.utcOffset instant

def utc (z : Zone) (reading : ℤ) : ℤ := reading - z.wallOffset reading

/-- The clock is changed at none of the quiet readings, neither forward over one nor back to one; a reading that occurs
once stands for the instant at which it does. -/
structure QuietAt (z : Zone) (quiet : ℤ → Prop) : Prop where
  bounded : ∃ bound, ∀ instant, |z.utcOffset instant| ≤ bound
  unchanged : ∀ instant reading, quiet reading →
    min (z.wall instant) (z.wall (instant + 1)) ≤ reading → reading ≤ max (z.wall instant) (z.wall (instant + 1)) →
    z.utcOffset (instant + 1) = z.utcOffset instant
  reads : ∀ instant, quiet (z.wall instant) → (∀ other, z.wall other = z.wall instant → other = instant) →
    z.wallOffset (z.wall instant) = z.utcOffset instant

variable {z : Zone} {quiet : ℤ → Prop}

theorem wall_next {instant : ℤ} (same : z.utcOffset (instant + 1) = z.utcOffset instant) :
    z.wall (instant + 1) = z.wall instant + 1 := by
  rw [wall, wall, same]
  omega

theorem QuietAt.passes_next (at_ : z.QuietAt quiet) {reading instant : ℤ} (still : quiet reading)
    (reached : reading ≤ z.wall instant) : reading < z.wall (instant + 1) := by
  by_contra back
  have same := at_.unchanged instant reading still ((min_le_right _ _).trans (not_lt.mp back))
    (reached.trans (le_max_left _ _))
  have next := wall_next same
  omega

theorem QuietAt.passes (at_ : z.QuietAt quiet) {reading instant later : ℤ} (still : quiet reading)
    (reached : reading ≤ z.wall instant) (after : instant < later) : reading < z.wall later := by
  obtain ⟨steps, rfl⟩ := Int.le.dest after
  induction steps with
  | zero => simpa using at_.passes_next still reached
  | succ steps ih =>
    have before := ih (by omega)
    have next := at_.passes_next still before.le
    rwa [Nat.cast_succ, ← add_assoc]

theorem QuietAt.occurs (at_ : z.QuietAt quiet) {reading : ℤ} (still : quiet reading) :
    ∃ instant, z.wall instant = reading := by
  obtain ⟨bound, bounded⟩ := at_.bounded
  have early : z.wall (reading - bound - 1) < reading := by
    have offset := le_of_abs_le (bounded (reading - bound - 1))
    rw [wall]
    omega
  have late : reading ≤ z.wall (reading + bound) := by
    have offset := neg_le_of_abs_le (bounded (reading + bound))
    rw [wall]
    omega
  have least := Int.exists_least_of_bdd (P := fun instant => reading ≤ z.wall instant)
    ⟨reading - bound - 1, fun instant reached => by
      by_contra earlier
      have past := at_.passes still reached (not_le.mp earlier)
      omega⟩ ⟨_, late⟩
  obtain ⟨instant, reached, first⟩ := least
  refine ⟨instant, ?_⟩
  have before : z.wall (instant - 1) < reading := by
    by_contra already
    have earlier := first (instant - 1) (not_lt.mp already)
    omega
  have same := at_.unchanged (instant - 1) reading still ((min_le_left _ _).trans before.le)
    (by rw [sub_add_cancel]; exact reached.trans (le_max_right _ _))
  have next := wall_next same
  rw [sub_add_cancel] at next
  omega

theorem QuietAt.once (at_ : z.QuietAt quiet) {instant other : ℤ} (still : quiet (z.wall instant))
    (same : z.wall other = z.wall instant) : other = instant := by
  rcases lt_trichotomy other instant with earlier | equal | later
  · have past := at_.passes still same.ge earlier
    omega
  · exact equal
  · have past := at_.passes still le_rfl later
    omega

theorem QuietAt.utc_wall (at_ : z.QuietAt quiet) {instant : ℤ} (still : quiet (z.wall instant)) :
    z.utc (z.wall instant) = instant := by
  rw [utc, at_.reads instant still fun other => at_.once still, wall]
  omega

theorem QuietAt.wall_utc (at_ : z.QuietAt quiet) {reading : ℤ} (still : quiet reading) :
    z.wall (z.utc reading) = reading := by
  obtain ⟨instant, rfl⟩ := at_.occurs still
  rw [at_.utc_wall still]

theorem QuietAt.lt_wall (at_ : z.QuietAt quiet) {reading instant : ℤ} (still : quiet reading) :
    reading < z.wall instant ↔ z.utc reading < instant := by
  have there := at_.wall_utc still
  constructor
  · intro past
    by_contra earlier
    rcases (not_lt.mp earlier).lt_or_eq with before | same
    · have passed := at_.passes still past.le before
      omega
    · rw [same, there] at past
      omega
  · intro later
    exact at_.passes still there.ge later

theorem QuietAt.wall_lt (at_ : z.QuietAt quiet) {reading instant : ℤ} (still : quiet reading) :
    z.wall instant < reading ↔ instant < z.utc reading := by
  have there := at_.wall_utc still
  constructor
  · intro short
    by_contra later
    rcases (not_lt.mp later).lt_or_eq with after | same
    · have passed := (at_.lt_wall still).mpr after
      omega
    · rw [← same, there] at short
      omega
  · intro earlier
    by_contra reached
    have passed := at_.passes still (not_lt.mp reached) earlier
    omega

theorem QuietAt.le_wall (at_ : z.QuietAt quiet) {reading instant : ℤ} (still : quiet reading) :
    reading ≤ z.wall instant ↔ z.utc reading ≤ instant := by
  rw [← not_lt, at_.wall_lt still, not_lt]

theorem QuietAt.wall_le (at_ : z.QuietAt quiet) {reading instant : ℤ} (still : quiet reading) :
    z.wall instant ≤ reading ↔ instant ≤ z.utc reading := by
  rw [← not_lt, at_.lt_wall still, not_lt]

theorem QuietAt.utc_lt (at_ : z.QuietAt quiet) {reading other : ℤ} (still : quiet reading) (still' : quiet other) :
    z.utc reading < z.utc other ↔ reading < other := by
  rw [← at_.lt_wall still, at_.wall_utc still']

theorem QuietAt.utc_le (at_ : z.QuietAt quiet) {reading other : ℤ} (still : quiet reading) (still' : quiet other) :
    z.utc reading ≤ z.utc other ↔ reading ≤ other := by
  rw [← at_.le_wall still, at_.wall_utc still']

theorem QuietAt.utc_next (at_ : z.QuietAt quiet) (reading : ℤ) (still : quiet reading)
    (still' : quiet (reading + 1)) :
    z.utc (reading + 1) = z.utc reading + 1 := by
  have there := at_.wall_utc still
  have same := at_.unchanged (z.utc reading) reading still ((min_le_left _ _).trans there.le)
    (there.ge.trans (le_max_left _ _))
  have next : z.wall (z.utc reading + 1) = reading + 1 := by rw [wall_next same, there]
  rw [← next] at still' ⊢
  exact at_.utc_wall still'

theorem QuietAt.utc_add (at_ : z.QuietAt quiet) {reading : ℤ} {steps : ℕ}
    (still : ∀ other, reading ≤ other → other ≤ reading + steps → quiet other) :
    z.utc (reading + steps) = z.utc reading + steps := by
  induction steps with
  | zero => simp
  | succ steps ih =>
    have before := ih fun other low high => still other low (by push_cast; omega)
    have next := at_.utc_next (reading + steps) (still _ (by omega) (by push_cast; omega))
      (still _ (by omega) (by push_cast; omega))
    rw [Nat.cast_succ, ← add_assoc, next, before, add_assoc]

end Zone

end Kit
