import OptionsData.Ingestion.GapDetection

namespace OptionsModel

open Kit

structure TimeOfDay where
  reading : ℤ
  nonneg : 0 ≤ reading
  inDay : reading < DAY

def combine (day : ℤ) (time : TimeOfDay) : ℤ := day * DAY + time.reading

def skipWeekend (candidate : ℤ) : ℤ :=
  if 5 ≤ weekday (date candidate) then skipWeekend (candidate + DAY) else candidate
termination_by ((7 - weekday (date candidate)) % 7).toNat
decreasing_by
  unfold weekday date DAY at *
  omega

/-- Readings of one clock are compared as they are, whatever instants they stand for. -/
def nextRunAt (z : Zone) (now : ℤ) (runTime : TimeOfDay) (weekdaysOnly : Bool := true) : ℤ :=
  let nowEt := z.wall now
  let candidate := combine (date nowEt) runTime
  let candidate := if candidate ≤ nowEt then combine (date nowEt + 1) runTime else candidate
  z.utc (if weekdaysOnly then skipWeekend candidate else candidate)

structure SchedulerSettings where
  enabled : Bool
  runTime : TimeOfDay
  runOnStartup : Bool
  runGreeks : Bool
  runGapReconcile : Bool

def buildJobs (py : String) (report includeGreeks includeGapReconcile : Bool) : List (String × List String) :=
  [("backfill", [py, "-m", "service.ingestion.backfill"] ++ if report then ["--report"] else [])] ++
    (if includeGreeks then [("greeks-backfill", [py, "-m", "service.greeks.backfill_job"])] else []) ++
    (if includeGapReconcile then
      [("gap-reconcile", [py, "-m", "service.ingestion.backfill", "--reconcile-underlying-gaps", "--report"])]
    else [])

/-- When the jobs are over that begin at an instant, from how long each command takes, whether it fails or not. -/
def runJobs (takes : List String → ℕ) (jobs : List (String × List String)) (began : ℤ) : ℤ :=
  jobs.foldl (fun now job => now + takes job.2) began

/-- What happens in one pass of the loop: how late the sleep ends, and how long the jobs then take. -/
structure SchedulerPass where
  late : ℕ
  takes : List String → ℕ

structure ScheduledRun where
  now : ℤ
  target : ℤ
  wait : ℤ
  woken : ℤ
  finished : ℤ

def scheduledRun (z : Zone) (runTime : TimeOfDay) (jobs : List (String × List String)) (now : ℤ)
    (pass : SchedulerPass) : ScheduledRun :=
  let target := nextRunAt z now runTime
  let wait := target - now
  let woken := now + wait + pass.late
  ⟨now, target, wait, woken, runJobs pass.takes jobs woken⟩

/-- The passes of the loop, one after another; the clock is read again where the jobs of the last one are over. -/
def scheduledRuns (z : Zone) (runTime : TimeOfDay) (jobs : List (String × List String)) (now : ℤ)
    (passes : ℕ → SchedulerPass) : ℕ → ScheduledRun
  | 0 => scheduledRun z runTime jobs now (passes 0)
  | n + 1 => scheduledRun z runTime jobs (scheduledRuns z runTime jobs now passes n).finished (passes (n + 1))

def runForever (z : Zone) (py : String) (settings : SchedulerSettings) (start : ℤ) (startup : List String → ℕ)
    (passes : ℕ → SchedulerPass) : Option (ℕ → ScheduledRun) :=
  if settings.enabled then
    let jobs := buildJobs py true settings.runGreeks settings.runGapReconcile
    let now := if settings.runOnStartup then runJobs startup jobs start else start
    some (scheduledRuns z settings.runTime jobs now passes)
  else none

end OptionsModel

namespace OptionsProof.Scheduler

open Kit OptionsModel OptionsProof.GapDetection

variable {z : Zone} {runTime : TimeOfDay} {jobs : List (String × List String)} {now s : ℤ}
  {passes : ℕ → SchedulerPass}

def Workday (reading : ℤ) : Prop := weekday (date reading) < 5

/-- An instant at which the clock shows the run time of a weekday. -/
def Slot (z : Zone) (runTime : TimeOfDay) (s : ℤ) : Prop :=
  Workday (z.wall s) ∧ z.wall s = combine (date (z.wall s)) runTime

theorem date_combine (day : ℤ) : date (combine day runTime) = day := by
  have low := runTime.nonneg
  have high := runTime.inDay
  apply date_eq
  · unfold combine
    omega
  · unfold combine DAY at *
    omega

theorem combine_workday {day : ℤ} : Workday (combine day runTime) ↔ weekday day < 5 := by
  rw [Workday, date_combine]

theorem slot_iff (quiet : z.QuietAt Workday) :
    Slot z runTime s ↔ ∃ day, weekday day < 5 ∧ z.utc (combine day runTime) = s := by
  constructor
  · intro slot
    obtain ⟨workday, shown⟩ := slot
    refine ⟨date (z.wall s), workday, ?_⟩
    rw [← shown, quiet.utc_wall workday]
  · intro premise
    obtain ⟨day, workday, rfl⟩ := premise
    have still : Workday (combine day runTime) := combine_workday.mpr workday
    rw [Slot, quiet.wall_utc still, date_combine]
    exact ⟨still, rfl⟩

theorem combine_next (day : ℤ) : combine day runTime + DAY = combine (day + 1) runTime := by
  unfold combine
  rw [add_one_mul, add_right_comm]

theorem skipWeekend_workday {day : ℤ} (workday : weekday day < 5) :
    skipWeekend (combine day runTime) = combine day runTime := by
  rw [skipWeekend, date_combine, if_neg (not_le.mpr workday)]

theorem skipWeekend_weekend {day : ℤ} (weekend : 5 ≤ weekday day) :
    skipWeekend (combine day runTime) = skipWeekend (combine (day + 1) runTime) := by
  rw [skipWeekend, date_combine, if_pos weekend, combine_next]

theorem skipWeekend_first (runTime : TimeOfDay) (day : ℤ) : ∃ next, weekday next < 5 ∧ day ≤ next ∧
    (∀ other, weekday other < 5 → day ≤ other → next ≤ other) ∧
      skipWeekend (combine day runTime) = combine next runTime := by
  by_cases workday : weekday day < 5
  · exact ⟨day, workday, le_rfl, fun _ _ later => later, skipWeekend_workday workday⟩
  · by_cases monday : weekday (day + 1) < 5
    · refine ⟨day + 1, monday, by omega, fun other works later => ?_, ?_⟩
      · rcases later.eq_or_lt with rfl | after
        · exact absurd works workday
        · exact after
      · rw [skipWeekend_weekend (not_lt.mp workday), skipWeekend_workday monday]
    · have third : weekday (day + 2) < 5 := by
        unfold weekday at *
        omega
      refine ⟨day + 2, third, by omega, fun other works later => ?_, ?_⟩
      · by_contra before
        have either : other = day ∨ other = day + 1 := by omega
        rcases either with rfl | rfl
        · exact workday works
        · exact monday works
      · rw [skipWeekend_weekend (not_lt.mp workday), skipWeekend_weekend (not_lt.mp monday), add_assoc]
        exact skipWeekend_workday third

def firstDay (z : Zone) (runTime : TimeOfDay) (now : ℤ) : ℤ :=
  if combine (date (z.wall now)) runTime ≤ z.wall now then date (z.wall now) + 1 else date (z.wall now)

theorem firstDay_le (now day : ℤ) : firstDay z runTime now ≤ day ↔ z.wall now < combine day runTime := by
  have low : date (z.wall now) * DAY ≤ z.wall now := Int.ediv_mul_le _ (by decide)
  have high : z.wall now < (date (z.wall now) + 1) * DAY := Int.lt_ediv_add_one_mul_self _ (by decide)
  have nonneg := runTime.nonneg
  have inDay := runTime.inDay
  unfold firstDay
  generalize date (z.wall now) = today at *
  unfold combine DAY at *
  split
  all_goals omega

theorem nextRunAt_eq (now : ℤ) :
    nextRunAt z now runTime = z.utc (skipWeekend (combine (firstDay z runTime now) runTime)) := by
  simp only [nextRunAt, firstDay, if_true]
  split
  all_goals rfl

theorem nextRunAt_least (quiet : z.QuietAt Workday) (runTime : TimeOfDay) (now : ℤ) :
    Slot z runTime (nextRunAt z now runTime) ∧ now < nextRunAt z now runTime ∧
      ∀ s, Slot z runTime s → now < s → nextRunAt z now runTime ≤ s := by
  obtain ⟨next, workday, reached, first, same⟩ := skipWeekend_first runTime (firstDay z runTime now)
  rw [nextRunAt_eq, same]
  refine ⟨(slot_iff quiet).mpr ⟨next, workday, rfl⟩, ?_, fun s slot after => ?_⟩
  · rw [← quiet.wall_lt (combine_workday.mpr workday)]
    exact (firstDay_le now next).mp reached
  · obtain ⟨day, works, rfl⟩ := (slot_iff quiet).mp slot
    rw [← quiet.wall_lt (combine_workday.mpr works), ← firstDay_le] at after
    rw [quiet.utc_le (combine_workday.mpr workday) (combine_workday.mpr works)]
    exact add_le_add_left (mul_le_mul_of_nonneg_right (first day works after) (by decide)) _

theorem runJobs_ge (takes : List String → ℕ) (jobs : List (String × List String)) (began : ℤ) :
    began ≤ runJobs takes jobs began := by
  rw [runJobs]
  induction jobs generalizing began with
  | nil => exact le_rfl
  | cons job jobs ih => exact (le_add_of_nonneg_right (Nat.cast_nonneg _)).trans (ih _)

structure PassRight (z : Zone) (runTime : TimeOfDay) (r : ScheduledRun) : Prop where
  slot : Slot z runTime r.target
  ahead : r.now < r.target
  least : ∀ s, Slot z runTime s → r.now < s → r.target ≤ s
  waits : r.wait = r.target - r.now
  slept : r.target ≤ r.woken
  worked : r.woken ≤ r.finished

theorem scheduledRun_right (quiet : z.QuietAt Workday) (now : ℤ) (pass : SchedulerPass) :
    PassRight z runTime (scheduledRun z runTime jobs now pass) := by
  obtain ⟨slot, ahead, least⟩ := nextRunAt_least quiet runTime now
  refine ⟨slot, ahead, least, rfl, ?_, runJobs_ge _ _ _⟩
  show nextRunAt z now runTime ≤ now + (nextRunAt z now runTime - now) + pass.late
  omega

section Runs

variable (quiet : z.QuietAt Workday) (runTime : TimeOfDay) (jobs : List (String × List String)) (now : ℤ)
  (passes : ℕ → SchedulerPass)

include quiet

theorem scheduledRuns_right (n : ℕ) : PassRight z runTime (scheduledRuns z runTime jobs now passes n) := by
  cases n with
  | zero => exact scheduledRun_right quiet _ _
  | succ n => exact scheduledRun_right quiet _ _

theorem now_lt_next (n : ℕ) : (scheduledRuns z runTime jobs now passes n).now <
    (scheduledRuns z runTime jobs now passes (n + 1)).now := by
  have right := scheduledRuns_right quiet runTime jobs now passes n
  exact right.ahead.trans_le (right.slept.trans right.worked)

theorem target_lt_next (n : ℕ) : (scheduledRuns z runTime jobs now passes n).target <
    (scheduledRuns z runTime jobs now passes (n + 1)).target := by
  have right := scheduledRuns_right quiet runTime jobs now passes n
  have next := scheduledRuns_right quiet runTime jobs now passes (n + 1)
  exact (right.slept.trans right.worked).trans_lt next.ahead

theorem add_le_now (n : ℕ) : now + n ≤ (scheduledRuns z runTime jobs now passes n).now := by
  induction n with
  | zero => exact (add_zero now).le
  | succ n ih =>
    have next := now_lt_next quiet runTime jobs now passes n
    push_cast
    omega

theorem exists_pass (after : now < s) : ∃ n, (scheduledRuns z runTime jobs now passes n).now < s ∧
    s ≤ (scheduledRuns z runTime jobs now passes n).finished := by
  have passed : ∃ n, s ≤ (scheduledRuns z runTime jobs now passes n).finished := by
    refine ⟨(s - now).toNat, ?_⟩
    have there := add_le_now quiet runTime jobs now passes (s - now).toNat
    have next := now_lt_next quiet runTime jobs now passes (s - now).toNat
    have reached : s ≤ (scheduledRuns z runTime jobs now passes (s - now).toNat).now := by omega
    exact reached.trans next.le
  refine ⟨Nat.find passed, ?_, Nat.find_spec passed⟩
  cases first : Nat.find passed with
  | zero => exact after
  | succ n => exact not_le.mp (Nat.find_min passed (by omega : n < Nat.find passed))

end Runs

/-- The jobs that the loop runs on startup, a sleep that ends late, or the jobs of a pass include the instant. -/
def Busy (settings : SchedulerSettings) (start : ℤ) (cycles : ℕ → ScheduledRun) (s : ℤ) : Prop :=
  (settings.runOnStartup = true ∧ start ≤ s ∧ s ≤ (cycles 0).now) ∨
    ∃ n, (cycles n).target < s ∧ s ≤ (cycles n).woken ∨ (cycles n).woken ≤ s ∧ s ≤ (cycles n).finished

structure SlotsRight (z : Zone) (settings : SchedulerSettings) (start : ℤ) (cycles : ℕ → ScheduledRun) : Prop where
  slots : ∀ n, Slot z settings.runTime (cycles n).target
  increasing : StrictMono fun n => (cycles n).target
  waits : ∀ n, 0 < (cycles n).wait
  once : ∀ m n, (cycles m).target = (cycles n).target → m = n
  left_out : ∀ s, Slot z settings.runTime s → start < s → (∀ n, (cycles n).target ≠ s) → Busy settings start cycles s

theorem runForever_slots (quiet : z.QuietAt Workday) (py : String) (settings : SchedulerSettings) (start : ℤ)
    (startup : List String → ℕ) (passes : ℕ → SchedulerPass) :
    ∀ cycles ∈ runForever z py settings start startup passes, SlotsRight z settings start cycles := by
  intro cycles running
  unfold runForever at running
  split at running
  · obtain rfl := Option.some.inj running
    set jobs := buildJobs py true settings.runGreeks settings.runGapReconcile
    set first := if settings.runOnStartup then runJobs startup jobs start else start with reading
    have right := scheduledRuns_right quiet settings.runTime jobs first passes
    have increasing := strictMono_nat_of_lt_succ (target_lt_next quiet settings.runTime jobs first passes)
    refine ⟨fun n => (right n).slot, increasing, fun n => ?_, fun m n same => increasing.injective same, ?_⟩
    · rw [(right n).waits]
      exact sub_pos.mpr (right n).ahead
    · intro s slot after missed
      rcases le_or_gt s first with early | late
      · have startup_run : settings.runOnStartup = true := by
          by_contra off
          rw [if_neg off] at reading
          omega
        exact Or.inl ⟨startup_run, after.le, early⟩
      · obtain ⟨n, began, ended⟩ := exists_pass quiet settings.runTime jobs first passes late
        have beyond := lt_of_le_of_ne ((right n).least s slot began) (missed n)
        rcases le_or_gt s (scheduledRuns z settings.runTime jobs first passes n).woken with asleep | awake
        · exact Or.inr ⟨n, Or.inl ⟨beyond, asleep⟩⟩
        · exact Or.inr ⟨n, Or.inr ⟨awake.le, ended⟩⟩
  · cases running

/-- Sleeps that end on time and jobs that take no time, from noon of the epoch, which was a Thursday. -/
theorem runForever_slots_noon : ∃ cycles, runForever standardTime "python"
    ⟨true, ⟨59400000000, by decide, by decide⟩, true, true, false⟩ 61200000000 (fun _ => 0)
      (fun _ => ⟨0, fun _ => 0⟩) =
      some cycles ∧ SlotsRight standardTime ⟨true, ⟨59400000000, by decide, by decide⟩, true, true, false⟩ 61200000000
        cycles :=
  ⟨_, rfl, runForever_slots (standardTime_quiet _) "python" _ _ _ _ _ rfl⟩

end OptionsProof.Scheduler
