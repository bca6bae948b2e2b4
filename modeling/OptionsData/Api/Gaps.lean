import OptionsData.Ingestion.GapDetection
import OptionsData.Api.Routes

namespace OptionsModel

open Kit

def MAX_GAP_REPORT_DAYS : ℤ := 120

def rangeTooWide : String := "Range too wide for /gaps (max 120 days) — query in smaller chunks."

structure GapOut where
  start : ℤ
  stop : ℤ
  minutes : ℤ
  beforeRetention : Bool
deriving DecidableEq, Repr

structure GapsResponse where
  ticker : String
  start : ℤ
  stop : ℤ
  retentionCutoff : ℤ
  gaps : List GapOut
  gapCount : ℕ
  totalMissingMinutes : ℤ
deriving DecidableEq, Repr

/-- `times` has the times of each ticker's rows in `underlying_bars_1m`. -/
def getGaps (z : Zone) (times : String → Finset ℤ) (ticker : String) (start stop minGapMinutes now : ℤ) :
    Except HttpError GapsResponse :=
  if minGapMinutes < 1 then .error (.unprocessable "min_gap_minutes")
  else if stop < start then .error (.badRequest "start must be <= end")
  else if MAX_GAP_REPORT_DAYS < (stop - start) / DAY then .error (.badRequest rangeTooWide)
  else
    let existing := (times ticker).filter fun t => start ≤ t ∧ t ≤ stop
    let gaps := findGaps z existing start stop minGapMinutes
    let cutoff := now - RETENTION_DAYS * DAY
    .ok {
      ticker := ticker
      start := start
      stop := stop
      retentionCutoff := cutoff
      gaps := gaps.map fun g => ⟨g.start, g.stop, g.minutes, g.stop < cutoff⟩
      gapCount := gaps.length
      totalMissingMinutes := (gaps.map Gap.minutes).sum }

end OptionsModel

namespace OptionsProof.Gaps

open Kit OptionsModel OptionsProof.GapDetection

variable {z : Zone} {existing : Finset ℤ} {times : String → Finset ℤ} {ticker : String} {start stop : ℤ}

/-- New York is at least four and at most five hours behind. -/
def Eastern (z : Zone) : Prop := ∀ instant, -18000000000 ≤ z.utcOffset instant ∧ z.utcOffset instant ≤ -14400000000

def missingRuns (z : Zone) (existing : Finset ℤ) (start stop : ℤ) : List (List ℤ) :=
  runs (fun minute => minute ∉ existing) (expectedBarMinutes z start stop)

structure CountsRight (z : Zone) (times : String → Finset ℤ) (ticker : String) (start stop minGapMinutes : ℤ) :
    Prop where
  each : ∀ g ∈ findGaps z (times ticker) start stop minGapMinutes,
    g.minutes = ((expectedBarMinutes z start stop).filter fun t => g.start ≤ t ∧ t ≤ g.stop).length
  total : ∀ now response, getGaps z times ticker start stop 1 now = .ok response →
    response.totalMissingMinutes = ((expectedBarMinutes z start stop).filter fun t => t ∉ times ticker).length
  dropped : ∀ r ∈ missingRuns z (times ticker) start stop,
    gapOf r ∉ findGaps z (times ticker) start stop minGapMinutes ↔ (r.length : ℤ) < minGapMinutes

def Overnight (z : Zone) (r : List ℤ) : Prop := date (z.wall (r.headD 0)) < date (z.wall (r.getLastD 0))

def Follows (z : Zone) (a b : ℤ) : Prop :=
  date (z.wall a) = date (z.wall b) ∧ b = a + MINUTE ∨ date (z.wall a) < date (z.wall b) ∧ a + 2 * MINUTE ≤ b

theorem expected_next (quiet : z.QuietAt InSession) {a b : ℤ} (first : a ∈ expectedBarMinutes z start stop)
    (second : b ∈ expectedBarMinutes z start stop) (before : a < b) (today : date (z.wall a) = date (z.wall b))
    (none_between : ∀ c ∈ expectedBarMinutes z start stop, c ≤ a ∨ b ≤ c) : b = a + MINUTE := by
  obtain ⟨after, -, session, step⟩ := (mem_expectedBarMinutes quiet).mp first
  obtain ⟨-, stops, session', step'⟩ := (mem_expectedBarMinutes quiet).mp second
  have ordered : z.wall a < z.wall b := by
    rw [quiet.wall_lt session', quiet.utc_wall session']
    exact before
  have span := utc_sub quiet session session' today ordered.le
  rw [quiet.utc_wall session, quiet.utc_wall session'] at span
  have reached : z.wall a + MINUTE ≤ z.wall b := by
    have whole : MINUTE ∣ z.wall b - z.wall a := by
      have both := dvd_sub step' step
      rwa [today, sub_sub_sub_cancel_right] at both
    have least := Int.le_of_dvd (by omega) whole
    omega
  have later : z.wall a ≤ z.wall a + MINUTE := by
    unfold MINUTE
    omega
  have here : date (z.wall a + MINUTE) = date (z.wall a) :=
    le_antisymm (today ▸ date_mono reached) (date_mono later)
  have within : InSession (z.wall a + MINUTE) := by
    refine ⟨here ▸ session.1, here ▸ session.2.1.trans later, ?_⟩
    rw [here, today]
    exact reached.trans session'.2.2
  have instant := utc_sub quiet session within here.symm later
  rw [quiet.utc_wall session, add_sub_cancel_left] at instant
  have shown : z.wall (a + MINUTE) = z.wall a + MINUTE := by
    rw [← instant, quiet.wall_utc within]
  have expected : a + MINUTE ∈ expectedBarMinutes z start stop := by
    rw [mem_expectedBarMinutes quiet, shown, here, add_sub_right_comm]
    exact ⟨by unfold MINUTE; omega, by omega, within, dvd_add_self_right.mpr step⟩
  rcases none_between _ expected with early | late
  · unfold MINUTE at early
    omega
  · omega

theorem expected_later (eastern : Eastern z) {a b : ℤ} (session : InSession (z.wall a))
    (session' : InSession (z.wall b)) (later : date (z.wall a) < date (z.wall b)) : a + 2 * MINUTE ≤ b := by
  have closed := session.2.2
  have opened := session'.2.1
  obtain ⟨low, -⟩ := eastern a
  obtain ⟨-, high⟩ := eastern b
  have shown : z.wall a = a + z.utcOffset a := rfl
  have shown' : z.wall b = b + z.utcOffset b := rfl
  unfold MARKET_CLOSE DAY at closed
  unfold MARKET_OPEN DAY at opened
  unfold MINUTE
  omega

theorem expected_follows (quiet : z.QuietAt InSession) (eastern : Eastern z) :
    (expectedBarMinutes z start stop).IsChain (Follows z) := by
  apply (sorted_consecutive (expectedBarMinutes_sorted quiet)).imp
  intro a b premise
  obtain ⟨first, second, before, none_between⟩ := premise
  obtain ⟨-, -, session, -⟩ := (mem_expectedBarMinutes quiet).mp first
  obtain ⟨-, -, session', -⟩ := (mem_expectedBarMinutes quiet).mp second
  have ordered : date (z.wall a) ≤ date (z.wall b) := by
    apply date_mono
    rw [quiet.wall_le session', quiet.utc_wall session']
    exact before.le
  rcases ordered.eq_or_lt with today | later
  · exact Or.inl ⟨today, expected_next quiet first second before today none_between⟩
  · exact Or.inr ⟨later, expected_later eastern session session' later⟩

theorem follows_span {first : ℤ} {rest : List ℤ} (chain : (first :: rest).IsChain (Follows z)) :
    date (z.wall first) = date (z.wall (rest.getLastD first)) ∧ rest.getLastD first = first + rest.length * MINUTE ∨
      date (z.wall first) < date (z.wall (rest.getLastD first)) ∧
        first + (rest.length + 1) * MINUTE ≤ rest.getLastD first := by
  induction rest generalizing first with
  | nil => exact Or.inl ⟨rfl, by simp⟩
  | cons second rest ih =>
    rw [List.isChain_cons_cons] at chain
    obtain ⟨follows, chain⟩ := chain
    have tail := ih chain
    rw [List.getLastD_cons, List.length_cons, Nat.cast_succ]
    unfold Follows MINUTE at *
    omega

theorem minutes_length (quiet : z.QuietAt InSession) (eastern : Eastern z) {r : List ℤ}
    (member : r ∈ missingRuns z existing start stop) :
    ¬ Overnight z r ∧ (gapOf r).minutes = r.length ∨ Overnight z r ∧ r.length < (gapOf r).minutes := by
  obtain ⟨before, after, run⟩ := mem_runs member
  have whole : (expectedBarMinutes z start stop).IsChain (Follows z) := expected_follows quiet eastern
  rw [run.split] at whole
  have chain : r.IsChain (Follows z) := whole.left_of_append.right_of_append
  obtain ⟨first, rest, rfl⟩ := List.exists_cons_of_ne_nil run.nonempty
  have minutes : (gapOf (first :: rest)).minutes = (rest.getLastD first - first) / MINUTE + 1 := by
    rw [Gap.minutes, gapOf, List.headD_cons, List.getLastD_cons]
  rw [minutes, Overnight, List.headD_cons, List.getLastD_cons, List.length_cons, Nat.cast_succ]
  rcases follows_span chain with ⟨today, span⟩ | ⟨later, span⟩
  · refine Or.inl ⟨today.not_lt, ?_⟩
    rw [span, add_sub_cancel_left, Int.mul_ediv_cancel _ (by decide)]
  · refine Or.inr ⟨later, ?_⟩
    have least : (rest.length + 1 : ℤ) ≤ (rest.getLastD first - first) / MINUTE :=
      (Int.le_ediv_iff_mul_le (by decide)).mpr (by omega)
    omega

theorem length_le_minutes (quiet : z.QuietAt InSession) (eastern : Eastern z) {r : List ℤ}
    (member : r ∈ missingRuns z existing start stop) : (r.length : ℤ) ≤ (gapOf r).minutes := by
  rcases minutes_length quiet eastern member with ⟨-, same⟩ | ⟨-, more⟩
  · exact same.ge
  · exact more.le

theorem contained_run (quiet : z.QuietAt InSession) {r : List ℤ} (member : r ∈ missingRuns z existing start stop) :
    (expectedBarMinutes z start stop).filter (fun t => (gapOf r).start ≤ t ∧ t ≤ (gapOf r).stop) = r := by
  obtain ⟨before, after, run⟩ := mem_runs member
  obtain ⟨nonempty, sorted⟩ := runs_sorted quiet member
  obtain ⟨first, last, within⟩ := gapOf_ends nonempty sorted
  exact run.filter_between (expectedBarMinutes_sorted quiet) first last within

theorem mem_findGaps {g : Gap} {minGapMinutes : ℤ} : g ∈ findGaps z existing start stop minGapMinutes ↔
    (∃ r ∈ missingRuns z existing start stop, gapOf r = g) ∧ minGapMinutes ≤ g.minutes := by
  rw [findGaps_eq, List.mem_filter, List.mem_map, decide_eq_true_eq]
  rfl

theorem findGaps_inRange (quiet : z.QuietAt InSession) (minGapMinutes : ℤ) :
    findGaps z (existing.filter fun t => start ≤ t ∧ t ≤ stop) start stop minGapMinutes =
      findGaps z existing start stop minGapMinutes := by
  have same (s : GapScan) (minute : ℤ) (expected : minute ∈ expectedBarMinutes z start stop) :
      scanMinute (existing.filter fun t => start ≤ t ∧ t ≤ stop) s minute = scanMinute existing s minute := by
    obtain ⟨after, before, -⟩ := (mem_expectedBarMinutes quiet).mp expected
    simp only [scanMinute, Finset.mem_filter, after, before, and_self, and_true]
  rw [findGaps, findGaps, List.foldl_ext _ _ _ same]

theorem getGaps_total (quiet : z.QuietAt InSession) {now : ℤ} {response : GapsResponse}
    (answered : getGaps z times ticker start stop 1 now = .ok response) :
    response.totalMissingMinutes =
      ((missingRuns z (times ticker) start stop).map fun r => (gapOf r).minutes).sum := by
  unfold getGaps at answered
  split_ifs at answered
  cases answered
  show ((findGaps z _ start stop 1).map Gap.minutes).sum = _
  rw [findGaps_inRange quiet, findGaps_one quiet, List.map_map]
  rfl

theorem missing_length : (((expectedBarMinutes z start stop).filter fun t => t ∉ existing).length : ℤ) =
    ((missingRuns z existing start stop).map fun r => (r.length : ℤ)).sum := by
  rw [← flatten_runs, List.length_flatten, Nat.cast_list_sum, List.map_map]
  rfl

theorem getGaps_answers (ordered : start ≤ stop) (narrow : (stop - start) / DAY ≤ MAX_GAP_REPORT_DAYS) (now : ℤ) :
    ∃ response, getGaps z times ticker start stop 1 now = .ok response := by
  unfold getGaps
  rw [if_neg (by decide), if_neg (not_lt.mpr ordered), if_neg (not_lt.mpr narrow)]
  exact ⟨_, rfl⟩

theorem minutes_eq_length (quiet : z.QuietAt InSession) (eastern : Eastern z) {r : List ℤ}
    (member : r ∈ missingRuns z existing start stop) : (gapOf r).minutes = r.length ↔ ¬ Overnight z r := by
  rcases minutes_length quiet eastern member with ⟨today, same⟩ | ⟨overnight, more⟩
  · exact iff_of_true same today
  · exact iff_of_false more.ne' (not_not.mpr overnight)

theorem each_iff (quiet : z.QuietAt InSession) (eastern : Eastern z) (minGapMinutes : ℤ) :
    (∀ g ∈ findGaps z existing start stop minGapMinutes,
      g.minutes = ((expectedBarMinutes z start stop).filter fun t => g.start ≤ t ∧ t ≤ g.stop).length) ↔
    ∀ r ∈ missingRuns z existing start stop, Overnight z r → (gapOf r).minutes < minGapMinutes := by
  constructor
  · intro each r member overnight
    by_contra long
    have count := each (gapOf r) (mem_findGaps.mpr ⟨⟨r, member, rfl⟩, not_lt.mp long⟩)
    rw [contained_run quiet member, minutes_eq_length quiet eastern member] at count
    exact count overnight
  · intro short g listed
    obtain ⟨⟨r, member, rfl⟩, long⟩ := mem_findGaps.mp listed
    rw [contained_run quiet member, minutes_eq_length quiet eastern member]
    exact fun overnight => absurd long (not_le.mpr (short r member overnight))

theorem total_iff (quiet : z.QuietAt InSession) (eastern : Eastern z) :
    (∀ now response, getGaps z times ticker start stop 1 now = .ok response →
      response.totalMissingMinutes = ((expectedBarMinutes z start stop).filter fun t => t ∉ times ticker).length) ↔
    ∀ r ∈ missingRuns z (times ticker) start stop, Overnight z r → MAX_GAP_REPORT_DAYS < (stop - start) / DAY := by
  constructor
  · intro total r member overnight
    by_contra narrow
    have ordered : start ≤ stop := by
      obtain ⟨before, after, run⟩ := mem_runs member
      obtain ⟨first, listed⟩ := List.exists_mem_of_ne_nil r run.nonempty
      obtain ⟨from_start, to_stop, -⟩ := (mem_expectedBarMinutes quiet).mp (run.listed listed)
      exact from_start.trans to_stop
    obtain ⟨response, answered⟩ := getGaps_answers ordered (not_lt.mp narrow) 0
    have sum := total 0 response answered
    rw [getGaps_total quiet answered, missing_length] at sum
    have differs : (r.length : ℤ) ≠ (gapOf r).minutes := fun same =>
      (minutes_eq_length quiet eastern member).mp same.symm overnight
    have less := List.sum_lt_sum (fun r : List ℤ => (r.length : ℤ)) (fun r => (gapOf r).minutes)
      (fun r member => length_le_minutes quiet eastern member)
      ⟨r, member, (length_le_minutes quiet eastern member).lt_of_ne differs⟩
    exact absurd sum less.ne'
  · intro wide now response answered
    rw [getGaps_total quiet answered, missing_length]
    congr 1
    apply List.map_congr_left
    intro r member
    rw [minutes_eq_length quiet eastern member]
    intro overnight
    have refused := wide r member overnight
    unfold getGaps at answered
    rw [if_neg (by decide)] at answered
    split_ifs at answered

theorem dropped_of_short (quiet : z.QuietAt InSession) (eastern : Eastern z) {minGapMinutes : ℤ} {r : List ℤ}
    (member : r ∈ missingRuns z existing start stop) (short : Overnight z r → (gapOf r).minutes < minGapMinutes) :
    gapOf r ∉ findGaps z existing start stop minGapMinutes ↔ (r.length : ℤ) < minGapMinutes := by
  rw [mem_findGaps, and_iff_right ⟨r, member, rfl⟩, not_le]
  rcases minutes_length quiet eastern member with ⟨-, same⟩ | ⟨overnight, more⟩
  · rw [same]
  · exact iff_of_true (short overnight) (more.trans (short overnight))

/-- The counts are right exactly if no run of missing minutes goes on to a later day, or if the range is too wide for
the endpoint and the ends of each such run are too close together for a gap to be reported. -/
theorem countsRight_iff (quiet : z.QuietAt InSession) (eastern : Eastern z) (minGapMinutes : ℤ) :
    CountsRight z times ticker start stop minGapMinutes ↔
      ∀ r ∈ missingRuns z (times ticker) start stop, Overnight z r →
        MAX_GAP_REPORT_DAYS < (stop - start) / DAY ∧ r.getLastD 0 - r.headD 0 < (minGapMinutes - 1) * MINUTE := by
  have ends (r : List ℤ) : r.getLastD 0 - r.headD 0 < (minGapMinutes - 1) * MINUTE ↔
      (gapOf r).minutes < minGapMinutes := by
    rw [← Int.ediv_lt_iff_lt_mul (by decide)]
    show _ ↔ (r.getLastD 0 - r.headD 0) / MINUTE + 1 < minGapMinutes
    omega
  simp only [ends]
  constructor
  · intro right r member overnight
    have wide := (total_iff quiet eastern).mp right.total r member overnight
    have short := (each_iff quiet eastern minGapMinutes).mp right.each r member overnight
    exact ⟨wide, short⟩
  · intro condition
    have wide (r : List ℤ) (member) (overnight : Overnight z r) := (condition r member overnight).1
    have short (r : List ℤ) (member) (overnight : Overnight z r) := (condition r member overnight).2
    exact {
      each := (each_iff quiet eastern minGapMinutes).mpr short
      total := (total_iff quiet eastern).mpr wide
      dropped := fun r member => dropped_of_short quiet eastern member (short r member) }

theorem standardTime_eastern : Eastern standardTime := fun _ =>
  ⟨le_rfl, show (-18000000000 : ℤ) ≤ -14400000000 from by decide⟩

/-- From the close of a Wednesday to the open of the Thursday, with no bar stored. -/
theorem night_counted : ¬ ∀ (z : Zone) (times : String → Finset ℤ) (ticker : String) (start stop minGapMinutes : ℤ),
    z.QuietAt InSession → Eastern z → start ≤ stop → 1 ≤ minGapMinutes →
      CountsRight z times ticker start stop minGapMinutes := by
  intro right
  have each := (right standardTime (fun _ => ∅) "SPX" 1767819600000000 1767882600000000 1 (standardTime_quiet _)
    standardTime_eastern (by decide) (by decide)).each ⟨1767819600000000, 1767882600000000⟩ (by decide +kernel)
  have expected : ((expectedBarMinutes standardTime 1767819600000000 1767882600000000).filter fun t =>
      (1767819600000000 : ℤ) ≤ t ∧ t ≤ 1767882600000000).length = 2 := by decide +kernel
  rw [expected] at each
  exact absurd each (by decide)

/-- Five minutes of a Wednesday morning, of which only the bar of 10:02 is stored. -/
theorem countsRight_morning : CountsRight standardTime (fun _ => {1767798120000000}) "SPX" 1767798000000000
    1767798300000000 1 := by
  rw [countsRight_iff (standardTime_quiet _) standardTime_eastern]
  intro r member overnight
  obtain ⟨nonempty, sorted⟩ := runs_sorted (standardTime_quiet _) member
  obtain ⟨first, last, -⟩ := gapOf_ends nonempty sorted
  obtain ⟨before, after, run⟩ := mem_runs member
  have day (t : ℤ) (inside : t ∈ r) : date (standardTime.wall t) = 20460 := by
    obtain ⟨from_start, to_stop, -⟩ := (mem_expectedBarMinutes (standardTime_quiet _)).mp (run.listed inside)
    apply date_eq
    · show 20460 * 86400000000 ≤ t + -18000000000
      omega
    · show t + -18000000000 < (20460 + 1) * 86400000000
      omega
  have same := (day _ first).trans (day _ last).symm
  exact absurd overnight same.not_lt

end OptionsProof.Gaps
