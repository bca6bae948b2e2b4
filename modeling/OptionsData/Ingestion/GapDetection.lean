import OptionsData.Kit.Zone
import OptionsData.Kit.Stepping
import OptionsData.Kit.Runs

namespace OptionsModel

open Kit

/-- Instants and clock readings are in microseconds since the epoch, and so are the spans between them. -/
def MINUTE : ℤ := 60000000

def DAY : ℤ := 86400000000

def MARKET_OPEN : ℤ := 34200000000

def MARKET_CLOSE : ℤ := 57600000000

def RETENTION_DAYS : ℤ := 14

def date (reading : ℤ) : ℤ := reading / DAY

/-- Monday is 0; the epoch was a Thursday. -/
def weekday (day : ℤ) : ℤ := (day + 3) % 7

structure Gap where
  start : ℤ
  stop : ℤ
deriving DecidableEq, Repr

def Gap.minutes (g : Gap) : ℤ := (g.stop - g.start) / MINUTE + 1

def firstReading (startEt day : ℤ) : ℤ := max (day * DAY + MARKET_OPEN) startEt

def sessionMinutes (z : Zone) (startEt endEt day : ℤ) : List ℤ :=
  if weekday day < 5 then
    (countUp (firstReading startEt day) (min (day * DAY + MARKET_CLOSE) endEt) MINUTE).map z.utc
  else []

def expectedBarMinutes (z : Zone) (start stop : ℤ) : List ℤ :=
  (countUp (date (z.wall start)) (date (z.wall stop)) 1).flatMap (sessionMinutes z (z.wall start) (z.wall stop))

structure GapScan where
  gaps : List Gap := []
  gapStart : Option ℤ := none
  prev : Option ℤ := none

/-- `prev` is set whenever a gap is open. -/
def GapScan.close (s : GapScan) : List Gap :=
  match s.gapStart with
  | some gapStart => s.gaps ++ [⟨gapStart, s.prev.getD gapStart⟩]
  | none => s.gaps

def scanMinute (existing : Finset ℤ) (s : GapScan) (minute : ℤ) : GapScan :=
  if minute ∉ existing then { s with gapStart := some (s.gapStart.getD minute), prev := some minute }
  else { gaps := s.close, gapStart := none, prev := some minute }

def findGaps (z : Zone) (existing : Finset ℤ) (start stop : ℤ) (minGapMinutes : ℤ) : List Gap :=
  ((expectedBarMinutes z start stop).foldl (scanMinute existing) {}).close.filter (minGapMinutes ≤ ·.minutes)

end OptionsModel

namespace OptionsProof.GapDetection

open Kit OptionsModel

def InSession (reading : ℤ) : Prop :=
  weekday (date reading) < 5 ∧ date reading * DAY + MARKET_OPEN ≤ reading ∧
    reading ≤ date reading * DAY + MARKET_CLOSE

instance (reading : ℤ) : Decidable (InSession reading) := inferInstanceAs (Decidable (_ ∧ _ ∧ _))

variable {z : Zone} {existing : Finset ℤ} {start stop : ℤ}

theorem date_eq {day reading : ℤ} (low : day * DAY ≤ reading) (high : reading < (day + 1) * DAY) :
    date reading = day := by
  unfold date DAY at *
  omega

theorem date_mono {reading other : ℤ} (le : reading ≤ other) : date reading ≤ date other :=
  Int.ediv_le_ediv (by decide) le

theorem reading_inSession {startEt endEt day reading : ℤ} (workday : weekday day < 5)
    (listed : reading ∈ countUp (firstReading startEt day) (min (day * DAY + MARKET_CLOSE) endEt) MINUTE) :
    InSession reading ∧ date reading = day := by
  obtain ⟨opened, closing, -⟩ := (mem_countUp (by decide)).mp listed
  rw [firstReading, max_le_iff] at opened
  rw [le_min_iff] at closing
  have today : date reading = day := by
    apply date_eq
    · unfold MARKET_OPEN DAY at *
      omega
    · unfold MARKET_CLOSE DAY at *
      omega
  exact ⟨⟨today ▸ workday, today ▸ opened.1, today ▸ closing.1⟩, today⟩

theorem mem_sessionMinutes (quiet : z.QuietAt InSession) {day t : ℤ} :
    t ∈ sessionMinutes z (z.wall start) (z.wall stop) day ↔ start ≤ t ∧ t ≤ stop ∧ InSession (z.wall t) ∧
      date (z.wall t) = day ∧ MINUTE ∣ z.wall t - firstReading (z.wall start) day := by
  rw [sessionMinutes]
  split
  · next workday =>
    rw [List.mem_map]
    constructor
    · intro premise
      obtain ⟨reading, listed, rfl⟩ := premise
      obtain ⟨session, today⟩ := reading_inSession workday listed
      obtain ⟨opened, closing, step⟩ := (mem_countUp (by decide)).mp listed
      rw [quiet.wall_utc session]
      exact ⟨(quiet.wall_le session).mp ((le_max_right _ _).trans opened),
        (quiet.le_wall session).mp (closing.trans (min_le_right _ _)), session, today, step⟩
    · intro premise
      obtain ⟨after, before, session, rfl, step⟩ := premise
      have instant := quiet.utc_wall session
      refine ⟨z.wall t, (mem_countUp (by decide)).mpr ⟨max_le session.2.1 ?_, le_min session.2.2 ?_, step⟩, instant⟩
      · rw [quiet.wall_le session, instant]
        exact after
      · rw [quiet.le_wall session, instant]
        exact before
  · next weekend =>
    constructor
    · intro listed
      cases listed
    · intro premise
      obtain ⟨-, -, session, rfl, -⟩ := premise
      exact absurd session.1 weekend

theorem mem_expectedBarMinutes (quiet : z.QuietAt InSession) {t : ℤ} :
    t ∈ expectedBarMinutes z start stop ↔ start ≤ t ∧ t ≤ stop ∧ InSession (z.wall t) ∧
      MINUTE ∣ z.wall t - firstReading (z.wall start) (date (z.wall t)) := by
  rw [expectedBarMinutes, List.mem_flatMap]
  simp only [mem_sessionMinutes quiet, mem_countUp one_pos]
  constructor
  · intro premise
    obtain ⟨day, -, after, before, session, rfl, step⟩ := premise
    exact ⟨after, before, session, step⟩
  · intro premise
    obtain ⟨after, before, session, step⟩ := premise
    refine ⟨date (z.wall t), ⟨date_mono ?_, date_mono ?_, one_dvd _⟩, after, before, session, rfl, step⟩
    · rw [quiet.wall_le session, quiet.utc_wall session]
      exact after
    · rw [quiet.le_wall session, quiet.utc_wall session]
      exact before

theorem sessionMinutes_sorted (quiet : z.QuietAt InSession) (startEt endEt day : ℤ) :
    (sessionMinutes z startEt endEt day).Pairwise (· < ·) := by
  unfold sessionMinutes
  split
  · next workday =>
    rw [List.pairwise_map]
    apply (countUp_sorted (by decide : 0 < MINUTE)).imp_of_mem
    intro reading other listed listed' before
    exact (quiet.utc_lt (reading_inSession workday listed).1 (reading_inSession workday listed').1).mpr before
  · exact List.Pairwise.nil

theorem expectedBarMinutes_sorted (quiet : z.QuietAt InSession) :
    (expectedBarMinutes z start stop).Pairwise (· < ·) := by
  rw [expectedBarMinutes, List.pairwise_flatMap]
  constructor
  · exact fun day _ => sessionMinutes_sorted quiet _ _ day
  · apply (countUp_sorted one_pos).imp
    intro day later before t listed u listed'
    obtain ⟨-, -, session, today, -⟩ := (mem_sessionMinutes quiet).mp listed
    obtain ⟨-, -, session', today', -⟩ := (mem_sessionMinutes quiet).mp listed'
    rw [← quiet.utc_wall session, ← quiet.utc_wall session', quiet.utc_lt session session']
    by_contra reversed
    have dates := date_mono (not_lt.mp reversed)
    omega

/-- A whole minute of the range, on a weekday and between the open and the close. -/
structure SessionMinute (z : Zone) (start stop t : ℤ) : Prop where
  after : start ≤ t
  before : t ≤ stop
  session : InSession (z.wall t)
  whole : MINUTE ∣ t

def firstExpected (z : Zone) (start t : ℤ) : ℤ := z.utc (firstReading (z.wall start) (date (z.wall t)))

theorem utc_sub (quiet : z.QuietAt InSession) {reading other : ℤ} (session : InSession reading)
    (session' : InSession other) (today : date reading = date other) (le : reading ≤ other) :
    z.utc other = z.utc reading + (other - reading) := by
  obtain ⟨steps, rfl⟩ := Int.le.dest le
  rw [add_sub_cancel_left]
  apply quiet.utc_add
  intro between low high
  have here : date between = date reading :=
    le_antisymm (today ▸ date_mono high) (date_mono low)
  exact ⟨here ▸ session.1, here ▸ session.2.1.trans low, here.trans today ▸ high.trans session'.2.2⟩

section Days

variable {t : ℤ} (quiet : z.QuietAt InSession) (minute : SessionMinute z start stop t)

include quiet minute

theorem firstReading_inSession : InSession (firstReading (z.wall start) (date (z.wall t))) ∧
    date (firstReading (z.wall start) (date (z.wall t))) = date (z.wall t) ∧
      firstReading (z.wall start) (date (z.wall t)) ≤ z.wall t := by
  have session := minute.session
  have reached : z.wall start ≤ z.wall t := by
    rw [quiet.wall_le session, quiet.utc_wall session]
    exact minute.after
  have opened : date (z.wall t) * DAY + MARKET_OPEN ≤ firstReading (z.wall start) (date (z.wall t)) :=
    le_max_left _ _
  have early : firstReading (z.wall start) (date (z.wall t)) ≤ z.wall t := max_le session.2.1 reached
  have today : date (firstReading (z.wall start) (date (z.wall t))) = date (z.wall t) := by
    apply date_eq
    · unfold MARKET_OPEN DAY at *
      omega
    · have closing := session.2.2
      unfold MARKET_CLOSE DAY at *
      omega
  refine ⟨⟨?_, ?_, ?_⟩, today, early⟩
  · rw [today]
    exact session.1
  · rw [today]
    exact opened
  · rw [today]
    exact early.trans session.2.2

theorem firstExpected_mem :
    firstExpected z start t ∈ expectedBarMinutes z start stop ∧ firstExpected z start t ≤ t := by
  obtain ⟨session, today, early⟩ := firstReading_inSession quiet minute
  have before : firstExpected z start t ≤ t := by
    rw [firstExpected, ← quiet.le_wall session]
    exact early
  refine ⟨(mem_expectedBarMinutes quiet).mpr ⟨?_, before.trans minute.before, ?_⟩, before⟩
  · rw [firstExpected, ← quiet.wall_le session]
    exact le_max_right _ _
  · rw [firstExpected, quiet.wall_utc session, today, sub_self]
    exact ⟨session, dvd_zero _⟩

theorem sub_firstExpected :
    z.wall t - firstReading (z.wall start) (date (z.wall t)) = t - firstExpected z start t := by
  obtain ⟨session, today, early⟩ := firstReading_inSession quiet minute
  have shift := utc_sub quiet session minute.session today early
  rw [quiet.utc_wall minute.session] at shift
  rw [firstExpected]
  omega

theorem mem_expected_iff : t ∈ expectedBarMinutes z start stop ↔ MINUTE ∣ firstExpected z start t := by
  rw [mem_expectedBarMinutes quiet, sub_firstExpected quiet minute, dvd_sub_right minute.whole]
  simp only [minute.after, minute.before, minute.session, true_and]

theorem missing_before (whole : ∀ stored ∈ existing, MINUTE ∣ stored) (absent : t ∉ existing) :
    ∃ e ∈ expectedBarMinutes z start stop, e ≤ t ∧ e ∉ existing := by
  by_cases aligned : MINUTE ∣ firstExpected z start t
  · exact ⟨t, (mem_expected_iff quiet minute).mpr aligned, le_rfl, absent⟩
  · obtain ⟨expected, early⟩ := firstExpected_mem quiet minute
    exact ⟨_, expected, early, fun stored => aligned (whole _ stored)⟩

end Days

def gapOf (r : List ℤ) : Gap := ⟨r.headD 0, r.getLastD 0⟩

theorem scan_missing {minutes : List ℤ} (missing : ∀ minute ∈ minutes, minute ∉ existing) (gaps : List Gap)
    (gapStart prev : ℤ) : minutes.foldl (scanMinute existing) ⟨gaps, some gapStart, some prev⟩ =
      ⟨gaps, some gapStart, some (minutes.getLastD prev)⟩ := by
  induction minutes generalizing prev with
  | nil => rfl
  | cons minute minutes ih =>
    have first : scanMinute existing ⟨gaps, some gapStart, some prev⟩ minute = ⟨gaps, some gapStart, some minute⟩ :=
      if_pos (missing minute List.mem_cons_self)
    rw [List.foldl_cons, first, ih fun later member => missing later (List.mem_cons_of_mem _ member),
      List.getLastD_cons]

theorem scan_closed (s : GapScan) {minutes : List ℤ} (present : ∀ minute ∈ minutes.head?, minute ∈ existing) :
    (minutes.foldl (scanMinute existing) s).close =
      (minutes.foldl (scanMinute existing) ⟨s.close, none, s.prev⟩).close := by
  cases minutes with
  | nil => rfl
  | cons minute minutes =>
    have here : ¬ minute ∉ existing := not_not.mpr (present minute rfl)
    rw [List.foldl_cons, List.foldl_cons, scanMinute, if_neg here, scanMinute, if_neg here]
    rfl

theorem scan_runs (minutes : List ℤ) (gaps : List Gap) (prev : Option ℤ) :
    (minutes.foldl (scanMinute existing) ⟨gaps, none, prev⟩).close =
      gaps ++ (runs (fun minute => minute ∉ existing) minutes).map gapOf := by
  fun_induction runs (fun minute => decide (minute ∉ existing)) minutes generalizing gaps prev with
  | case1 => simp [GapScan.close]
  | case2 minute minutes missing ih =>
    have first : scanMinute existing ⟨gaps, none, prev⟩ minute = ⟨gaps, some minute, some minute⟩ :=
      if_pos (of_decide_eq_true missing)
    have taken (later : ℤ) (member : later ∈ minutes.takeWhile fun minute => minute ∉ existing) :
        later ∉ existing := by
      have passes := List.mem_takeWhile_imp member
      simpa using passes
    have present (later : ℤ) (head : later ∈ (minutes.dropWhile fun minute => minute ∉ existing).head?) :
        later ∈ existing := by
      have fails := head_dropWhile _ minutes later head
      simpa using fails
    have split (s : GapScan) : minutes.foldl (scanMinute existing) s =
        (minutes.dropWhile fun minute => minute ∉ existing).foldl (scanMinute existing)
          ((minutes.takeWhile fun minute => minute ∉ existing).foldl (scanMinute existing) s) := by
      rw [← List.foldl_append, List.takeWhile_append_dropWhile]
    rw [List.foldl_cons, first, split, scan_missing taken, scan_closed _ present, ih, List.map_cons, gapOf,
      List.getLastD_cons, GapScan.close, List.append_assoc]
    rfl
  | case3 minute minutes present ih =>
    have here : scanMinute existing ⟨gaps, none, prev⟩ minute = ⟨gaps, none, some minute⟩ := by
      rw [scanMinute, if_neg (by simpa using present)]
      rfl
    rw [List.foldl_cons, here, ih]

theorem findGaps_eq (minGapMinutes : ℤ) : findGaps z existing start stop minGapMinutes =
    ((runs (fun minute => minute ∉ existing) (expectedBarMinutes z start stop)).map gapOf).filter
      (minGapMinutes ≤ ·.minutes) := by
  rw [findGaps]
  exact congrArg (List.filter _) (scan_runs _ [] none)

theorem runs_sorted (quiet : z.QuietAt InSession) {r : List ℤ}
    (member : r ∈ runs (fun minute => minute ∉ existing) (expectedBarMinutes z start stop)) :
    r ≠ [] ∧ r.Pairwise (· < ·) := by
  obtain ⟨before, after, run⟩ := mem_runs member
  have sorted : (expectedBarMinutes z start stop).Pairwise (· < ·) := expectedBarMinutes_sorted quiet
  rw [run.split, List.pairwise_append, List.pairwise_append] at sorted
  exact ⟨run.nonempty, sorted.1.2.1⟩

theorem gapOf_ends {r : List ℤ} (nonempty : r ≠ []) (sorted : r.Pairwise (· < ·)) :
    (gapOf r).start ∈ r ∧ (gapOf r).stop ∈ r ∧ ∀ t ∈ r, (gapOf r).start ≤ t ∧ t ≤ (gapOf r).stop := by
  have last : (gapOf r).stop = r.getLast nonempty := by
    rw [gapOf, List.getLastD_eq_getLast?, List.getLast?_eq_some_getLast nonempty]
    rfl
  rw [last]
  have weakly : r.Pairwise (· ≤ ·) := sorted.imp le_of_lt
  refine ⟨?_, List.getLast_mem nonempty, fun t listed => ⟨?_, weakly.rel_getLast listed⟩⟩
  all_goals obtain ⟨first, rest, rfl⟩ := List.exists_cons_of_ne_nil nonempty
  · exact List.mem_cons_self
  · rcases List.mem_cons.mp listed with rfl | later
    · exact le_rfl
    · exact List.rel_of_pairwise_cons weakly later

theorem minutes_pos {r : List ℤ} (nonempty : r ≠ []) (sorted : r.Pairwise (· < ·)) : 1 ≤ (gapOf r).minutes := by
  obtain ⟨-, last, between⟩ := gapOf_ends nonempty sorted
  have ordered := (between _ last).1
  have nonneg : 0 ≤ ((gapOf r).stop - (gapOf r).start) / MINUTE := Int.ediv_nonneg (by omega) (by decide)
  rw [Gap.minutes]
  omega

theorem findGaps_one (quiet : z.QuietAt InSession) : findGaps z existing start stop 1 =
    (runs (fun minute => minute ∉ existing) (expectedBarMinutes z start stop)).map gapOf := by
  rw [findGaps_eq, List.filter_eq_self]
  intro g listed
  obtain ⟨r, member, rfl⟩ := List.mem_map.mp listed
  obtain ⟨nonempty, sorted⟩ := runs_sorted quiet member
  exact decide_eq_true (minutes_pos nonempty sorted)

theorem gap_start_missing (quiet : z.QuietAt InSession) {g : Gap} (listed : g ∈ findGaps z existing start stop 1) :
    g.start ∈ expectedBarMinutes z start stop ∧ g.start ∉ existing := by
  rw [findGaps_one quiet] at listed
  obtain ⟨r, member, rfl⟩ := List.mem_map.mp listed
  obtain ⟨nonempty, sorted⟩ := runs_sorted quiet member
  have first := (gapOf_ends nonempty sorted).1
  obtain ⟨before, after, run⟩ := mem_runs member
  exact ⟨run.listed first, of_decide_eq_true (run.passes _ first)⟩

/-- An instant is in a gap exactly if it lies between two expected minutes with none stored from one to the other. -/
theorem in_gap_iff (quiet : z.QuietAt InSession) {t : ℤ} :
    (∃ g ∈ findGaps z existing start stop 1, g.start ≤ t ∧ t ≤ g.stop) ↔
      ∃ a ∈ expectedBarMinutes z start stop, ∃ b ∈ expectedBarMinutes z start stop, a ≤ t ∧ t ≤ b ∧
        ∀ c ∈ expectedBarMinutes z start stop, a ≤ c → c ≤ b → c ∉ existing := by
  have sorted : (expectedBarMinutes z start stop).Pairwise (· < ·) := expectedBarMinutes_sorted quiet
  have between := between_run_iff (fun minute => decide (minute ∉ existing)) sorted t
  simp only [decide_eq_true_eq] at between
  rw [← between, findGaps_one quiet]
  constructor
  · intro premise
    obtain ⟨g, listed, low, high⟩ := premise
    obtain ⟨r, member, rfl⟩ := List.mem_map.mp listed
    obtain ⟨nonempty, sorted⟩ := runs_sorted quiet member
    obtain ⟨first, last, -⟩ := gapOf_ends nonempty sorted
    exact ⟨r, member, _, first, _, last, low, high⟩
  · intro premise
    obtain ⟨r, member, a, first, b, last, low, high⟩ := premise
    obtain ⟨nonempty, sorted⟩ := runs_sorted quiet member
    obtain ⟨-, -, within⟩ := gapOf_ends nonempty sorted
    exact ⟨gapOf r, List.mem_map_of_mem member, (within a first).1.trans low, high.trans (within b last).2⟩

def standardTime : Zone where
  utcOffset _ := -18000000000
  wallOffset _ := -18000000000

theorem standardTime_quiet (quiet : ℤ → Prop) : standardTime.QuietAt quiet where
  bounded := ⟨18000000000, fun _ => show |(-18000000000 : ℤ)| ≤ 18000000000 from by decide⟩
  unchanged _ _ _ _ _ := rfl
  reads _ _ _ := rfl

end OptionsProof.GapDetection
