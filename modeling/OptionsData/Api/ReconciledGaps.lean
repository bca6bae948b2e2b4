import OptionsData.Api.Gaps
import OptionsData.Ingestion.GapReconcile
import OptionsData.Ingestion.MaximalGaps
import OptionsData.Ingestion.MissingMinutes

namespace OptionsProof.ReconciledGaps

open Kit OptionsModel OptionsProof.GapDetection OptionsProof.GapReconcile OptionsProof.MaximalGaps
open OptionsProof.MissingMinutes

def rowTimes (table : UnderlyingTable) (ticker : String) : Finset ℤ :=
  ((table.keys.filter fun key => key.1 = ticker).map fun key => key.2 * 1000).toFinset

/-- The clock is ahead by whole minutes, as New York's is. -/
def WholeOffsets (z : Zone) : Prop := ∀ instant, MINUTE ∣ z.utcOffset instant

def Unavailable (candles : List Candle) (time : ℤ) : Prop :=
  ∀ candle ∈ candles, candle.time = some time → usableCandle candle = false

variable {z : Zone} {requestCandles : ℤ → List Candle} {candles : List Candle} {table : UnderlyingTable}
  {ticker : String} {start stop now : ℤ}

theorem mem_rowTimes {time : ℤ} : time * 1000 ∈ rowTimes table ticker ↔ (ticker, time) ∈ table := by
  rw [rowTimes, List.mem_toFinset, List.mem_map]
  constructor
  · intro premise
    obtain ⟨key, listed, same⟩ := premise
    obtain ⟨stored, own⟩ := List.mem_filter.mp listed
    have key_eq : key = (ticker, time) := Prod.ext (of_decide_eq_true own) (by dsimp only; omega)
    exact key_eq ▸ AList.mem_keys.mp stored
  · intro stored
    exact ⟨(ticker, time), List.mem_filter.mpr ⟨AList.mem_keys.mpr stored, decide_eq_true rfl⟩, rfl⟩

theorem wall_whole (offsets : WholeOffsets z) {instant : ℤ} : MINUTE ∣ z.wall instant ↔ MINUTE ∣ instant :=
  Int.dvd_add_left (offsets instant)

theorem firstReading_whole (offsets : WholeOffsets z) (aligned : MINUTE ∣ start) (day : ℤ) :
    MINUTE ∣ firstReading (z.wall start) day := by
  have opens : MINUTE ∣ day * DAY + MARKET_OPEN := by
    unfold MINUTE DAY MARKET_OPEN
    omega
  rcases max_choice (day * DAY + MARKET_OPEN) (z.wall start) with first | second
  · rw [firstReading, first]
    exact opens
  · rw [firstReading, second]
    exact (wall_whole offsets).mpr aligned

theorem on_grid (quiet : z.QuietAt InSession) (offsets : WholeOffsets z) (aligned : MINUTE ∣ start) {t : ℤ}
    (minute : SessionMinute z start stop t) : ¬ OffGrid z start t := by
  have shift := sub_firstExpected quiet minute
  have whole := dvd_sub ((wall_whole offsets).mpr minute.whole) (firstReading_whole offsets aligned (date (z.wall t)))
  rw [shift, dvd_sub_right minute.whole] at whole
  exact not_not.mpr whole

theorem expected_minute (quiet : z.QuietAt InSession) (offsets : WholeOffsets z) (aligned : MINUTE ∣ start) {t : ℤ}
    (expected : t ∈ expectedBarMinutes z start stop) : SessionMinute z start stop t := by
  obtain ⟨after, before, session, step⟩ := (mem_expectedBarMinutes quiet).mp expected
  refine ⟨after, before, session, (wall_whole offsets).mp ?_⟩
  exact (dvd_sub_left (firstReading_whole offsets aligned _)).mp step

theorem getGaps_gaps (quiet : z.QuietAt InSession) {times : String → Finset ℤ} {response : GapsResponse}
    (answered : getGaps z times ticker start stop 1 now = .ok response) :
    response.gaps = (findGaps z (times ticker) start stop 1).map fun g =>
      ⟨g.start, g.stop, g.minutes, g.stop < now - RETENTION_DAYS * DAY⟩ := by
  unfold getGaps at answered
  split_ifs at answered
  cases answered
  exact congrArg (List.map _) (OptionsProof.Gaps.findGaps_inRange quiet 1)

theorem mem_reconciled (quiet : z.QuietAt InSession) (whole : ∀ time, (ticker, time) ∈ table → 60000 ∣ time)
    (answers : Answers requestCandles candles)
    (returned : (reconcileUnderlyingGaps z requestCandles table ticker start stop 1 now).result ≠ none)
    {time : ℤ} (minute : SessionMinute z start stop (time * 1000)) :
    (ticker, time) ∈ (reconcileUnderlyingGaps z requestCandles table ticker start stop 1 now).table ↔
      (ticker, time) ∈ table ∨ now - RETENTION_DAYS * DAY ≤ time * 1000 ∧ ¬ Unavailable candles time := by
  constructor
  · intro stored
    rcases reconcile_cases table quiet rfl rfl rfl with
      ⟨-, -, same, -⟩ | ⟨earliest, expected, -, -, -, ⟨-, same, -⟩ | ⟨-, written, -⟩⟩
    · exact .inl (same ▸ stored)
    · exact .inl (same ▸ stored)
    · rw [written, mem_backfillUnderlying] at stored
      rcases stored with before | ⟨candle, received, at_, ok⟩
      · exact .inl before
      · obtain ⟨listed, other, at', asked⟩ := (answers _ _).mp received
        obtain rfl : other = time := Option.some.inj (at'.symm.trans at_)
        refine .inr ⟨(expected_after_cutoff quiet expected).trans asked, fun unavailable => ?_⟩
        exact Bool.false_ne_true ((unavailable candle listed at_).symm.trans ok)
  · intro premise
    rcases premise with before | ⟨retained, available⟩
    · obtain ⟨row, found⟩ := (Dict.mem_iff _ _).mp before
      exact (Dict.mem_iff _ _).mpr ⟨row, reconcile_keeps quiet found⟩
    · unfold Unavailable at available
      push Not at available
      obtain ⟨candle, listed, at_, ok⟩ := available
      apply reconcile_fills quiet whole answers
      · exact ⟨max_le minute.after retained, minute.before, minute.session, minute.whole⟩
      · exact ⟨candle, listed, at_, Bool.eq_true_of_not_eq_false ok⟩
      · exact returned

/-- What GET /gaps still reports after a reconciliation that returns: the minutes that were not stored and that the
source cannot fill, or that were before its retention; each gap not marked as before retention ends with one that it
cannot fill. -/
theorem gaps_after_reconcile (quiet : z.QuietAt InSession) (offsets : WholeOffsets z)
    (whole : ∀ time, (ticker, time) ∈ table → 60000 ∣ time) (answers : Answers requestCandles candles)
    (returned : (reconcileUnderlyingGaps z requestCandles table ticker start stop 1 now).result ≠ none)
    {start' stop' later : ℤ} (inside : start ≤ start' ∧ stop' ≤ stop) (aligned : MINUTE ∣ start')
    (after : now ≤ later) {response : GapsResponse}
    (answered : getGaps z (rowTimes (reconcileUnderlyingGaps z requestCandles table ticker start stop 1 now).table)
      ticker start' stop' 1 later = .ok response) :
    (∀ time, SessionMinute z start' stop' (time * 1000) →
      ((∃ g ∈ response.gaps, g.start ≤ time * 1000 ∧ time * 1000 ≤ g.stop) ↔
        (ticker, time) ∉ table ∧ (time * 1000 < now - RETENTION_DAYS * DAY ∨ Unavailable candles time))) ∧
    ∀ g ∈ response.gaps, g.beforeRetention = false → ∃ time, g.stop = time * 1000 ∧
      SessionMinute z start' stop' (time * 1000) ∧ (ticker, time) ∉ table ∧ Unavailable candles time := by
  have wider {t : ℤ} (minute : SessionMinute z start' stop' t) : SessionMinute z start stop t :=
    ⟨inside.1.trans minute.after, minute.before.trans inside.2, minute.session, minute.whole⟩
  rw [getGaps_gaps quiet answered]
  constructor
  · intro time minute
    have reported : (∃ g ∈ findGaps z (rowTimes (reconcileUnderlyingGaps z requestCandles table ticker start stop 1
        now).table ticker) start' stop' 1, g.start ≤ time * 1000 ∧ time * 1000 ≤ g.stop) ↔
          time * 1000 ∉ rowTimes _ ticker := reported_on_grid quiet minute (on_grid quiet offsets aligned minute)
    rw [mem_rowTimes, mem_reconciled quiet whole answers returned (wider minute), not_or, not_and_or, not_le,
      not_not] at reported
    rw [← reported]
    simp only [List.mem_map, exists_exists_and_eq_and]
  · intro g listed recent
    obtain ⟨gap, found, rfl⟩ := List.mem_map.mp listed
    have late : later - RETENTION_DAYS * DAY ≤ gap.stop := not_lt.mp (of_decide_eq_false recent)
    obtain ⟨r, member, -, -, last, -⟩ := gap_ends quiet found
    obtain ⟨_, _, run⟩ := mem_runs member
    have minute := expected_minute quiet offsets aligned (run.listed last)
    have missing := of_decide_eq_true (run.passes gap.stop last)
    obtain ⟨time, exact_⟩ : ∃ time, gap.stop = time * 1000 := by
      obtain ⟨k, same⟩ := minute.whole
      exact ⟨60000 * k, by unfold MINUTE at same; omega⟩
    rw [exact_] at minute missing late
    rw [mem_rowTimes, mem_reconciled quiet whole answers returned (wider minute), not_or, not_and, not_not] at missing
    exact ⟨time, exact_, minute, missing.1, missing.2 (by omega)⟩

theorem standardTime_whole : WholeOffsets standardTime := fun _ => by
  show MINUTE ∣ -18000000000
  decide

/-- Of a Wednesday morning's three minutes without bars the source has one, and one that it shows as zero. -/
theorem gaps_after_reconcile_wednesday :
    ∃ response, getGaps standardTime (rowTimes (reconcileUnderlyingGaps standardTime
        (fun start => sourceCandles.filter fun candle => candle.time.any (start ≤ · * 1000)) ∅ "SPX"
        1767798030000000 1767798300000000 1 1767830400000000).table) "SPX" 1767798060000000 1767798180000000 1
        1767830400000000 = .ok response ∧
      (¬ ∃ g ∈ response.gaps, g.start ≤ 1767798060000 * 1000 ∧ 1767798060000 * 1000 ≤ g.stop) ∧
      ∃ g ∈ response.gaps, g.start ≤ 1767798120000 * 1000 ∧ 1767798120000 * 1000 ≤ g.stop := by
  obtain ⟨response, answered⟩ : ∃ response, getGaps standardTime (rowTimes (reconcileUnderlyingGaps standardTime
      (fun start => sourceCandles.filter fun candle => candle.time.any (start ≤ · * 1000)) ∅ "SPX"
      1767798030000000 1767798300000000 1 1767830400000000).table) "SPX" 1767798060000000 1767798180000000 1
      1767830400000000 = .ok response :=
    OptionsProof.Gaps.getGaps_answers (by decide) (by decide) _
  have reported := (gaps_after_reconcile (standardTime_quiet InSession) standardTime_whole
    (fun _ stored => absurd stored (AList.notMem_empty _)) (answers_filter sourceCandles)
    (reconcile_returns (standardTime_quiet InSession) (answers_filter sourceCandles) sourceCandles_storable)
    (by decide) (by decide) (by decide) answered).1
  refine ⟨response, answered, ?_, ?_⟩
  · rw [reported 1767798060000 ⟨by decide, by decide, by decide, by decide⟩, Unavailable]
    decide +kernel
  · rw [reported 1767798120000 ⟨by decide, by decide, by decide, by decide⟩, Unavailable]
    decide +kernel

end OptionsProof.ReconciledGaps
