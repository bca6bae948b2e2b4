import OptionsData.Ingestion.CandleWriter
import OptionsData.Ingestion.GapDetection

namespace OptionsModel

open Kit

structure ReconcileResult where
  ticker : String
  scanStart : ℤ
  scanEnd : ℤ
  requestedStartBeforeRetention : Bool
  gapsFound : ℕ
  gapsReconciled : ℕ
  barsWritten : ℕ
deriving DecidableEq, Repr

/-- The table after a call, what the call returns, and where its request, if it made one, started; a call that raises
has no result. -/
structure Reconciled where
  table : UnderlyingTable
  result : Option ReconcileResult
  requestStart : Option ℤ

def existingTimes (table : UnderlyingTable) (ticker : String) (start stop : ℤ) : Finset ℤ :=
  ((table.keys.filter fun key => key.1 = ticker).map fun key => key.2 * 1000).toFinset.filter
    fun time => start ≤ time ∧ time ≤ stop

def reconcileUnderlyingGaps (z : Zone) (requestCandles : ℤ → List Candle) (table : UnderlyingTable) (ticker : String)
    (start stop minGapMinutes now : ℤ) : Reconciled :=
  let retentionCutoff := now - RETENTION_DAYS * DAY
  let scanStart := max start retentionCutoff
  let gaps := findGaps z (existingTimes table ticker scanStart stop) scanStart stop minGapMinutes
  let result : ReconcileResult :=
    { ticker := ticker, scanStart := scanStart, scanEnd := stop
      requestedStartBeforeRetention := start < retentionCutoff
      gapsFound := gaps.length, gapsReconciled := gaps.length, barsWritten := 0 }
  match (gaps.map Gap.start).min? with
  | none => { table := table, result := some result, requestStart := none }
  | some earliestGapStart =>
    match tryBackfillUnderlying ticker table (requestCandles earliestGapStart) with
    | none => { table := table, result := none, requestStart := some earliestGapStart }
    | some (table, written) =>
      { table := table
        result := some { result with barsWritten := written }
        requestStart := some earliestGapStart }

end OptionsModel

namespace OptionsProof.GapReconcile

open Kit OptionsModel OptionsProof.GapDetection

/-- A request is answered with the candles that the source has at or after its start, in any order. -/
def Answers (requestCandles : ℤ → List Candle) (candles : List Candle) : Prop :=
  ∀ start candle, candle ∈ requestCandles start ↔
    candle ∈ candles ∧ ∃ time, candle.time = some time ∧ start ≤ time * 1000

/-- Each candle has a time that a `datetime` can hold and, if its close is usable, values that the columns can. -/
def Storable (candles : List Candle) : Prop :=
  ∀ candle ∈ candles, ∀ time, candle.time = some time → (UtcDateTime.fromTimestamp time).isSome ∧
    (usableCandle candle = true → (underlyingCandleRow candle).fits = true)

def Commits (ticker : String) (table : UnderlyingTable) (received : List Candle) : Prop :=
  WriteLoop.commits ticker usableCandle underlyingCandleRow UnderlyingBar1m.fits table received = true

variable {z : Zone} {requestCandles again : ℤ → List Candle} {candles : List Candle} {table : UnderlyingTable}
  {ticker : String} {start stop now : ℤ}

theorem firstUsable_some {usable : Candle → Bool} {time : ℤ} {received : List Candle} {first : Candle}
    (found : WriteLoop.firstUsable usable time received = some first) :
    first ∈ received ∧ first.time = some time ∧ usable first = true := by
  have meets := List.find?_some found
  rw [Bool.and_eq_true, decide_eq_true_eq] at meets
  exact ⟨List.mem_of_find?_eq_some found, meets⟩

theorem commits_of_storable {received : List Candle} (storable : Storable candles)
    (part : ∀ candle ∈ received, candle ∈ candles) : Commits ticker table received := by
  refine WriteLoop.commits_iff.mpr fun candle member time at_ => ⟨(storable candle (part candle member) time at_).1, ?_⟩
  refine .inr fun first found => ?_
  obtain ⟨listed, there, usable⟩ := firstUsable_some found
  exact (storable first (part first listed) time there).2 usable

theorem mem_existingTimes {t : ℤ} :
    t ∈ existingTimes table ticker start stop ↔
      (∃ time, (ticker, time) ∈ table ∧ time * 1000 = t) ∧ start ≤ t ∧ t ≤ stop := by
  rw [existingTimes, Finset.mem_filter, List.mem_toFinset, List.mem_map]
  apply and_congr_left'
  constructor
  · intro premise
    obtain ⟨key, listed, same⟩ := premise
    obtain ⟨stored, own⟩ := List.mem_filter.mp listed
    obtain rfl := of_decide_eq_true own
    exact ⟨key.2, AList.mem_keys.mp stored, same⟩
  · intro premise
    obtain ⟨time, stored, same⟩ := premise
    exact ⟨(ticker, time), List.mem_filter.mpr ⟨AList.mem_keys.mpr stored, decide_eq_true rfl⟩, same⟩

/-- What a call comes to: nothing when no expected minute is missing, else one request from the first that is, whose
candles are written unless that raises. -/
theorem reconcile_cases (table : UnderlyingTable) (quiet : z.QuietAt InSession) {scanStart : ℤ}
    (clipped : scanStart = max start (now - RETENTION_DAYS * DAY)) {existing : Finset ℤ}
    (stored : existing = existingTimes table ticker scanStart stop) {r : Reconciled}
    (called : r = reconcileUnderlyingGaps z requestCandles table ticker start stop 1 now) :
    ((∀ e ∈ expectedBarMinutes z scanStart stop, e ∈ existing) ∧ r.requestStart = none ∧ r.table = table ∧
      ∃ result, r.result = some result ∧ result.barsWritten = 0) ∨
    ∃ earliest ∈ expectedBarMinutes z scanStart stop, earliest ∉ existing ∧
      (∀ e ∈ expectedBarMinutes z scanStart stop, e ∉ existing → earliest ≤ e) ∧ r.requestStart = some earliest ∧
      (¬ Commits ticker table (requestCandles earliest) ∧ r.table = table ∧ r.result = none ∨
        Commits ticker table (requestCandles earliest) ∧
          r.table = (backfillUnderlying ticker table (requestCandles earliest)).1 ∧
          ∃ result, r.result = some result ∧
            result.barsWritten = (backfillUnderlying ticker table (requestCandles earliest)).2) := by
  have missing (e : ℤ) (expected : e ∈ expectedBarMinutes z scanStart stop) (absent : e ∉ existing) :
      ∃ g ∈ findGaps z existing scanStart stop 1, g.start ≤ e := by
    have alone : ∃ a ∈ expectedBarMinutes z scanStart stop, ∃ b ∈ expectedBarMinutes z scanStart stop,
        a ≤ e ∧ e ≤ b ∧ ∀ c ∈ expectedBarMinutes z scanStart stop, a ≤ c → c ≤ b → c ∉ existing :=
      ⟨e, expected, e, expected, le_rfl, le_rfl, fun c _ low high => le_antisymm high low ▸ absent⟩
    obtain ⟨g, listed, low, -⟩ := (in_gap_iff quiet).mpr alone
    exact ⟨g, listed, low⟩
  unfold reconcileUnderlyingGaps at called
  simp only [← clipped, ← stored] at called
  cases earliest : ((findGaps z existing scanStart stop 1).map Gap.start).min? with
  | none =>
    rw [earliest] at called
    have none_ := List.map_eq_nil_iff.mp (List.min?_eq_none_iff.mp earliest)
    refine .inl ⟨fun e expected => ?_, ?_, ?_, ?_⟩
    · by_contra absent
      obtain ⟨g, listed, -⟩ := missing e expected absent
      rw [none_] at listed
      cases listed
    · rw [called]
    · rw [called]
    · rw [called]
      exact ⟨_, rfl, rfl⟩
  | some first =>
    rw [earliest] at called
    obtain ⟨member, least⟩ := List.min?_eq_some_iff.mp earliest
    obtain ⟨g, listed, rfl⟩ := List.mem_map.mp member
    obtain ⟨expected, absent⟩ := gap_start_missing quiet listed
    have first_ (e : ℤ) (expected : e ∈ expectedBarMinutes z scanStart stop) (absent : e ∉ existing) :
        g.start ≤ e := by
      obtain ⟨other, listed', low⟩ := missing e expected absent
      exact (least _ (List.mem_map_of_mem listed')).trans low
    refine .inr ⟨g.start, expected, absent, first_, ?_⟩
    by_cases commits : Commits ticker table (requestCandles g.start)
    · have written : tryBackfillUnderlying ticker table (requestCandles g.start) =
          some (backfillUnderlying ticker table (requestCandles g.start)) := if_pos commits
      simp only [written] at called
      rw [called]
      exact ⟨rfl, .inr ⟨commits, rfl, _, rfl, rfl⟩⟩
    · have raised : tryBackfillUnderlying ticker table (requestCandles g.start) = none := if_neg commits
      simp only [raised] at called
      rw [called]
      exact ⟨rfl, .inl ⟨commits, rfl, rfl⟩⟩

theorem mem_backfillUnderlying {time : ℤ} {received : List Candle} :
    (ticker, time) ∈ (backfillUnderlying ticker table received).1 ↔
      (ticker, time) ∈ table ∨ ∃ candle ∈ received, candle.time = some time ∧ usableCandle candle = true := by
  rw [← AList.lookup_isSome, backfillUnderlying_table, WriteLoop.writeAll_lookup, Option.isSome_or, Bool.or_eq_true,
    AList.lookup_isSome, Option.isSome_map, WriteLoop.firstUsable, List.find?_isSome]
  simp only [Bool.and_eq_true, decide_eq_true_eq]

theorem backfillUnderlying_keeps {key : BarKey} {row : UnderlyingBar1m} (received : List Candle)
    (stored : table.lookup key = some row) : (backfillUnderlying ticker table received).1.lookup key = some row := by
  obtain ⟨identifier, time⟩ := key
  rw [backfillUnderlying_table]
  by_cases own : identifier = ticker
  · subst own
    rw [WriteLoop.writeAll_lookup, stored, Option.some_or]
  · rw [WriteLoop.writeAll_other own, stored]

theorem backfillUnderlying_idle {received : List Candle}
    (idle : ∀ candle ∈ received, ∀ time, candle.time = some time →
      (ticker, time) ∈ table ∨ usableCandle candle = false) :
    (backfillUnderlying ticker table received).2 = 0 := by
  unfold backfillUnderlying
  split
  · rfl
  · exact (WriteLoop.writeAll_idle idle).2

theorem expected_after_cutoff (quiet : z.QuietAt InSession) {e cutoff : ℤ}
    (expected : e ∈ expectedBarMinutes z (max start cutoff) stop) : cutoff ≤ e :=
  (le_max_right start cutoff).trans ((mem_expectedBarMinutes quiet).mp expected).1

theorem request_after_cutoff (quiet : z.QuietAt InSession) :
    ∀ request ∈ (reconcileUnderlyingGaps z requestCandles table ticker start stop 1 now).requestStart,
      now - RETENTION_DAYS * DAY ≤ request := by
  intro request asked
  rcases reconcile_cases table quiet rfl rfl rfl with ⟨-, none_, -⟩ | ⟨earliest, expected, -, -, some_, -⟩
  · rw [none_] at asked
    cases asked
  · rw [some_] at asked
    cases asked
    exact expected_after_cutoff quiet expected

theorem reconcile_keeps (quiet : z.QuietAt InSession) {key : BarKey} {row : UnderlyingBar1m}
    (stored : table.lookup key = some row) :
    (reconcileUnderlyingGaps z requestCandles table ticker start stop 1 now).table.lookup key = some row := by
  rcases reconcile_cases table quiet rfl rfl rfl with
    ⟨-, -, same, -⟩ | ⟨earliest, -, -, -, -, ⟨-, same, -⟩ | ⟨-, written, -⟩⟩
  · rw [same]
    exact stored
  · rw [same]
    exact stored
  · rw [written]
    exact backfillUnderlying_keeps _ stored

theorem reconcile_raised (quiet : z.QuietAt InSession)
    (raised : (reconcileUnderlyingGaps z requestCandles table ticker start stop 1 now).result = none) :
    (reconcileUnderlyingGaps z requestCandles table ticker start stop 1 now).table = table := by
  rcases reconcile_cases table quiet rfl rfl rfl with
    ⟨-, -, same, -⟩ | ⟨earliest, -, -, -, -, ⟨-, same, -⟩ | ⟨-, -, result, returned, -⟩⟩
  · exact same
  · exact same
  · rw [raised] at returned
    cases returned

theorem reconcile_returns (quiet : z.QuietAt InSession) (answers : Answers requestCandles candles)
    (storable : Storable candles) :
    (reconcileUnderlyingGaps z requestCandles table ticker start stop 1 now).result ≠ none := by
  rcases reconcile_cases table quiet rfl rfl rfl with
    ⟨-, -, -, result, returned, -⟩ | ⟨earliest, -, -, -, -, ⟨stops, -, -⟩ | ⟨-, -, result, returned, -⟩⟩
  · exact returned ▸ Option.some_ne_none result
  · exact absurd (commits_of_storable storable fun candle member => ((answers _ _).mp member).1) stops
  · exact returned ▸ Option.some_ne_none result

theorem existing_whole (whole : ∀ time, (ticker, time) ∈ table → 60000 ∣ time) :
    ∀ t ∈ existingTimes table ticker start stop, MINUTE ∣ t := by
  intro t listed
  obtain ⟨⟨time, there, rfl⟩, -⟩ := mem_existingTimes.mp listed
  exact mul_dvd_mul_right (whole time there) 1000

theorem reconcile_fills (quiet : z.QuietAt InSession) (whole : ∀ time, (ticker, time) ∈ table → 60000 ∣ time)
    (answers : Answers requestCandles candles) {time : ℤ}
    (minute : SessionMinute z (max start (now - RETENTION_DAYS * DAY)) stop (time * 1000))
    (usable : ∃ candle ∈ candles, candle.time = some time ∧ usableCandle candle = true)
    (returned : (reconcileUnderlyingGaps z requestCandles table ticker start stop 1 now).result ≠ none) :
    (ticker, time) ∈ (reconcileUnderlyingGaps z requestCandles table ticker start stop 1 now).table := by
  by_cases stored : (ticker, time) ∈ table
  · obtain ⟨row, found⟩ := (Dict.mem_iff _ _).mp stored
    exact (Dict.mem_iff _ _).mpr ⟨row, reconcile_keeps quiet found⟩
  · have absent : time * 1000 ∉ existingTimes table ticker (max start (now - RETENTION_DAYS * DAY)) stop := by
      intro listed
      obtain ⟨⟨other, there, same⟩, -⟩ := mem_existingTimes.mp listed
      obtain rfl : other = time := by omega
      exact stored there
    obtain ⟨e, expected, early, missing⟩ := missing_before quiet minute (existing_whole whole) absent
    rcases reconcile_cases table quiet rfl rfl rfl with
      ⟨complete, -⟩ | ⟨earliest, -, -, least, -, ⟨-, -, raised⟩ | ⟨-, written, -⟩⟩
    · exact absurd (complete e expected) missing
    · exact absurd raised returned
    · rw [written, mem_backfillUnderlying]
      obtain ⟨candle, listed, at_, ok⟩ := usable
      have asked := (least e expected missing).trans early
      exact .inr ⟨candle, (answers _ _).mpr ⟨listed, time, at_, asked⟩, at_, ok⟩

theorem existingTimes_mono {later : UnderlyingTable} (grown : ∀ key, key ∈ table → key ∈ later) {t : ℤ}
    (listed : t ∈ existingTimes table ticker start stop) : t ∈ existingTimes later ticker start stop := by
  obtain ⟨⟨time, there, same⟩, within⟩ := mem_existingTimes.mp listed
  exact mem_existingTimes.mpr ⟨⟨time, grown _ there, same⟩, within⟩

/-- A second call asks for candles that the first has had, if for any, and finds a row for each usable one. -/
theorem reconcile_again (quiet : z.QuietAt InSession) (answers : Answers requestCandles candles)
    (answers' : Answers again candles)
    (returned : (reconcileUnderlyingGaps z requestCandles table ticker start stop 1 now).result ≠ none) :
    ∃ result, (reconcileUnderlyingGaps z again
        (reconcileUnderlyingGaps z requestCandles table ticker start stop 1 now).table ticker start stop 1 now).result =
          some result ∧ result.barsWritten = 0 := by
  obtain ⟨first, made⟩ : ∃ first, first = reconcileUnderlyingGaps z requestCandles table ticker start stop 1 now :=
    ⟨_, rfl⟩
  rw [← made] at returned ⊢
  have grown (key : BarKey) (stored : key ∈ table) : key ∈ first.table := by
    obtain ⟨row, found⟩ := (Dict.mem_iff _ _).mp stored
    rw [made]
    exact (Dict.mem_iff _ _).mpr ⟨row, reconcile_keeps quiet found⟩
  have had {later : ℤ} (expected : later ∈ expectedBarMinutes z (max start (now - RETENTION_DAYS * DAY)) stop)
      (missing : later ∉ existingTimes first.table ticker (max start (now - RETENTION_DAYS * DAY)) stop) :
      ∃ earliest ≤ later, Commits ticker table (requestCandles earliest) ∧
        first.table = (backfillUnderlying ticker table (requestCandles earliest)).1 := by
    have missed : later ∉ existingTimes table ticker (max start (now - RETENTION_DAYS * DAY)) stop :=
      fun listed => missing (existingTimes_mono grown listed)
    rcases reconcile_cases table quiet rfl rfl made with
      ⟨complete, -⟩ | ⟨earliest, -, -, least, -, ⟨-, -, raised⟩ | ⟨commits, filled, -⟩⟩
    · exact absurd (complete later expected) missed
    · exact absurd raised returned
    · exact ⟨earliest, least later expected missed, commits, filled⟩
  rcases reconcile_cases first.table quiet rfl rfl rfl with
    ⟨-, -, -, none_⟩ | ⟨later, expected, missing, -, -, second⟩
  · exact none_
  obtain ⟨earliest, early, commits, filled⟩ := had expected missing
  have received (candle : Candle) (member : candle ∈ again later) : candle ∈ requestCandles earliest := by
    obtain ⟨listed, time, at_, asked⟩ := (answers' _ _).mp member
    exact (answers _ _).mpr ⟨listed, time, at_, early.trans asked⟩
  have stored (candle : Candle) (member : candle ∈ again later) (time : ℤ) (at_ : candle.time = some time)
      (usable : usableCandle candle = true) : (ticker, time) ∈ first.table := by
    rw [filled, mem_backfillUnderlying]
    exact .inr ⟨candle, received candle member, at_, usable⟩
  have passes : Commits ticker first.table (again later) := by
    refine WriteLoop.commits_iff.mpr fun candle member time at_ => ?_
    refine ⟨(WriteLoop.commits_iff.mp commits candle (received candle member) time at_).1, ?_⟩
    cases found : WriteLoop.firstUsable usableCandle time (again later) with
    | none => exact .inr fun _ some_ => by cases some_
    | some other =>
      obtain ⟨listed, there, usable⟩ := firstUsable_some found
      exact .inl (stored other listed time there usable)
  rcases second with ⟨stops, -, -⟩ | ⟨-, -, result, wrote, written⟩
  · exact absurd passes stops
  · refine ⟨result, wrote, written.trans (backfillUnderlying_idle fun candle member time at_ => ?_)⟩
    cases usable : usableCandle candle with
    | false => exact .inr rfl
    | true => exact .inl (stored candle member time at_ usable)

/-- A reconciliation that returns fills every session minute that the source has a usable candle for, and leaves nothing
for a second one to write; one that raises writes nothing, which only a candle that cannot be stored brings about. None
changes a row or asks for anything before the retention cutoff. -/
theorem reconcile_repairs (quiet : z.QuietAt InSession) (whole : ∀ time, (ticker, time) ∈ table → 60000 ∣ time)
    (answers : Answers requestCandles candles) (answers' : Answers again candles) (start stop now : ℤ) :
    let cutoff := now - RETENTION_DAYS * DAY
    let first := reconcileUnderlyingGaps z requestCandles table ticker start stop 1 now
    let second := reconcileUnderlyingGaps z again first.table ticker start stop 1 now
    (first.result ≠ none →
      (∀ time, SessionMinute z (max start cutoff) stop (time * 1000) →
        (∃ candle ∈ candles, candle.time = some time ∧ usableCandle candle = true) → (ticker, time) ∈ first.table) ∧
      ∃ result, second.result = some result ∧ result.barsWritten = 0) ∧
    (Storable candles → first.result ≠ none) ∧ (first.result = none → first.table = table) ∧
    (∀ key row, table.lookup key = some row → first.table.lookup key = some row) ∧
    (∀ request ∈ first.requestStart, cutoff ≤ request) ∧ ∀ request ∈ second.requestStart, cutoff ≤ request :=
  ⟨fun returned => ⟨fun _ minute usable => reconcile_fills quiet whole answers minute usable returned,
      reconcile_again quiet answers answers' returned⟩,
    reconcile_returns quiet answers, reconcile_raised quiet, fun _ _ stored => reconcile_keeps quiet stored,
    request_after_cutoff quiet, request_after_cutoff quiet⟩

theorem answers_filter (candles : List Candle) :
    Answers (fun start => candles.filter fun candle => candle.time.any (start ≤ · * 1000)) candles := by
  intro start candle
  rw [List.mem_filter, Option.any_eq_true]
  simp only [decide_eq_true_eq]

def sourceCandles : List Candle :=
  [{ time := some 1767798060000, close := some (.val 6900) }, { time := some 1767798120000, close := some (.val 0) }]

theorem sourceCandles_storable : Storable sourceCandles := by
  intro candle member time at_
  simp only [sourceCandles, List.mem_cons, List.not_mem_nil, or_false] at member
  rcases member with rfl | rfl
  all_goals
    cases at_
    exact ⟨by decide +kernel, by decide +kernel⟩

/-- The scan starts at 10:00:30 of a Wednesday without bars. -/
theorem reconcile_repairs_mid_minute :
    ("SPX", 1767798060000) ∈ (reconcileUnderlyingGaps standardTime
      (fun start => sourceCandles.filter fun candle => candle.time.any (start ≤ · * 1000)) ∅ "SPX"
      1767798030000000 1767798300000000 1 1767830400000000).table := by
  obtain ⟨repairs, returns, -⟩ := reconcile_repairs (standardTime_quiet InSession)
    (show ∀ time, ("SPX", time) ∈ (∅ : UnderlyingTable) → 60000 ∣ time from
      fun _ stored => absurd stored (AList.notMem_empty _))
    (answers_filter sourceCandles) (answers_filter sourceCandles) 1767798030000000 1767798300000000 1767830400000000
  apply (repairs (returns sourceCandles_storable)).1 1767798060000
  · exact ⟨by decide, by decide, by decide, by decide⟩
  · exact ⟨{ time := some 1767798060000, close := some (.val 6900) }, by decide, by decide, by decide +kernel⟩

def farCandles : List Candle :=
  [{ time := some 1767798060000, close := some (.val 6900) },
    { time := some 253402300800000, close := some (.val 6900) }]

theorem far_candle_raises :
    ¬ ∀ (z : Zone) (requestCandles : ℤ → List Candle) (candles : List Candle) (table : UnderlyingTable)
      (ticker : String) (start stop now : ℤ), z.QuietAt InSession → (∀ time, (ticker, time) ∈ table → 60000 ∣ time) →
      Answers requestCandles candles → start ≤ stop →
      ∀ time, SessionMinute z (max start (now - RETENTION_DAYS * DAY)) stop (time * 1000) →
        (∃ candle ∈ candles, candle.time = some time ∧ usableCandle candle = true) →
        (ticker, time) ∈ (reconcileUnderlyingGaps z requestCandles table ticker start stop 1 now).table := by
  intro fills
  have raised : (reconcileUnderlyingGaps standardTime
      (fun start => farCandles.filter fun candle => candle.time.any (start ≤ · * 1000)) ∅ "SPX"
      1767798030000000 1767798300000000 1 1767830400000000).result = none := by decide +kernel
  have filled := fills standardTime _ farCandles ∅ "SPX" 1767798030000000 1767798300000000 1767830400000000
    (standardTime_quiet InSession) (fun _ stored => absurd stored (AList.notMem_empty _)) (answers_filter farCandles)
    (by decide) 1767798060000 ⟨by decide, by decide, by decide, by decide⟩
    ⟨{ time := some 1767798060000, close := some (.val 6900) }, by decide, by decide, by decide +kernel⟩
  rw [reconcile_raised (standardTime_quiet InSession) raised] at filled
  exact AList.notMem_empty _ filled

end OptionsProof.GapReconcile
