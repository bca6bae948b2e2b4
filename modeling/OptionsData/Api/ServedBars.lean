import OptionsData.Db.Rollups
import OptionsData.Ingestion.PipelineBars

namespace OptionsProof.ServedBars

open Kit OptionsModel OptionsProof.Pages OptionsProof.CoarseBars OptionsProof.VolumeWeighted OptionsProof.Rollups
open OptionsModel.Pipeline OptionsProof.Pipeline

def markBar (ms : List ℚ) : UnderlyingBar1m where
  opening := ms.head?.map priceColumn
  high := ms.max?.map priceColumn
  low := ms.min?.map priceColumn
  close := ms.getLast?.map priceColumn

def barsOf (key : BarKey) (ms : List ℚ) : List UnderlyingRow := if ms = [] then [] else [(key, markBar ms)]

theorem foldl_priceColumn {op : Number → Number → Number} {pick : ℚ → ℚ → ℚ}
    (picks : ∀ a b, op (priceColumn a) (priceColumn b) = priceColumn (pick a b)) (ms : List ℚ) (q : ℚ) :
    (ms.map priceColumn).foldl op (priceColumn q) = priceColumn (ms.foldl pick q) := by
  induction ms generalizing q with
  | nil => rfl
  | cons q' ms ih => rw [List.map_cons, List.foldl_cons, List.foldl_cons, picks, ih]

def storedMarks (ms : List ℚ) : List (Option Number) := ms.map fun q => some (priceColumn q)

theorem mergeAll_stored {op : Number → Number → Number} [Std.Associative op] {pick : ℚ → ℚ → ℚ}
    (picks : ∀ a b, op (priceColumn a) (priceColumn b) = priceColumn (pick a b)) (q : ℚ) (ms : List ℚ) :
    mergeAll op (storedMarks (q :: ms)) = some (priceColumn (ms.foldl pick q)) := by
  have shape : storedMarks (q :: ms) = (priceColumn q :: ms.map priceColumn).map some := by simp [storedMarks]
  rw [shape, mergeAll_cons, foldl_priceColumn picks]

theorem mergeAll_max (ms : List ℚ) : mergeAll Number.sqlMax (storedMarks ms) = ms.max?.map priceColumn := by
  have picks (a b : ℚ) : Number.sqlMax (priceColumn a) (priceColumn b) = priceColumn (max a b) := by
    rw [priceColumn, priceColumn, priceColumn, sqlMax_val, (toScale_monotone 4).map_max]
  cases ms with
  | nil => rfl
  | cons q ms => rw [mergeAll_stored picks, List.max?_cons', Option.map_some]

theorem mergeAll_min (ms : List ℚ) : mergeAll Number.sqlMin (storedMarks ms) = ms.min?.map priceColumn := by
  have picks (a b : ℚ) : Number.sqlMin (priceColumn a) (priceColumn b) = priceColumn (min a b) := by
    rw [priceColumn, priceColumn, priceColumn, sqlMin_val, (toScale_monotone 4).map_min]
  cases ms with
  | nil => rfl
  | cons q ms => rw [mergeAll_stored picks, List.min?_cons', Option.map_some]

def marksIn (slot : ℤ → ℤ) (samples : List (ℤ × ℚ)) (time : ℤ) : List ℚ :=
  (samples.filter fun sample => slot sample.1 = time).map Prod.snd

theorem mem_marksIn {slot : ℤ → ℤ} {samples : List (ℤ × ℚ)} {time : ℤ} (marked : marksIn slot samples time ≠ []) :
    ∃ sample ∈ samples, slot sample.1 = time := by
  obtain ⟨q, listed⟩ := List.exists_mem_of_ne_nil _ marked
  obtain ⟨sample, inside, -⟩ := List.mem_map.mp listed
  obtain ⟨member, here⟩ := List.mem_filter.mp inside
  exact ⟨sample, member, of_decide_eq_true here⟩

structure Summarises (slot : ℤ → ℤ) (samples : List (ℤ × ℚ)) (rows : List UnderlyingRow) : Prop where
  monotone : Monotone slot
  sorted : samples.Pairwise fun a b => a.1 ≤ b.1
  unique : (rows.map barTime).Nodup
  listed : ∀ sample ∈ samples, ∃ row ∈ rows, barTime row = slot sample.1
  marked : ∀ row ∈ rows, marksIn slot samples (barTime row) ≠ []
  shows : ∀ row ∈ rows, row.2 = markBar (marksIn slot samples (barTime row))

section

variable {slot : ℤ → ℤ} {samples : List (ℤ × ℚ)} {rows : List UnderlyingRow}

theorem Summarises.distinct (summarises : Summarises slot samples rows) :
    ∀ a ∈ rows, ∀ b ∈ rows, barTime a = barTime b → a = b :=
  fun _ memA _ memB same => List.inj_on_of_nodup_map summarises.unique memA memB same

theorem Summarises.empty (summarises : Summarises slot [] rows) : rows = [] := by
  rcases List.eq_nil_or_concat rows with empty | ⟨front, row, rfl⟩
  · exact empty
  · exact absurd rfl (summarises.marked row (by simp))

theorem Summarises.first (summarises : Summarises slot samples rows) :
    firstBy barTime (fun row => row.2.opening) rows = (samples.map Prod.snd).head?.map priceColumn := by
  cases samples with
  | nil =>
    rw [summarises.empty]
    rfl
  | cons sample samples =>
    obtain ⟨row, member, here⟩ := summarises.listed sample List.mem_cons_self
    have least : Least (fun a b => decide (a < b)) barTime rows row := by
      refine ⟨member, fun other listed differs => decide_eq_true ?_⟩
      obtain ⟨later, inside, there⟩ := mem_marksIn (summarises.marked other listed)
      have after : sample.1 ≤ later.1 := by
        rcases List.mem_cons.mp inside with rfl | rest
        · exact le_rfl
        · exact (List.pairwise_cons.mp summarises.sorted).1 later rest
      have apart : barTime row ≠ barTime other :=
        fun same => differs (summarises.distinct other listed row member same.symm)
      have ordered := summarises.monotone after
      omega
    have head : (marksIn slot (sample :: samples) (barTime row)).head? = some sample.2 := by
      simp [marksIn, here]
    rw [firstBy, (pickRow_least strict_lt summarises.distinct row).mpr least, Option.bind_some,
      summarises.shows row member, markBar, head]
    rfl

theorem Summarises.last (summarises : Summarises slot samples rows) :
    lastBy barTime (fun row => row.2.close) rows = (samples.map Prod.snd).getLast?.map priceColumn := by
  rcases List.eq_nil_or_concat samples with rfl | ⟨front, sample, rfl⟩
  · rw [summarises.empty]
    rfl
  · rw [List.concat_eq_append] at summarises ⊢
    obtain ⟨row, member, here⟩ := summarises.listed sample (by simp)
    have least : Least (fun a b => decide (b < a)) barTime rows row := by
      refine ⟨member, fun other listed differs => decide_eq_true ?_⟩
      obtain ⟨earlier, inside, there⟩ := mem_marksIn (summarises.marked other listed)
      have before : earlier.1 ≤ sample.1 := by
        rcases List.mem_append.mp inside with front | last
        · exact (List.pairwise_append.mp summarises.sorted).2.2 earlier front sample (by simp)
        · rw [List.mem_singleton.mp last]
      have apart : barTime row ≠ barTime other :=
        fun same => differs (summarises.distinct other listed row member same.symm)
      have ordered := summarises.monotone before
      omega
    have last : (marksIn slot (front ++ [sample]) (barTime row)).getLast? = some sample.2 := by
      simp [marksIn, here]
    rw [lastBy, (pickRow_least strict_gt summarises.distinct row).mpr least, Option.bind_some,
      summarises.shows row member, markBar, last]
    simp

theorem Summarises.merged (summarises : Summarises slot samples rows) {op : Number → Number → Number}
    [Std.Associative op] [Std.Commutative op] {value : UnderlyingRow → Option Number}
    (column : ∀ row ∈ rows, value row = mergeAll op (storedMarks (marksIn slot samples (barTime row)))) :
    sqlAggregate op (rows.map value) = mergeAll op (storedMarks (samples.map Prod.snd)) := by
  have parts : rows.map value =
      (rows.map fun row => storedMarks (marksIn slot samples (barTime row))).map (mergeAll op) := by
    rw [List.map_map]
    exact List.map_congr_left column
  have whole : ((rows.map barTime).flatMap fun time =>
      samples.filter fun sample => slot sample.1 = time).Perm samples := by
    apply flatten_filters_perm (fun sample : ℤ × ℚ => slot sample.1) _ summarises.unique
    intro sample member
    obtain ⟨row, listed, here⟩ := summarises.listed sample member
    exact List.mem_map.mpr ⟨row, listed, here⟩
  have flat : (rows.map fun row => storedMarks (marksIn slot samples (barTime row))).flatten =
      storedMarks (((rows.map barTime).flatMap fun time =>
        samples.filter fun sample => slot sample.1 = time).map Prod.snd) := by
    rw [storedMarks, List.map_map, List.flatMap_map, List.map_flatMap, List.flatMap_def]
    congr 1
    apply List.map_congr_left
    intro row _
    exact List.map_map
  rw [sqlAggregate_eq, parts, mergeAll_flatten, flat]
  exact mergeAll_perm op ((whole.map Prod.snd).map _)

theorem Summarises.aggregate (summarises : Summarises slot samples rows) (k : BarKey) :
    underlyingAggregate k rows = (k, markBar (samples.map Prod.snd)) := by
  have high : sqlAggregate Number.sqlMax (rows.map fun row => row.2.high) =
      (samples.map Prod.snd).max?.map priceColumn := by
    rw [← mergeAll_max]
    apply summarises.merged
    intro row member
    rw [summarises.shows row member, mergeAll_max]
    rfl
  have low : sqlAggregate Number.sqlMin (rows.map fun row => row.2.low) =
      (samples.map Prod.snd).min?.map priceColumn := by
    rw [← mergeAll_min]
    apply summarises.merged
    intro row member
    rw [summarises.shows row member, mergeAll_min]
    rfl
  have volume : sqlSum (rows.map fun row => row.2.volume) = none := by
    rw [sqlSum_none]
    intro value member
    obtain ⟨row, listed, rfl⟩ := List.mem_map.mp member
    rw [summarises.shows row listed]
    rfl
  rw [underlyingAggregate, summarises.first, summarises.last, high, low, volume]
  rfl

end

/-- The mark a quote of a feed symbol carries, with the clock's reading in microseconds. -/
def timedMark (feed : String) : Event → Option (ℤ × ℚ)
  | .quote (some symbol) bidPrice askPrice now =>
    if symbol ≠ "" ∧ symbol = feed then (quoteMark bidPrice askPrice).map fun q => (now, q) else none
  | _ => none

def timedMarks (feed : String) (events : List Event) : List (ℤ × ℚ) := events.filterMap (timedMark feed)

def minuteTime (reading : ℤ) : ℤ := minuteEpoch reading * 1000

theorem minuteTime_monotone : Monotone minuteTime := by
  intro s t earlier
  unfold minuteTime minuteEpoch
  omega

theorem usableMark_eq (feed : String) (minute : ℤ) (e : Event) :
    usableMark feed minute e =
      ((timedMark feed e).filter fun sample => minuteEpoch sample.1 = minute).map Prod.snd := by
  cases e with
  | quote symbol bidPrice askPrice now =>
    cases symbol with
    | none => rfl
    | some symbol =>
      rw [usableMark, timedMark]
      by_cases named : symbol ≠ "" ∧ symbol = feed
      · by_cases here : minuteEpoch now = minute
        · rw [if_pos ⟨named.1, named.2, here⟩, if_pos named]
          cases quoteMark bidPrice askPrice <;> simp [here]
        · rw [if_neg fun all => here all.2.2, if_pos named]
          cases quoteMark bidPrice askPrice <;> simp [here]
      · rw [if_neg fun all => named ⟨all.1, all.2.1⟩, if_neg named]
        rfl
  | _ => rfl

theorem marks_eq (feed : String) (minute : ℤ) (events : List Event) :
    marks feed minute events = marksIn minuteTime (timedMarks feed events) (minute * 1000) := by
  have same (sample : ℤ × ℚ) :
      decide (minuteTime sample.1 = minute * 1000) = decide (minuteEpoch sample.1 = minute) := by
    unfold minuteTime
    rw [decide_eq_decide]
    omega
  simp only [marksIn, same, timedMarks, marks, List.filter_filterMap, List.map_filterMap]
  apply List.filterMap_congr
  intro e _
  exact usableMark_eq feed minute e

theorem timedMark_reading {feed : String} {e : Event} {sample : ℤ × ℚ} (found : timedMark feed e = some sample) :
    e.reading = some sample.1 := by
  cases e with
  | quote symbol bidPrice askPrice now =>
    cases symbol with
    | none => cases found
    | some symbol =>
      rw [timedMark] at found
      split at found
      · obtain ⟨q, -, rfl⟩ := Option.map_eq_some_iff.mp found
        rfl
      · cases found
  | _ => cases found

theorem timedMarks_sorted {feed : String} {events : List Event} (ordered : ClockOrdered events) :
    (timedMarks feed events).Pairwise fun a b => a.1 ≤ b.1 := by
  have readings : (events.filterMap Event.reading).Pairwise (· ≤ ·) := ordered
  rw [List.pairwise_filterMap] at readings
  rw [timedMarks, List.pairwise_filterMap]
  refine readings.imp fun before a foundA b foundB => ?_
  exact before a.1 (timedMark_reading foundA) b.1 (timedMark_reading foundB)

theorem markBar_shows {ms : List ℚ} {o : Ohlc ℚ} {b : Bucket} (summary : Ohlc.summary ms = some o)
    (shows : b.Shows o) : underlyingRow b = markBar ms := by
  obtain ⟨opening, high, low, close⟩ := rowOf_shows summary shows
  rw [markBar, ← opening, ← high, ← low, ← close]
  rfl

theorem located_settled {readings : List ℤ} {minute : ℤ} {ms : List ℚ} {p : Place}
    (located : Located readings minute ms p) (closed : p.accumulating = none) (landed : p.inFlight = none) :
    p.stored = if ms = [] then none else some (markBar ms) := by
  cases located with
  | unseen => rfl
  | accumulating => cases closed
  | inFlight => cases landed
  | stored summary shows =>
    rw [if_neg, markBar_shows summary shows]
    intro empty
    rw [empty] at summary
    cases summary

theorem located_unmarked {readings : List ℤ} {minute : ℤ} {p : Place} (located : Located readings minute [] p) :
    p.stored = none := by
  cases located with
  | unseen => rfl
  | accumulating => rfl
  | inFlight => rfl
  | stored summary => cases summary

theorem step_keys {s t : Pipeline} {e : Event} (slots : ∀ key ∈ s.underlyingTable, ∃ slot, key = barKey slot)
    (alone : isForeign e = false) (taken : step s e = some t) :
    ∀ key ∈ t.underlyingTable, ∃ slot, key = barKey slot := by
  cases e with
  | quote symbol bidPrice askPrice now =>
    cases taken
    rw [(onQuote_fed s symbol bidPrice askPrice now).underlyingTable]
    exact slots
  | greeks symbol delta gamma theta vega rho volatility now =>
    cases taken
    rw [(onOptionGreeks_fed s symbol delta gamma theta vega rho volatility now).underlyingTable]
    exact slots
  | refresh tracked =>
    cases taken
    exact slots
  | foreign options underlyings => cases alone
  | beginFlush now =>
    obtain ⟨-, rfl⟩ := beginFlush_taken.mp taken
    exact slots
  | endOptionWrite succeeds =>
    obtain ⟨ready, rows, underlyings, -, -, rfl⟩ := endOptionWrite_taken.mp taken
    cases succeeds <;> exact slots
  | endUnderlyingWrite succeeds =>
    obtain ⟨ready, -, -, rfl⟩ := endUnderlyingWrite_taken.mp taken
    cases succeeds with
    | false => exact slots
    | true =>
      intro key member
      rcases (Dict.mem_insertAll _ _ _).mp member with before | written
      · exact slots key before
      · rw [underlyingRows, List.map_map] at written
        obtain ⟨popped, -, rfl⟩ := List.mem_map.mp written
        exact ⟨_, rfl⟩

/-- A run with no other writer that ends with a flush, begun at `now`, whose underlying write succeeds. -/
structure Flushed (symbols : Dict String String) (events during : List Event) (now : ℤ) (s : Pipeline) : Prop where
  distinct : (symbols.items.map Prod.snd).Nodup
  ordered : ClockOrdered (events ++ Event.beginFlush now :: during)
  alone : ∀ e ∈ events ++ Event.beginFlush now :: during, isForeign e = false
  single : ∀ e ∈ during, ∀ t, e ≠ .beginFlush t
  reached : run step (start symbols)
    (events ++ Event.beginFlush now :: during ++ [Event.endUnderlyingWrite true]) = some s

section

variable {symbols : Dict String String} {events during : List Event} {now : ℤ} {s : Pipeline} {ticker feed : String}

theorem Flushed.keys (flushed : Flushed symbols events during now s) :
    ∀ key ∈ s.underlyingTable, ∃ slot, key = barKey slot := by
  have free : ∀ e ∈ events ++ Event.beginFlush now :: during ++ [Event.endUnderlyingWrite true],
      isForeign e = false := by
    intro e member
    rcases List.mem_append.mp member with inside | last
    · exact flushed.alone e inside
    · rw [List.mem_singleton.mp last]
      rfl
  have guarded : Guarded step (fun _ e => isForeign e = false) (start symbols) _ :=
    guarded_of_forall (fun e member _ => free e member) _
  have empty : ∀ key ∈ (start symbols).underlyingTable, ∃ slot, key = barKey slot :=
    fun key member => absurd member (AList.notMem_empty key)
  have keep (u : Pipeline) (e : Event) (t : Pipeline) (slots : ∀ key ∈ u.underlyingTable, ∃ slot, key = barKey slot)
      (alone : isForeign e = false) (taken : step u e = some t) := step_keys slots alone taken
  exact run_guarded_invariant keep empty guarded flushed.reached

theorem Flushed.located (flushed : Flushed symbols events during now s)
    (configured : symbols.lookup ticker = some feed) (minute : ℤ) :
    ∃ readings, Located readings minute (marks feed minute (events ++ Event.beginFlush now :: during))
      (place s (ticker, minute)) := by
  have routed := route_iff flushed.distinct configured
  obtain ⟨u, before, last⟩ := run_concat_some.mp flushed.reached
  obtain ⟨sound, located⟩ := run_located routed minute flushed.ordered flushed.alone before
  have moves := step_moves last sound.unique rfl (ticker, minute)
  have next := located.step moves (by rw [sound.route]; exact routed) sound.grace
    fun t _ r reading => by cases reading
  exact ⟨_, by simpa [usableMark] using next⟩

theorem Flushed.settled (flushed : Flushed symbols events during now s)
    (configured : symbols.lookup ticker = some feed) {minute : ℤ} (elapsed : (minute + 65) * 1000000 ≤ now) :
    (place s (ticker, minute)).accumulating = none ∧ (place s (ticker, minute)).inFlight = none := by
  have routed := route_iff flushed.distinct configured
  obtain ⟨u, before, last⟩ := run_concat_some.mp flushed.reached
  obtain ⟨first, rest, middle⟩ := run_append_some.mp before
  obtain ⟨flushing, taken, waiting⟩ := run_cons_some.mp middle
  obtain ⟨earlier, after⟩ := flushed.ordered.flush
  obtain ⟨sound, -⟩ := run_located routed minute earlier (fun e member => flushed.alone e (by simp [member])) rest
  obtain ⟨ready, busy, -, rfl⟩ := endUnderlyingWrite_taken.mp last
  have popped : (place flushing (ticker, minute)).accumulating = none := by
    obtain ⟨idle, rfl⟩ := beginFlush_taken.mp taken
    exact beginFlush_pops idle sound.grace elapsed
  have closed : (place u (ticker, minute)).accumulating = none :=
    flush_keeps_popped (sound.step taken) elapsed popped waiting (fun e member => flushed.alone e (by simp [member]))
      flushed.single after (by simp [busy])
  exact ⟨closed, rfl⟩

theorem Flushed.lookup (flushed : Flushed symbols events during now s)
    (configured : symbols.lookup ticker = some feed) {minute : ℤ}
    (elapsed : marks feed minute (events ++ Event.beginFlush now :: during) ≠ [] → (minute + 65) * 1000000 ≤ now) :
    s.underlyingTable.lookup (barKey (ticker, minute)) =
      if marks feed minute (events ++ Event.beginFlush now :: during) = [] then none
      else some (markBar (marks feed minute (events ++ Event.beginFlush now :: during))) := by
  obtain ⟨readings, located⟩ := flushed.located configured minute
  by_cases marked : marks feed minute (events ++ Event.beginFlush now :: during) = []
  · rw [if_pos marked]
    rw [marked] at located
    exact located_unmarked located
  · obtain ⟨closed, landed⟩ := flushed.settled configured (elapsed marked)
    exact located_settled located closed landed

end

theorem width_minutes {agg interval : String} (coarse : bucketInterval agg = some interval) :
    ∃ k, 0 < k ∧ bucketWidth interval = 60000 * k := by
  have all : ∀ period ∈ BUCKET_INTERVALS, 0 < bucketWidth period.2 ∧ 60000 ∣ bucketWidth period.2 := by decide +kernel
  obtain ⟨front, rest, same, -⟩ := List.lookup_eq_some_iff.mp coarse
  obtain ⟨positive, k, whole⟩ := all (agg, interval) (by rw [same]; simp)
  exact ⟨k, by omega, whole⟩

/-- `time_bucket` as documented: buckets of the interval's width, one after another from a whole minute on. -/
structure WholeMinutes (timeBucket : String → ℤ → ℤ) (interval : String) : Prop where
  begun : ∀ t, timeBucket interval t ≤ t
  open_ : ∀ t, t < timeBucket interval t + bucketWidth interval
  same : ∀ t u, timeBucket interval t ≤ u → u < timeBucket interval t + bucketWidth interval →
    timeBucket interval u = timeBucket interval t
  whole : ∀ t, 60000 ∣ timeBucket interval t

section

variable {timeBucket : String → ℤ → ℤ} {interval : String}

theorem WholeMinutes.minuteTime (buckets : WholeMinutes timeBucket interval) (reading : ℤ) :
    timeBucket interval (minuteTime reading) = timeBucket interval (reading / 1000) := by
  have begun := buckets.begun (reading / 1000)
  have open_ := buckets.open_ (reading / 1000)
  obtain ⟨k, whole⟩ := buckets.whole (reading / 1000)
  apply buckets.same <;> unfold ServedBars.minuteTime minuteEpoch <;> omega

theorem WholeMinutes.bounds (buckets : WholeMinutes timeBucket interval) {k : ℤ}
    (width : bucketWidth interval = 60000 * k) (t : ℤ) : timeBucket interval t ≤ t ∧
      t / 60000 * 60000 + 60000 ≤ timeBucket interval t + bucketWidth interval := by
  have begun := buckets.begun t
  have open_ := buckets.open_ t
  obtain ⟨j, whole⟩ := buckets.whole t
  omega

end

def bucketMarks (timeBucket : String → ℤ → ℤ) (feed interval : String) (bucket : ℤ) (events : List Event) : List ℚ :=
  marksIn (fun reading => timeBucket interval (reading / 1000)) (timedMarks feed events) bucket

section

variable {symbols : Dict String String} {events during : List Event} {now : ℤ} {s : Pipeline} {ticker feed : String}
  {agg interval : String} {bucket : ℤ} {request : UnderlyingBarsRequest} {timeBucket : String → ℤ → ℤ}

structure Covers (request : UnderlyingBarsRequest) (ticker agg interval : String) (bucket : ℤ) : Prop where
  ticker : request.ticker = ticker
  agg : request.agg = agg
  start : request.start ≤ bucket
  end_ : bucket + bucketWidth interval ≤ request.end_ + 60000

theorem marked_elapsed (buckets : WholeMinutes timeBucket interval) (coarse : bucketInterval agg = some interval)
    (elapsed : (bucket + bucketWidth interval) * 1000 + 5000000 ≤ now) {minute : ℤ}
    (inside : timeBucket interval (minute * 1000) = bucket) {all : List Event}
    (marked : marks feed minute all ≠ []) : (minute + 65) * 1000000 ≤ now := by
  obtain ⟨k, -, width⟩ := width_minutes coarse
  rw [marks_eq] at marked
  obtain ⟨sample, -, here⟩ := mem_marksIn marked
  have bounds := (buckets.bounds width (minute * 1000)).2
  rw [inside] at bounds
  unfold minuteTime minuteEpoch at here
  omega

theorem marksIn_bucket (buckets : WholeMinutes timeBucket interval) {minute : ℤ}
    (inside : timeBucket interval (minute * 1000) = bucket) (all : List Event) :
    marksIn minuteTime
      ((timedMarks feed all).filter fun sample => timeBucket interval (sample.1 / 1000) = bucket)
      (minute * 1000) = marks feed minute all := by
  have parts :
      ((timedMarks feed all).filter fun sample => timeBucket interval (sample.1 / 1000) = bucket).filter
        (fun sample => minuteTime sample.1 = minute * 1000) =
      (timedMarks feed all).filter fun sample => minuteTime sample.1 = minute * 1000 := by
    apply filter_group
    intro sample _ here
    rw [decide_eq_true_eq, ← buckets.minuteTime, here, inside]
  rw [marks_eq, marksIn, marksIn, parts]

theorem Flushed.row (flushed : Flushed symbols events during now s) (configured : symbols.lookup ticker = some feed)
    (buckets : WholeMinutes timeBucket interval) (coarse : bucketInterval agg = some interval)
    (elapsed : (bucket + bucketWidth interval) * 1000 + 5000000 ≤ now)
    {minute : ℤ} (inside : timeBucket interval (minute * 1000) = bucket) (row : UnderlyingBar1m) :
    (barKey (ticker, minute), row) ∈ s.underlyingTable.items ↔
      marks feed minute (events ++ Event.beginFlush now :: during) ≠ [] ∧
        row = markBar (marks feed minute (events ++ Event.beginFlush now :: during)) := by
  rw [Dict.mem_items, flushed.lookup configured (marked_elapsed buckets coarse elapsed inside)]
  by_cases marked : marks feed minute (events ++ Event.beginFlush now :: during) = []
  · rw [if_pos marked]
    exact iff_of_false (Option.some_ne_none row).symm fun both => both.1 marked
  · rw [if_neg marked, Option.some.injEq, and_iff_right marked, eq_comm]

theorem Flushed.summarises (flushed : Flushed symbols events during now s)
    (configured : symbols.lookup ticker = some feed) (buckets : WholeMinutes timeBucket interval)
    (coarse : bucketInterval agg = some interval)
    (elapsed : (bucket + bucketWidth interval) * 1000 + 5000000 ≤ now)
    (covers : Covers request ticker agg interval bucket) :
    Summarises minuteTime ((timedMarks feed (events ++ Event.beginFlush now :: during)).filter
        fun sample => timeBucket interval (sample.1 / 1000) = bucket)
      ((s.underlyingTable.items.filter request.conditions).filter
        fun row => underlyingGroup timeBucket interval row = (ticker, bucket)) := by
  obtain ⟨k, positive, width⟩ := width_minutes coarse
  have member {row : UnderlyingRow} (listed : row ∈ (s.underlyingTable.items.filter request.conditions).filter
      fun row => underlyingGroup timeBucket interval row = (ticker, bucket)) :
      ∃ minute, barTime row = minute * 1000 ∧ timeBucket interval (minute * 1000) = bucket ∧
        (barKey (ticker, minute), row.2) ∈ s.underlyingTable.items := by
    obtain ⟨passes, group⟩ := List.mem_filter.mp listed
    obtain ⟨name, inside⟩ := Prod.mk.inj (of_decide_eq_true group)
    have stored := List.mem_of_mem_filter passes
    have held : row.1 ∈ s.underlyingTable := (Dict.mem_iff _ _).mpr ⟨_, Dict.mem_items.mp stored⟩
    obtain ⟨⟨key, minute⟩, same⟩ := flushed.keys row.1 held
    rw [same] at name inside
    obtain rfl : key = ticker := name
    exact ⟨minute, by rw [barTime, same]; rfl, inside, same ▸ stored⟩
  have sorted : (timedMarks feed (events ++ Event.beginFlush now :: during)).Pairwise fun a b => a.1 ≤ b.1 :=
    timedMarks_sorted flushed.ordered
  refine ⟨minuteTime_monotone, sorted.filter _, ?_, ?_, fun row listed => ?_, fun row listed => ?_⟩
  · apply times_nodup
    · exact ((List.filter_sublist.trans List.filter_sublist).map Prod.fst).nodup s.underlyingTable.items_nodup
    · intro row listed
      exact (Prod.mk.inj (of_decide_eq_true (List.mem_filter.mp listed).2)).1
  · intro sample listed
    obtain ⟨received, inside⟩ := List.mem_filter.mp listed
    have within : timeBucket interval (minuteEpoch sample.1 * 1000) = bucket :=
      (buckets.minuteTime sample.1).trans (of_decide_eq_true inside)
    have marked : marks feed (minuteEpoch sample.1) (events ++ Event.beginFlush now :: during) ≠ [] := by
      rw [marks_eq]
      exact List.ne_nil_of_mem (List.mem_map_of_mem (List.mem_filter.mpr ⟨received, decide_eq_true rfl⟩))
    have stored := (flushed.row configured buckets coarse elapsed within _).mpr ⟨marked, rfl⟩
    have bounds := buckets.bounds width (minuteEpoch sample.1 * 1000)
    rw [within] at bounds
    have shown (bar : UnderlyingBar1m) : request.conditions (barKey (ticker, minuteEpoch sample.1), bar) = true := by
      have start := covers.start
      have end_ := covers.end_
      have minute : minuteEpoch sample.1 * 1000 / 60000 * 60000 = minuteEpoch sample.1 * 1000 := by
        unfold minuteEpoch
        omega
      have after : request.start ≤ minuteEpoch sample.1 * 1000 := by omega
      have before : minuteEpoch sample.1 * 1000 ≤ request.end_ := by omega
      simp [UnderlyingBarsRequest.conditions, barKey, covers.ticker, after, before]
    refine ⟨_, List.mem_filter.mpr ⟨List.mem_filter.mpr ⟨stored, shown _⟩, decide_eq_true ?_⟩, rfl⟩
    exact congrArg (Prod.mk ticker) within
  · obtain ⟨minute, time, inside, stored⟩ := member listed
    rw [time, marksIn_bucket buckets inside]
    exact ((flushed.row configured buckets coarse elapsed inside _).mp stored).1
  · obtain ⟨minute, time, inside, stored⟩ := member listed
    rw [time, marksIn_bucket buckets inside]
    exact ((flushed.row configured buckets coarse elapsed inside _).mp stored).2

theorem Flushed.matching (flushed : Flushed symbols events during now s)
    (configured : symbols.lookup ticker = some feed) (buckets : WholeMinutes timeBucket interval)
    (coarse : bucketInterval agg = some interval)
    (elapsed : (bucket + bucketWidth interval) * 1000 + 5000000 ≤ now)
    (covers : Covers request ticker agg interval bucket) :
    (matchingUnderlyingBars timeBucket s.underlyingTable request).filter (fun bar => barTime bar = bucket) =
      barsOf (ticker, bucket)
        (bucketMarks timeBucket feed interval bucket (events ++ Event.beginFlush now :: during)) := by
  have summarises := flushed.summarises configured buckets coarse elapsed covers
  have known : bucketInterval request.agg = some interval := covers.agg ▸ coarse
  have bars : matchingUnderlyingBars timeBucket s.underlyingTable request = _ :=
    matchingUnderlyingBars_coarse known s.underlyingTable
  have placed (k : BarKey) (members : List UnderlyingRow) : barTime (underlyingAggregate k members) = k.2 := rfl
  have part : (s.underlyingTable.items.filter request.conditions).filter
      (fun row => (underlyingGroup timeBucket interval row).2 = bucket) =
        (s.underlyingTable.items.filter request.conditions).filter
          fun row => underlyingGroup timeBucket interval row = (ticker, bucket) := by
    apply List.filter_congr
    intro row member
    have passes := (List.mem_filter.mp member).2
    simp only [UnderlyingBarsRequest.conditions, Bool.and_eq_true, decide_eq_true_eq] at passes
    have name : row.1.1 = ticker := passes.1.1.trans covers.ticker
    simp [underlyingGroup, name]
  rw [bars, grouped_filter placed, part, barsOf]
  split
  · next unmarked =>
    rw [List.map_eq_nil_iff.mp unmarked] at summarises
    rw [summarises.empty]
    rfl
  · next marked =>
    rw [grouped_single underlyingAggregate fun row member => of_decide_eq_true (List.mem_filter.mp member).2,
      summarises.aggregate]
    · rfl
    · intro none
      apply marked
      rw [bucketMarks, marksIn, List.map_eq_nil_iff, List.eq_nil_iff_forall_not_mem]
      intro sample member
      obtain ⟨row, listed, -⟩ := summarises.listed sample member
      rw [none] at listed
      exact List.not_mem_nil listed

end

/-- A client that pages through the bars of a request has these bars of the bucket, whichever order the database
chooses for each page. -/
def Served (timeBucket : String → ℤ → ℤ) (table : UnderlyingTable) (request : UnderlyingBarsRequest) (bucket : ℤ)
    (bars : List UnderlyingRow) : Prop :=
  ∀ arranged : ℕ → List UnderlyingRow,
    (∀ k, Arranges barTime (matchingUnderlyingBars timeBucket table request) (arranged k)) → ∃ fuel all,
      collect (fun k => items (getUnderlyingBars timeBucket (fun _ => arranged k) table
        { request with offset := k * request.limit })) request.limit fuel 0 = some all ∧
      all.filter (fun bar => barTime bar = bucket) = bars

/-- After a flush whose underlying write succeeds, the API serves for each elapsed bucket of each coarse period the
open, high, low and close of the quotes received within it, as the columns round them, and no bar where there were
none. -/
theorem live_bars_served {timeBucket : String → ℤ → ℤ} {symbols : Dict String String} {events during : List Event}
    {now : ℤ} {s : Pipeline}
    (flushed : Flushed symbols events during now s) {ticker feed : String}
    (configured : symbols.lookup ticker = some feed) {agg interval : String}
    (coarse : bucketInterval agg = some interval) (buckets : WholeMinutes timeBucket interval) {bucket : ℤ}
    (elapsed : (bucket + bucketWidth interval) * 1000 + 5000000 ≤ now) {request : UnderlyingBarsRequest}
    (covers : Covers request ticker agg interval bucket) (bounded : limitOk request.limit = true) :
    Served timeBucket s.underlyingTable request bucket
      (barsOf (ticker, bucket)
        (bucketMarks timeBucket feed interval bucket (events ++ Event.beginFlush now :: during))) := by
  have accepted : underlyingBarsAccepted request := by
    have periods : ∀ period ∈ BUCKET_INTERVALS, period.1 ∈ AGG_PERIODS := by decide +kernel
    obtain ⟨front, rest, same, -⟩ := List.lookup_eq_some_iff.mp coarse
    obtain ⟨k, positive, width⟩ := width_minutes coarse
    have start := covers.start
    have end_ := covers.end_
    exact ⟨bounded, covers.agg ▸ periods (agg, interval) (by rw [same]; simp), by omega⟩
  intro arranged arranges
  obtain ⟨fuel, all, collected, same⟩ :=
    (underlyingBars_complete_iff timeBucket s.underlyingTable request).mpr accepted arranged arranges
  refine ⟨fuel, all, collected, ?_⟩
  have part := same.filter fun bar => barTime bar = bucket
  rw [flushed.matching configured buckets coarse elapsed covers] at part
  generalize bucketMarks timeBucket feed interval bucket (events ++ Event.beginFlush now :: during) = ms at part ⊢
  cases ms with
  | nil => exact List.perm_nil.mp part
  | cons q ms => exact List.perm_singleton.mp part

theorem fixedWidth_wholeMinutes {interval : String} {k : ℤ} (positive : 0 < k)
    (width : bucketWidth interval = 60000 * k) : WholeMinutes fixedWidthBucket interval := by
  have wide : 0 < bucketWidth interval := by omega
  have part (t : ℤ) : fixedWidthBucket interval t =
      BUCKET_ORIGIN + bucketWidth interval * ((t - BUCKET_ORIGIN) / bucketWidth interval) := rfl
  have low (t : ℤ) := Int.mul_ediv_self_le (x := t - BUCKET_ORIGIN) wide.ne'
  have high (t : ℤ) := Int.lt_mul_ediv_self_add (x := t - BUCKET_ORIGIN) wide
  refine ⟨fun t => ?_, fun t => ?_, fun t u after before => ?_, fun t => ?_⟩
  · have low := low t
    rw [part]
    omega
  · have high := high t
    rw [part]
    omega
  · rw [part] at after before
    have quotient : (u - BUCKET_ORIGIN) / bucketWidth interval = (t - BUCKET_ORIGIN) / bucketWidth interval := by
      rw [Int.ediv_eq_iff_of_pos wide, mul_comm]
      omega
    rw [part, part, quotient]
  · rw [part, width, mul_assoc]
    exact Dvd.dvd.add ⟨15780960, rfl⟩ ⟨_, rfl⟩

def fiveMinutesOfQuotes : List Event :=
  [.quote (some "feed") (some (.val 10)) (some (.val 12)) 0, .quote (some "feed") (some (.val 8)) none 30000000,
    .beginFlush 70000000, .endOptionWrite true, .endUnderlyingWrite false,
    .quote (some "feed") none (some (.val 20)) 130000000, .quote (some "other") (some (.val 1)) none 140000000,
    .quote (some "feed") (some (.val 15)) none 299000000]

theorem live_bars_served_retried :
    ∃ s, run step (start (Dict.assign ∅ [("SPX", "feed")]))
        (fiveMinutesOfQuotes ++ Event.beginFlush 310000000 :: [.endOptionWrite true] ++ [.endUnderlyingWrite true]) =
          some s ∧
      Served fixedWidthBucket s.underlyingTable { ticker := "SPX", start := 0, end_ := 240000, agg := "5m" } 0
        [(("SPX", 0), {
          opening := some (.val 11)
          high := some (.val 20)
          low := some (.val 8)
          close := some (.val 15) })] := by
  obtain ⟨s, reached⟩ : ∃ s, run step (start (Dict.assign ∅ [("SPX", "feed")]))
      (fiveMinutesOfQuotes ++ Event.beginFlush 310000000 :: [.endOptionWrite true] ++ [.endUnderlyingWrite true]) =
        some s := Option.isSome_iff_exists.mp (by decide +kernel)
  have received : bucketMarks fixedWidthBucket "feed" "5 minutes" 0
      (fiveMinutesOfQuotes ++ Event.beginFlush 310000000 :: [.endOptionWrite true]) = [11, 8, 20, 15] := by
    decide +kernel
  have flushed : Flushed (Dict.assign ∅ [("SPX", "feed")]) fiveMinutesOfQuotes [.endOptionWrite true] 310000000 s :=
    ⟨by decide, by decide, by decide, by simp, reached⟩
  have configured : (Dict.assign ∅ [("SPX", "feed")] : Dict String String).lookup "SPX" = some "feed" := rfl
  have coarse : bucketInterval "5m" = some "5 minutes" := rfl
  have buckets : WholeMinutes fixedWidthBucket "5 minutes" := fixedWidth_wholeMinutes (k := 5) (by decide) (by decide)
  have covers : Covers { ticker := "SPX", start := 0, end_ := 240000, agg := "5m" } "SPX" "5m" "5 minutes" 0 :=
    ⟨rfl, rfl, by decide, by decide⟩
  have served := live_bars_served flushed configured coarse buckets (by decide) covers (by decide)
  rw [received] at served
  have bar : barsOf ("SPX", 0) [11, 8, 20, 15] = [(("SPX", 0), {
      opening := some (.val 11)
      high := some (.val 20)
      low := some (.val 8)
      close := some (.val 15) })] := by decide +kernel
  exact ⟨s, reached, bar ▸ served⟩

end OptionsProof.ServedBars
