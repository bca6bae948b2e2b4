import OptionsData.Ingestion.TradeAggregator

namespace OptionsModel

open Kit

structure TradeWorld where
  aggregator : TradeBarAggregator := {}
  table : UnderlyingTable := ∅
  /-- `_mark_disconnected` clears it. -/
  connected : Bool := false

structure FlushAnswers where
  nowMs : ℤ
  lock : Await := .returns
  /-- Rows that other writers commit while the lock and the session are awaited. -/
  foreign : List (BarKey × UnderlyingBar1m) := []
  session : Await := .returns
  check : ℕ → Await := fun _ => .returns
  add : ℕ → Await := fun _ => .returns
  commit : Await := .returns

/-- How the streamer and the database answer one `poll_ticker_trades` call. -/
structure PollAnswers extends FlushAnswers where
  ensure : Await := .returns
  subscribe : Await := .returns
  /-- What `listen` delivers before the drain ends or fails. -/
  heard : List TradeEvent := []
  drain : Await := .returns
  unsubscribe : Await := .returns

def tradeRow (b : TradeBucket) : UnderlyingBar1m where
  opening := some (.numeric 4 (.val b.opening))
  high := some (.numeric 4 (.val b.high))
  low := some (.numeric 4 (.val b.low))
  close := some (.numeric 4 (.val b.close))
  volume := b.volume.map fun n => .val n

def usableClose (b : TradeBucket) : Bool := closeOk (some (.val b.close))

/-- The loop over the popped bars; `none` stands for an exception, `pending` for the rows added so far. -/
def writeTradeBars (answers : FlushAnswers) (table : UnderlyingTable) :
    List (BarKey × TradeBucket) → ℕ → List (BarKey × UnderlyingBar1m) → Option (List (BarKey × UnderlyingBar1m))
  | [], _, pending => some pending
  | (key, b) :: barRows, i, pending =>
    if answers.check i ≠ .returns then none
    else if key ∈ table ∨ key ∈ pending.map Prod.fst then writeTradeBars answers table barRows (i + 1) pending
    else if !usableClose b then writeTradeBars answers table barRows (i + 1) pending
    else if answers.add i ≠ .returns then none
    else writeTradeBars answers table barRows (i + 1) (pending ++ [(key, tradeRow b)])

def flushTradeBars (answers : FlushAnswers) (w : TradeWorld) : Ended × TradeWorld :=
  let (barRows, aggregator) := w.aggregator.dropReady answers.nowMs
  let w := { w with aggregator := aggregator }
  if barRows = [] then (.returned, w)
  else
    let w := { w with table := w.table.insertAll answers.foreign }
    if answers.lock ≠ .returns ∨ answers.session ≠ .returns then (.raised, w)
    else match writeTradeBars answers w.table barRows 0 [] with
      | none => (.raised, w)
      | some rows =>
        if answers.commit ≠ .returns then (.raised, w)
        else (.returned, { w with table := w.table.insertAll rows })

def pollTickerTrades (tickers : List String) (answers : PollAnswers) (w : TradeWorld) : Ended × TradeWorld :=
  if answers.ensure ≠ .returns then (.raised, w)
  else
    let w := { w with connected := true }
    match answers.subscribe with
    | .raises => (.raised, { w with connected := false })
    | .cancelled => (.raised, w)
    | .returns =>
      let w := { w with aggregator := answers.heard.foldl (TradeBarAggregator.drainOne tickers) w.aggregator }
      match answers.drain with
      | .raises => (.raised, { w with connected := false })
      | .cancelled => (.raised, w)
      | .returns =>
        -- a failed unsubscribe is only logged
        if answers.unsubscribe = .cancelled then (.raised, w) else flushTradeBars answers.toFlushAnswers w

def tradeRows (barRows : List (BarKey × TradeBucket)) : List (BarKey × UnderlyingBar1m) :=
  (barRows.filter fun bar => usableClose bar.2).map fun bar => (bar.1, tradeRow bar.2)

theorem writeTradeBars_calm {answers : FlushAnswers}
    (calm : ∀ i, answers.check i = .returns ∧ answers.add i = .returns)
    (table : UnderlyingTable) {barRows : List (BarKey × TradeBucket)} (unique : (barRows.map Prod.fst).Nodup)
    (i : ℕ) {pending : List (BarKey × UnderlyingBar1m)}
    (fresh : ∀ key ∈ barRows.map Prod.fst, key ∉ pending.map Prod.fst) :
    writeTradeBars answers table barRows i pending =
      some (pending ++ (tradeRows barRows).filter fun row => row.1 ∉ table) := by
  induction barRows generalizing i pending with
  | nil => simp [writeTradeBars, tradeRows]
  | cons bar barRows ih =>
    rcases bar with ⟨key, b⟩
    rw [List.map_cons, List.nodup_cons] at unique
    have unseen : key ∉ pending.map Prod.fst := fresh key (by simp)
    have later : ∀ other ∈ barRows.map Prod.fst, other ∉ pending.map Prod.fst :=
      fun other member => fresh other (List.mem_cons_of_mem _ member)
    rw [writeTradeBars, if_neg (not_not.mpr (calm i).1)]
    by_cases present : key ∈ table
    · rw [if_pos (.inl present), ih unique.2 (i + 1) later]
      by_cases usable : usableClose b = true <;> simp [tradeRows, usable, present]
    · rw [if_neg (not_or.mpr ⟨present, unseen⟩)]
      by_cases usable : usableClose b = true
      · have extended : ∀ other ∈ barRows.map Prod.fst, other ∉ (pending ++ [(key, tradeRow b)]).map Prod.fst := by
          intro other member
          have different : other ≠ key := fun same => unique.1 (same ▸ member)
          simpa [different] using later other member
        rw [if_neg (by simp [usable]), if_neg (not_not.mpr (calm i).2), ih unique.2 (i + 1) extended]
        simp [tradeRows, usable, present]
      · rw [if_pos (by simp [usable]), ih unique.2 (i + 1) later]
        simp [tradeRows, usable]

theorem flushTradeBars_calm (nowMs : ℤ) (w : TradeWorld) :
    flushTradeBars { nowMs := nowMs } w = (.returned, { w with
      aggregator := (w.aggregator.dropReady nowMs).2
      table := w.table.insertAll (tradeRows (w.aggregator.readyBars nowMs)) }) := by
  have calm (i : ℕ) : ({ nowMs := nowMs } : FlushAnswers).check i = .returns ∧
      ({ nowMs := nowMs } : FlushAnswers).add i = .returns := ⟨rfl, rfl⟩
  have nothing : ∀ key ∈ (w.aggregator.readyBars nowMs).map Prod.fst,
      key ∉ ([] : List (BarKey × UnderlyingBar1m)).map Prod.fst := by simp
  have written := writeTradeBars_calm calm w.table (w.aggregator.readyBars_nodup nowMs) 0 nothing
  rw [flushTradeBars]
  dsimp only
  split
  · next empty => rw [show w.aggregator.readyBars nowMs = [] from empty]; rfl
  · rw [if_neg (by simp), Dict.insertAll_nil]
    change (match writeTradeBars { nowMs := nowMs } w.table (w.aggregator.readyBars nowMs) 0 [] with
      | none => _
      | some rows => _) = _
    rw [written]
    dsimp only
    rw [if_neg (by simp), List.nil_append, Dict.insertAll_filter fun _ held => held]

end OptionsModel
