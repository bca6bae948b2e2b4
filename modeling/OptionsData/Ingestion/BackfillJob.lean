import OptionsData.Ingestion.CandleWriter

namespace OptionsModel

open Kit

def effectiveStartTimes {ρ : Type*} (fullRescan : Bool) (table : Dict BarKey ρ) (windowStart : ℤ) (key : String) :
    ℤ :=
  if fullRescan then windowStart
  else (latestBar table key).elim windowStart (max windowStart)

def candlesFrom (candles : List Candle) (start : ℤ) : List Candle :=
  candles.filter fun candle => candle.time.any (start ≤ ·)

structure BarTables where
  options : OptionTable := ∅
  underlyings : UnderlyingTable := ∅

/-- One `BackfillJob.run` whose requests are all answered completely, and what the feed has at that moment. -/
structure BackfillRun where
  fullRescan : Bool := false
  windowStart : ℤ
  candidates : Dict String ResolvedContract
  underlyingTickers : List String
  distinct : underlyingTickers.Nodup
  feed : String → List Candle

namespace BackfillRun

/-- The SELECT of `_effective_start_times` binds each key; it is not made for a full rescan. -/
def startsRaise (r : BackfillRun) (keys : List String) : Bool :=
  !r.fullRescan && MAX_STATEMENT_ARGUMENTS < keys.length

/-- A contract or ticker whose pass raises is logged and left out; a SELECT of the start times that raises ends the run,
the one for the underlyings after the contracts are done. -/
def run (r : BackfillRun) (tables : BarTables) : BarTables :=
  if r.startsRaise r.candidates.keys then tables
  else {
    options := r.candidates.items.foldl (fun table entry =>
      ((tryBackfillOptionContract entry.1 entry.2 table (candlesFrom (r.feed entry.1)
        (effectiveStartTimes r.fullRescan tables.options r.windowStart entry.1))).map Prod.fst).getD table) tables.options
    underlyings :=
      if r.startsRaise r.underlyingTickers then tables.underlyings
      else r.underlyingTickers.foldl (fun table ticker =>
        ((tryBackfillUnderlying ticker table (candlesFrom (r.feed ticker)
          (effectiveStartTimes r.fullRescan tables.underlyings r.windowStart ticker))).map Prod.fst).getD table)
        tables.underlyings }

end BackfillRun

end OptionsModel
