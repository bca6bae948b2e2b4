import OptionsData.Sources.CollectEvents
import OptionsData.Ingestion.CandleWriter

namespace OptionsModel

open Kit

/-- A `Candle` event; on the wire its symbol is followed by the aspect of the subscription in braces. -/
structure CandleEvent where
  symbol : String
  aspect : String
  candle : Candle
deriving DecidableEq, Repr

def CandleEvent.eventSymbol (ev : CandleEvent) : String := ev.symbol ++ "\x7b=" ++ ev.aspect ++ "\x7d"

structure CandleRequest where
  symbol : String
  timeout : ℚ := 240
  maxCount : ℕ := 100000
  idleTimeout : ℚ := 3
  requestStarted : ℤ

namespace CandleRequest

def collecting (r : CandleRequest) : CollectEvents CandleEvent ℤ where
  timeout := r.timeout
  maxCount := some r.maxCount
  eventFilter ev := r.symbol.toList <:+: ev.eventSymbol.toList
  idleTimeout := some r.idleTimeout
  stopOnRepeatedKey := true
  eventKey ev := ev.candle.time
  repeatKeyMinValue := some (r.requestStarted - 5 * 60 * 1000)

/-- What `request_candles` returns when the listener yields these events while it is collecting. -/
def requestCandles (r : CandleRequest) (stream : List (ℚ × CandleEvent)) (ended : Option ℚ) : List CandleEvent :=
  (r.collecting.collectEvents stream ended).1

end CandleRequest

end OptionsModel

namespace OptionsProof.CandleRequests

open Kit OptionsModel OptionsModel.CandleRequest

/-- An event of another symbol, whose text on the wire contains the requested one. -/
def Mistaken (symbol : String) (ev : CandleEvent) : Prop :=
  ev.symbol ≠ symbol ∧ symbol.toList <:+: ev.eventSymbol.toList

instance (symbol : String) (ev : CandleEvent) : Decidable (Mistaken symbol ev) := inferInstanceAs (Decidable (_ ∧ _))

def exactly (r : CandleRequest) : CollectEvents CandleEvent ℤ :=
  r.collecting.withFilter fun ev => ev.symbol = r.symbol

/-- Every event of another symbol that contains the requested one comes too late to be collected with its own. -/
def Unmistaken (r : CandleRequest) (stream : List (ℚ × CandleEvent)) : Prop :=
  ∀ before a after, stream = before ++ a :: after → Mistaken r.symbol a.2 →
    ((exactly r).drain (before ++ [a])).stopReason.isSome

def RowsFrom {ρ : Type} (key : String) (row : Candle → ρ) (events : List CandleEvent)
    (before after : Dict BarKey ρ) : Prop :=
  ∀ time r, after.lookup (key, time) = some r → before.lookup (key, time) = some r ∨
    ∃ ev ∈ events, ev.symbol = key ∧ ev.candle.time = some time ∧ r = row ev.candle

variable {r : CandleRequest} {stream : List (ℚ × CandleEvent)} {ended : Option ℚ}

theorem contains_own (r : CandleRequest) (ev : CandleEvent) (own : ev.symbol = r.symbol) :
    r.collecting.eventFilter ev = true := by
  have within : r.symbol.toList <:+: ev.eventSymbol.toList := by
    rw [CandleEvent.eventSymbol, String.append_assoc, String.append_assoc, String.toList_append, own]
    exact (List.prefix_append _ _).isInfix
  exact decide_eq_true within

theorem own_events_iff (ended : Option ℚ) :
    (∀ ev ∈ r.requestCandles stream ended, ev.symbol = r.symbol) ↔ Unmistaken r stream := by
  have criterion := CollectEvents.all_accepted_iff (fun ev => decide (ev.symbol = r.symbol)) stream
    fun ev own => contains_own r ev (of_decide_eq_true own)
  simp only [decide_eq_true_eq, decide_eq_false_iff_not] at criterion
  rw [requestCandles, CollectEvents.collectEvents, criterion]
  have passes (ev : CandleEvent) : r.collecting.eventFilter ev = true ↔ r.symbol.toList <:+: ev.eventSymbol.toList :=
    decide_eq_true_iff
  simp only [passes]
  exact ⟨fun all before a after same mistaken => all before a after same mistaken.2 mistaken.1,
    fun all before a after same contains other => all before a after same ⟨other, contains⟩⟩

theorem writeAll_rowsFrom {ρ : Type} {key : String} {usable : Candle → Bool} {row : Candle → ρ}
    {table : Dict BarKey ρ} {events : List CandleEvent} (own : ∀ ev ∈ events, ev.symbol = key) :
    RowsFrom key row events table
      (WriteLoop.writeAll key usable row table (events.map CandleEvent.candle)).table := by
  intro time r stored
  rw [WriteLoop.writeAll_lookup, Option.or_eq_some_iff] at stored
  rcases stored with before | ⟨-, written⟩
  · exact .inl before
  · obtain ⟨candle, found, rfl⟩ := Option.map_eq_some_iff.mp written
    obtain ⟨ev, member, rfl⟩ := List.mem_map.mp (List.mem_of_find?_eq_some found)
    have meets := List.find?_some found
    simp only [Bool.and_eq_true, decide_eq_true_eq] at meets
    exact .inr ⟨ev, member, own ev member, meets.1, rfl⟩

/-- What a request returns, and what the backfill writes from it, is of the requested symbol exactly if no mistaken
event arrives in time. -/
theorem own_candles_iff :
    ((∀ ev ∈ r.requestCandles stream ended, ev.symbol = r.symbol) ∧
      (∀ resolved table, RowsFrom r.symbol (optionCandleRow resolved) (r.requestCandles stream ended) table
        (backfillOptionContract r.symbol resolved table
          ((r.requestCandles stream ended).map CandleEvent.candle)).1) ∧
      ∀ table, RowsFrom r.symbol underlyingCandleRow (r.requestCandles stream ended) table
        (backfillUnderlying r.symbol table ((r.requestCandles stream ended).map CandleEvent.candle)).1) ↔
    Unmistaken r stream := by
  rw [← own_events_iff ended]
  constructor
  · exact And.left
  · intro own
    refine ⟨own, fun resolved table => ?_, fun table => ?_⟩
    · rw [backfillOptionContract_table]
      exact writeAll_rowsFrom own
    · rw [backfillUnderlying_table]
      exact writeAll_rowsFrom own

def underlyingRequest : CandleRequest where
  symbol := "SPX"
  requestStarted := 1790000000000

def leftoverCandle : CandleEvent where
  symbol := ".SPXW261016C6000"
  aspect := "1m,tho=true"
  candle := { time := some 1789999800000, close := some (.val 12) }

theorem option_candle_as_underlying : ¬ ∀ (r : CandleRequest) (stream : List (ℚ × CandleEvent)) (ended : Option ℚ),
    ∀ ev ∈ r.requestCandles stream ended, ev.symbol = r.symbol := by
  intro isolated
  have own := isolated underlyingRequest [(1, leftoverCandle)] none leftoverCandle (by decide +kernel)
  exact absurd own (by decide)

example : (backfillUnderlying "SPX" ∅ ((underlyingRequest.requestCandles [(1, leftoverCandle)] none).map
    CandleEvent.candle)).2 = 1 := by decide +kernel

end OptionsProof.CandleRequests
