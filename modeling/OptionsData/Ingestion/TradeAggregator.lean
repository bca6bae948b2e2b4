import OptionsData.Db.Models
import OptionsData.Kit.Ohlc

namespace OptionsModel

open Kit

structure TradeEvent where
  eventSymbol : String
  last : Option Number := none
  price : Option Number := none
  time : Option ℤ := none
  size : Option Number := none
deriving DecidableEq, Repr

structure Tick where
  minute : ℤ
  price : ℚ
  size : Option Number
deriving DecidableEq, Repr

/-- The size as the feed sends it. -/
def Tick.amount (tick : Tick) : Option ℚ := tick.size.bind fun
  | .val q => some q
  | .nan => none

/-- `int(size)`, which the volume is the sum of. -/
def Tick.count (tick : Tick) : Option ℤ := tick.size.bind Number.toInt

def readTick (ev : TradeEvent) : Option Tick :=
  match getAttrAny [ev.last, ev.price], ev.time with
  | some (.val fprice), some t =>
    if fprice ≤ 0 then none
    else some ⟨t - t % 60000, fprice, getAttrAny [ev.size]⟩
  | _, _ => none

structure TradeBucket extends Ohlc ℚ where
  volume : Option ℤ := none
deriving DecidableEq, Repr

namespace TradeBucket

def add (b : Option TradeBucket) (tick : Tick) : TradeBucket where
  toOhlc := b.elim (.single tick.price) fun b => b.toOhlc.push tick.price
  volume := tick.count.elim (b.bind volume) fun size => some ((b.bind volume).getD 0 + size)

def summary (ticks : List Tick) : Option TradeBucket :=
  ticks.foldl (fun b tick => some (add b tick)) none

theorem summary_concat (ticks : List Tick) (tick : Tick) :
    summary (ticks ++ [tick]) = some (add (summary ticks) tick) := by
  simp [summary, List.foldl_append]

theorem summary_ohlc (ticks : List Tick) :
    (summary ticks).map toOhlc = Ohlc.summary (ticks.map Tick.price) := by
  induction ticks using List.reverseRecOn with
  | nil => rfl
  | append_singleton ticks tick ih =>
    rw [summary_concat, List.map_append, List.map_singleton, Ohlc.summary_concat, ← ih]
    cases summary ticks <;> rfl

theorem summary_volume (ticks : List Tick) :
    (summary ticks).bind volume =
      if ticks.filterMap Tick.count = [] then none else some (ticks.filterMap Tick.count).sum := by
  induction ticks using List.reverseRecOn with
  | nil => rfl
  | append_singleton ticks tick ih =>
    rw [summary_concat, Option.bind_some, add, List.filterMap_append]
    dsimp only
    rw [ih]
    cases size : tick.count with
    | none => simp [size]
    | some n => by_cases empty : ticks.filterMap Tick.count = [] <;> simp [size, empty]

end TradeBucket

/-- `_TradeBarAggregator`; the buckets are keyed by ticker and minute start, as the rows are. -/
structure TradeBarAggregator where
  buckets : Dict BarKey TradeBucket := ∅

namespace TradeBarAggregator

def feed (agg : TradeBarAggregator) (ticker : String) (ev : TradeEvent) : TradeBarAggregator :=
  match readTick ev with
  | none => agg
  | some tick =>
    { buckets := agg.buckets.insert (ticker, tick.minute)
        (TradeBucket.add (agg.buckets.lookup (ticker, tick.minute)) tick) }

def isReady (nowMs : ℤ) (slot : BarKey) : Bool := slot.2 + 60000 ≤ nowMs

def readyBars (agg : TradeBarAggregator) (nowMs : ℤ) : List (BarKey × TradeBucket) :=
  (agg.buckets.filter fun slot _ => isReady nowMs slot).items

def dropReady (agg : TradeBarAggregator) (nowMs : ℤ) : List (BarKey × TradeBucket) × TradeBarAggregator :=
  (agg.readyBars nowMs, { buckets := agg.buckets.filter fun slot _ => !isReady nowMs slot })

/-- The body of `_drain`: an event of another symbol is dropped. -/
def drainOne (tickers : List String) (agg : TradeBarAggregator) (ev : TradeEvent) : TradeBarAggregator :=
  if ev.eventSymbol ∈ tickers then agg.feed ev.eventSymbol ev else agg

theorem mem_readyBars {agg : TradeBarAggregator} {nowMs : ℤ} {slot : BarKey} {b : TradeBucket} :
    (slot, b) ∈ agg.readyBars nowMs ↔ agg.buckets.lookup slot = some b ∧ slot.2 + 60000 ≤ nowMs := by
  rw [readyBars, Dict.mem_items, Dict.lookup_filter, Option.filter_eq_some_iff, isReady, decide_eq_true_eq]

theorem readyBars_nodup (agg : TradeBarAggregator) (nowMs : ℤ) : ((agg.readyBars nowMs).map Prod.fst).Nodup :=
  Dict.items_nodup _

theorem dropReady_lookup (agg : TradeBarAggregator) (nowMs : ℤ) (slot : BarKey) :
    (agg.dropReady nowMs).2.buckets.lookup slot =
      if slot.2 + 60000 ≤ nowMs then none else agg.buckets.lookup slot := by
  rw [dropReady, Dict.lookup_filter, isReady]
  by_cases ready : slot.2 + 60000 ≤ nowMs <;> cases agg.buckets.lookup slot <;> simp [ready]

theorem feed_lookup (agg : TradeBarAggregator) (ticker : String) (ev : TradeEvent) (slot : BarKey) :
    (agg.feed ticker ev).buckets.lookup slot =
      (readTick ev).elim (agg.buckets.lookup slot) fun tick =>
        if slot = (ticker, tick.minute) then some (TradeBucket.add (agg.buckets.lookup slot) tick)
        else agg.buckets.lookup slot := by
  unfold feed
  cases readTick ev with
  | none => rfl
  | some tick =>
    rw [Dict.lookup_insert, Option.elim_some]
    split
    · next same => rw [same]
    · rfl

end TradeBarAggregator

end OptionsModel
