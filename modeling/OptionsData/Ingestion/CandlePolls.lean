import OptionsData.Ingestion.CandleWriter

namespace OptionsProof.CandlePolls

open Kit OptionsModel OptionsModel.WriteLoop

/-- A candle feed: the candle of a minute may change until the minute ends and is fixed afterwards. -/
structure Feed where
  candle : ℤ → ℤ → Option Candle
  timed : ∀ minute instant c, candle minute instant = some c → c.time = some minute
  fixed : ∀ minute instant, minute + 60000 ≤ instant → candle minute instant = candle minute (minute + 60000)

def Feed.settled (feed : Feed) (minute : ℤ) : Option Candle := feed.candle minute (minute + 60000)

/-- A candle request: where it starts, when it is made, and which minute it receives at which instant. -/
structure Request where
  start : ℤ
  made : ℤ
  received : List (ℤ × ℤ)
deriving DecidableEq

def Request.candles (feed : Feed) (request : Request) : List Candle :=
  request.received.filterMap fun arrival => feed.candle arrival.1 arrival.2

/-- The request covers each minute up to the one in progress, and repeats a time only with newer values. -/
structure Request.Answers (feed : Feed) (request : Request) : Prop where
  within : ∀ arrival ∈ request.received,
    request.start ≤ arrival.1 ∧ arrival.1 ≤ request.made ∧ request.made ≤ arrival.2
  covers : ∀ minute, request.start ≤ minute → minute ≤ request.made → (feed.candle minute request.made).isSome →
    ∃ instant, (minute, instant) ∈ request.received ∧ (feed.candle minute instant).isSome
  newer : request.received.Pairwise fun earlier later => earlier.1 = later.1 → earlier.2 ≤ later.2

def Request.CoversEnded (request : Request) (minute : ℤ) : Prop :=
  request.start ≤ minute ∧ minute + 60000 ≤ request.made

def pollAll {ρ : Type} (feed : Feed) (write : Dict BarKey ρ → List Candle → Dict BarKey ρ)
    (polls : List Request) : Dict BarKey ρ :=
  polls.foldl (fun table poll => write table (poll.candles feed)) ∅

def allCandles (feed : Feed) (polls : List Request) : List Candle := polls.flatMap (Request.candles feed)

theorem pollAll_lookup {ρ : Type} (feed : Feed) (identifier : String) (usable : Candle → Bool) (row : Candle → ρ)
    (write : Dict BarKey ρ → List Candle → Dict BarKey ρ)
    (writes : ∀ table candles, write table candles = (writeAll identifier usable row table candles).table)
    (polls : List Request) (minute : ℤ) :
    (pollAll feed write polls).lookup (identifier, minute) =
      (firstUsable usable minute (allCandles feed polls)).map row := by
  induction polls using List.reverseRecOn with
  | nil => rfl
  | append_singleton polls poll ih =>
    rw [pollAll, List.foldl_append, List.foldl_cons, List.foldl_nil, ← pollAll, writes, writeAll_lookup, ih,
      ← Option.map_or, ← firstUsable_append, allCandles, allCandles, List.flatMap_append,
      List.flatMap_singleton]

theorem settled_received {feed : Feed} {request : Request} {minute : ℤ} (answers : request.Answers feed)
    (ended : request.CoversEnded minute) {final : Candle} (settled : feed.settled minute = some final) :
    final ∈ request.candles feed := by
  have shown : (feed.candle minute request.made).isSome := by
    rw [feed.fixed minute request.made ended.2]
    exact Option.isSome_of_eq_some settled
  obtain ⟨instant, arrived, -⟩ := answers.covers minute ended.1 (by have := ended.2; omega) shown
  obtain ⟨-, -, late⟩ := answers.within _ arrived
  have found := (feed.fixed minute instant (ended.2.trans late)).trans settled
  exact List.mem_filterMap.mpr ⟨(minute, instant), arrived, found⟩

end OptionsProof.CandlePolls
