import OptionsData.Kit.Run
import OptionsData.Ingestion.BarAggregator
import OptionsData.Ingestion.ContractManager

namespace OptionsModel

open Kit

abbrev Popped := List ((String × ℤ) × Bucket)

inductive Flush where
  | idle
  /-- In `_write_option_bars`, with the rows it built; the popped underlyings wait behind it. -/
  | options (ready : Popped) (rows : List (BarKey × OptionBar1m)) (underlyings : Popped)
  | underlyings (ready : Popped)
deriving DecidableEq, Repr

structure Pipeline where
  optionBars : BarAggregator := {}
  underlyingBars : BarAggregator := {}
  streamerToTicker : Dict String String := ∅
  tracked : Tracked := ∅
  underlyingQuoteEvents : ℕ := 0
  optionQuoteEvents : ℕ := 0
  flush : Flush := .idle
  optionTable : OptionTable := ∅
  underlyingTable : UnderlyingTable := ∅

def barKey (slot : String × ℤ) : BarKey := (slot.1, slot.2 * 1000)

theorem barKey_injective : Function.Injective barKey := by
  rintro ⟨key, minute⟩ ⟨key', minute'⟩ same
  simp only [barKey, Prod.mk.injEq] at same
  exact Prod.ext same.1 (by omega)

def optionRow (resolved : ResolvedContract) (b : Bucket) : OptionBar1m where
  underlyingTicker := resolved.underlyingTicker
  expirationDate := resolved.expirationDate
  strike := resolved.strike
  right := resolved.right
  opening := b.opening.map (.numeric 4)
  high := b.high.map (.numeric 4)
  low := b.low.map (.numeric 4)
  close := b.close.map (.numeric 4)
  bid := b.bid.map (.numeric 4)
  ask := b.ask.map (.numeric 4)
  delta := b.delta.map (.numeric 6)
  gamma := b.gamma.map (.numeric 8)
  theta := b.theta.map (.numeric 6)
  vega := b.vega.map (.numeric 6)
  rho := b.rho.map (.numeric 8)
  iv := b.iv.map (.numeric 6)
  greeksSource := if b.hasGreeks then some .live else none

def underlyingRow (b : Bucket) : UnderlyingBar1m where
  opening := b.opening.map (.numeric 4)
  high := b.high.map (.numeric 4)
  low := b.low.map (.numeric 4)
  close := b.close.map (.numeric 4)

def optionRows (tracked : Tracked) (ready : Popped) : List (BarKey × OptionBar1m) :=
  ready.filterMap fun popped =>
    (tracked.lookup popped.1.1).map fun resolved => (barKey popped.1, optionRow resolved popped.2)

def underlyingRows (ready : Popped) : List (BarKey × UnderlyingBar1m) :=
  ready.map fun popped => (barKey popped.1, underlyingRow popped.2)

namespace Pipeline

def onQuote (s : Pipeline) (symbol : Option String) (bidPrice askPrice : Option Number) (now : ℤ) : Pipeline :=
  match symbol with
  | none | some "" => s
  | some symbol =>
    let bid := getAttrAny [bidPrice]
    let ask := getAttrAny [askPrice]
    match s.streamerToTicker.lookup symbol with
    | some ticker =>
      { s with
        underlyingQuoteEvents := s.underlyingQuoteEvents + 1
        underlyingBars := s.underlyingBars.onQuote ticker bid ask now }
    | none =>
      { s with
        optionQuoteEvents := s.optionQuoteEvents + 1
        optionBars := s.optionBars.onQuote symbol bid ask now }

def onOptionGreeks (s : Pipeline) (symbol : Option String)
    (delta gamma theta vega rho volatility : Option Number) (now : ℤ) : Pipeline :=
  match symbol with
  | none | some "" => s
  | some symbol =>
    { s with
      optionBars := s.optionBars.onGreeks symbol (getAttrAny [delta]) (getAttrAny [gamma])
        (getAttrAny [theta]) (getAttrAny [vega]) (getAttrAny [rho]) (getAttrAny [volatility]) now }

def start (symbols : Dict String String) : Pipeline :=
  { streamerToTicker := Dict.assign ∅ (symbols.items.map fun item => (item.2, item.1)) }

/-- `_flush_ready_bars` up to its first await: both aggregators are popped, the option rows are built. -/
def beginFlush (s : Pipeline) (now : ℤ) : Pipeline :=
  let (optionReady, optionBars) := s.optionBars.popReady now
  let (underlyingReady, underlyingBars) := s.underlyingBars.popReady now
  { s with
    optionBars := optionBars
    underlyingBars := underlyingBars
    flush := .options optionReady (optionRows s.tracked optionReady) underlyingReady }

/-- `_write_option_bars` ends: the rows are committed, or the transaction failed and the buckets return. -/
def endOptionWrite (s : Pipeline) (ready : Popped) (rows : List (BarKey × OptionBar1m))
    (underlyings : Popped) (succeeds : Bool) : Pipeline :=
  if succeeds then
    { s with optionTable := s.optionTable.insertAll rows, flush := .underlyings underlyings }
  else
    { s with optionBars := s.optionBars.restore ready, flush := .underlyings underlyings }

def endUnderlyingWrite (s : Pipeline) (ready : Popped) (succeeds : Bool) : Pipeline :=
  if succeeds then
    { s with underlyingTable := s.underlyingTable.insertAll (underlyingRows ready), flush := .idle }
  else
    { s with underlyingBars := s.underlyingBars.restore ready, flush := .idle }

/-- What happens to the process between two awaits; `now` is the reading of its clock. -/
inductive Event where
  | quote (symbol : Option String) (bidPrice askPrice : Option Number) (now : ℤ)
  | greeks (symbol : Option String) (delta gamma theta vega rho volatility : Option Number) (now : ℤ)
  | refresh (tracked : Tracked)
  | foreign (options : List (BarKey × OptionBar1m)) (underlyings : List (BarKey × UnderlyingBar1m))
  | beginFlush (now : ℤ)
  /-- An empty write returns at once, so it cannot fail. -/
  | endOptionWrite (succeeds : Bool)
  | endUnderlyingWrite (succeeds : Bool)

def Event.reading : Event → Option ℤ
  | .quote _ _ _ now | .greeks _ _ _ _ _ _ _ now | .beginFlush now => some now
  | _ => none

def step (s : Pipeline) : Event → Option Pipeline
  | .quote symbol bidPrice askPrice now => some (s.onQuote symbol bidPrice askPrice now)
  | .greeks symbol delta gamma theta vega rho volatility now =>
    some (s.onOptionGreeks symbol delta gamma theta vega rho volatility now)
  | .refresh tracked => some { s with tracked := tracked }
  | .foreign options underlyings =>
    some { s with
      optionTable := s.optionTable.insertAll options
      underlyingTable := s.underlyingTable.insertAll underlyings }
  | .beginFlush now => if s.flush = .idle then some (s.beginFlush now) else none
  | .endOptionWrite succeeds => match s.flush with
    | .options ready rows underlyings =>
      if ready = [] ∧ succeeds = false then none
      else some (s.endOptionWrite ready rows underlyings succeeds)
    | _ => none
  | .endUnderlyingWrite succeeds => match s.flush with
    | .underlyings ready =>
      if ready = [] ∧ succeeds = false then none else some (s.endUnderlyingWrite ready succeeds)
    | _ => none

theorem beginFlush_taken {s t : Pipeline} {now : ℤ} :
    step s (.beginFlush now) = some t ↔ s.flush = .idle ∧ t = s.beginFlush now := by
  rw [step, Option.ite_none_right_eq_some, Option.some_inj, eq_comm (a := t)]

theorem endOptionWrite_taken {s t : Pipeline} {succeeds : Bool} :
    step s (.endOptionWrite succeeds) = some t ↔
      ∃ ready rows underlyings, s.flush = .options ready rows underlyings ∧
        ¬ (ready = [] ∧ succeeds = false) ∧ t = s.endOptionWrite ready rows underlyings succeeds := by
  cases flush : s.flush <;> simp [step, flush, eq_comm]

theorem endUnderlyingWrite_taken {s t : Pipeline} {succeeds : Bool} :
    step s (.endUnderlyingWrite succeeds) = some t ↔
      ∃ ready, s.flush = .underlyings ready ∧ ¬ (ready = [] ∧ succeeds = false) ∧
        t = s.endUnderlyingWrite ready succeeds := by
  cases flush : s.flush <;> simp [step, flush, eq_comm]

structure Grown (agg next : BarAggregator) : Prop where
  grace : next.flushGrace = agg.flushGrace
  holds : ∀ slot ∈ agg.buckets, slot ∈ next.buckets

structure Fed (s t : Pipeline) : Prop where
  route : t.streamerToTicker = s.streamerToTicker
  tracked : t.tracked = s.tracked
  flush : t.flush = s.flush
  optionTable : t.optionTable = s.optionTable
  underlyingTable : t.underlyingTable = s.underlyingTable
  options : Grown s.optionBars t.optionBars
  underlyings : Grown s.underlyingBars t.underlyingBars

theorem grown_refl (agg : BarAggregator) : Grown agg agg := ⟨rfl, fun _ held => held⟩

theorem fed_refl (s : Pipeline) : Fed s s := ⟨rfl, rfl, rfl, rfl, rfl, grown_refl _, grown_refl _⟩

theorem onQuote_fed (s : Pipeline) (symbol : Option String) (bidPrice askPrice : Option Number) (now : ℤ) :
    Fed s (s.onQuote symbol bidPrice askPrice now) := by
  have grown (agg : BarAggregator) (key : String) (bid ask : Option Number) :
      Grown agg (agg.onQuote key bid ask now) :=
    ⟨agg.onQuote_flushGrace key bid ask now, fun _ held => agg.onQuote_grows key bid ask now held⟩
  unfold Pipeline.onQuote
  split
  · exact fed_refl s
  · exact fed_refl s
  · dsimp only
    split
    · exact ⟨rfl, rfl, rfl, rfl, rfl, grown_refl _, grown _ _ _ _⟩
    · exact ⟨rfl, rfl, rfl, rfl, rfl, grown _ _ _ _, grown_refl _⟩

theorem onOptionGreeks_fed (s : Pipeline) (symbol : Option String)
    (delta gamma theta vega rho volatility : Option Number) (now : ℤ) :
    Fed s (s.onOptionGreeks symbol delta gamma theta vega rho volatility now) := by
  unfold Pipeline.onOptionGreeks
  split
  · exact fed_refl s
  · exact fed_refl s
  · exact ⟨rfl, rfl, rfl, rfl, rfl, ⟨rfl, fun _ held => s.optionBars.onGreeks_grows _ _ _ _ _ _ _ _ held⟩,
      grown_refl _⟩

def inFlight (s : Pipeline) : Popped :=
  match s.flush with
  | .idle => []
  | .options _ _ underlyings => underlyings
  | .underlyings ready => ready

def optionsInFlight (s : Pipeline) : Popped :=
  match s.flush with
  | .options ready _ _ => ready
  | _ => []

/-- `run_task.cancel()` reaches the flush at an awaited write; `except Exception` lets CancelledError pass. -/
def cancel (s : Pipeline) : Option Pipeline :=
  match s.flush with
  | .idle => none
  | .options ready _ _ => if ready = [] then none else some { s with flush := .idle }
  | .underlyings ready => if ready = [] then none else some { s with flush := .idle }

def farFuture : ℤ := (2 ^ 31 - 1) * 1000000

/-- `close` with two writes that succeed, and what else happens while they are awaited. -/
def close (first second : List Event) : List Event :=
  .beginFlush farFuture :: first ++ .endOptionWrite true :: second ++ [.endUnderlyingWrite true]

theorem mem_optionRows {tracked : Tracked} {ready : Popped} {slot : String × ℤ} :
    barKey slot ∈ (optionRows tracked ready).map Prod.fst ↔ slot ∈ ready.map Prod.fst ∧ slot.1 ∈ tracked := by
  simp only [optionRows, List.mem_map, List.mem_filterMap, Option.map_eq_some_iff]
  constructor
  · intro premise
    rcases premise with ⟨row, ⟨popped, member, resolved, found, rfl⟩, same⟩
    cases barKey_injective same
    exact ⟨⟨popped, member, rfl⟩, (Dict.mem_iff _ _).mpr ⟨resolved, found⟩⟩
  · intro premise
    rcases premise with ⟨⟨popped, member, rfl⟩, known⟩
    obtain ⟨resolved, found⟩ := (Dict.mem_iff _ _).mp known
    exact ⟨_, ⟨popped, member, resolved, found, rfl⟩, rfl⟩

theorem mem_underlyingRows {ready : Popped} {slot : String × ℤ} :
    barKey slot ∈ (underlyingRows ready).map Prod.fst ↔ slot ∈ ready.map Prod.fst := by
  rw [underlyingRows, List.map_map]
  show barKey slot ∈ ready.map (barKey ∘ Prod.fst) ↔ _
  rw [← List.map_map, List.mem_map_of_injective barKey_injective]

end Pipeline

end OptionsModel
