import OptionsData.Kit.Run
import OptionsData.Ingestion.TradePoller

namespace OptionsModel

open Kit

inductive Phase where
  | idle
  | draining
  | drained
deriving DecidableEq, Repr

structure TradeStream where
  phase : Phase := .idle
  subscribed : Bool := false
  queue : List TradeEvent := []
  world : TradeWorld := {}

namespace TradeStream

inductive Action where
  /-- The feed publishes an event; without a subscription it goes nowhere. -/
  | emit (ev : TradeEvent)
  | subscribe
  | receive
  /-- The drain is over; a failed unsubscribe is only logged. -/
  | unsubscribe (succeeds : Bool)
  | flush (nowMs : ℤ)

def start : TradeStream := { phase := .draining, subscribed := true }

def step (tickers : List String) (s : TradeStream) : Action → Option TradeStream
  | .emit ev => some (if s.subscribed then { s with queue := s.queue ++ [ev] } else s)
  | .subscribe => if s.phase = .idle then some { s with phase := .draining, subscribed := true } else none
  | .receive => match s.phase, s.queue with
    | .draining, ev :: queue =>
      some { s with
        queue := queue
        world := { s.world with aggregator := s.world.aggregator.drainOne tickers ev } }
    | _, _ => none
  | .unsubscribe succeeds =>
    if s.phase = .draining then some { s with phase := .drained, subscribed := s.subscribed && !succeeds } else none
  | .flush nowMs =>
    if s.phase = .drained then
      some { s with phase := .idle, world := (flushTradeBars { nowMs := nowMs } s.world).2 }
    else none

def published : Action → Option TradeEvent
  | .emit ev => some ev
  | _ => none

def emitted (actions : List Action) : List TradeEvent := actions.filterMap published

end TradeStream

end OptionsModel

namespace OptionsProof.TradeStream

open Kit OptionsModel OptionsModel.TradeStream

def tickFor (tickers : List String) (slot : BarKey) (ev : TradeEvent) : Option Tick :=
  if ev.eventSymbol ∈ tickers ∧ ev.eventSymbol = slot.1 then
    (readTick ev).bind fun tick => if tick.minute = slot.2 then some tick else none
  else none

def ticksOf (tickers : List String) (slot : BarKey) (events : List TradeEvent) : List Tick :=
  events.filterMap (tickFor tickers slot)

/-- The row has the first, greatest, least and last price and the summed sizes of the ticks. -/
def RowOfTicks (row : UnderlyingBar1m) (ticks : List Tick) : Prop :=
  row.opening = (ticks.map Tick.price).head?.map .val ∧ row.high = (ticks.map Tick.price).max?.map .val ∧
    row.low = (ticks.map Tick.price).min?.map .val ∧ row.close = (ticks.map Tick.price).getLast?.map .val ∧
    row.volume = if ticks.filterMap Tick.amount = [] then none else some (.val (ticks.filterMap Tick.amount).sum)

/-- The columns take the tick as it is: a price of at most four decimals, a whole size. -/
def Storable (tick : Tick) : Prop :=
  toScale 4 tick.price = tick.price ∧ ∀ q, tick.amount = some q → ∃ n : ℤ, q = n

/-- A tick is one that the columns can take, it is emitted only while it is subscribed to and before its bar is
stored, and a bar is flushed only when no tick of its minute is still on its way. -/
def InTime (tickers : List String) (s : TradeStream) : Action → Prop
  | .emit ev => ∀ slot tick, tickFor tickers slot ev = some tick →
      s.subscribed = true ∧ slot ∉ s.world.table ∧ Storable tick
  | .flush nowMs => ∀ slot ∈ s.world.aggregator.buckets, slot.2 + 60000 ≤ nowMs → ticksOf tickers slot s.queue = []
  | _ => True

/-- The bar of a slot is exact: what is stored covers every tick, else what is held and queued does. -/
inductive Exact (tickers : List String) (slot : BarKey) (past : List TradeEvent) (s : TradeStream) : Prop where
  | gathering (received : List Tick) (split : ticksOf tickers slot past = received ++ ticksOf tickers slot s.queue)
      (held : s.world.aggregator.buckets.lookup slot = TradeBucket.summary received)
      (absent : s.world.table.lookup slot = none) : Exact tickers slot past s
  | stored (b : TradeBucket) (all : TradeBucket.summary (ticksOf tickers slot past) = some b)
      (landed : ticksOf tickers slot s.queue = []) (dropped : s.world.aggregator.buckets.lookup slot = none)
      (row : s.world.table.lookup slot = some (tradeRow b)) : Exact tickers slot past s

theorem amount_count {tick : Tick} (storable : Storable tick) :
    tick.amount = tick.count.map fun n : ℤ => (n : ℚ) := by
  obtain ⟨minute, price, size⟩ := tick
  cases size with
  | none => rfl
  | some size =>
    cases size with
    | nan => rfl
    | val q =>
      obtain ⟨n, rfl⟩ := storable.2 q rfl
      simp [Tick.amount, Tick.count, Number.toInt]

theorem rowOfTicks_summary {ticks : List Tick} {b : TradeBucket} (all : TradeBucket.summary ticks = some b)
    (storable : ∀ tick ∈ ticks, Storable tick) : RowOfTicks (tradeRow b) ticks := by
  have prices := TradeBucket.summary_ohlc ticks
  have volume := TradeBucket.summary_volume ticks
  obtain ⟨opening, high, low, close⟩ := Ohlc.summary_fields (ticks.map Tick.price)
  rw [all] at prices volume
  rw [← prices, Option.map_some, Option.map_some] at opening high low close
  have exact_ {q : ℚ} (member : q ∈ ticks.map Tick.price) : Number.numeric 4 (.val q) = .val q := by
    obtain ⟨tick, listed, rfl⟩ := List.mem_map.mp member
    rw [Number.numeric, (storable tick listed).1]
  have amounts : ticks.filterMap Tick.amount = (ticks.filterMap Tick.count).map fun n : ℤ => (n : ℚ) := by
    rw [List.map_filterMap]
    exact List.filterMap_congr fun tick member => amount_count (storable tick member)
  refine ⟨?_, ?_, ?_, ?_, ?_⟩
  · rw [← opening, tradeRow, exact_ (List.mem_of_head? opening.symm)]
    rfl
  · rw [← high, tradeRow, exact_ (List.max?_mem high.symm)]
    rfl
  · rw [← low, tradeRow, exact_ (List.min?_mem low.symm)]
    rfl
  · rw [← close, tradeRow, exact_ (List.mem_of_getLast? close.symm)]
    rfl
  · rw [Option.bind_some] at volume
    rw [tradeRow, volume, amounts, ← Int.cast_list_sum]
    split <;> simp [*]

theorem drainOne_lookup (tickers : List String) (agg : TradeBarAggregator) (ev : TradeEvent) (slot : BarKey) :
    (agg.drainOne tickers ev).buckets.lookup slot =
      (tickFor tickers slot ev).elim (agg.buckets.lookup slot) fun tick =>
        some (TradeBucket.add (agg.buckets.lookup slot) tick) := by
  unfold TradeBarAggregator.drainOne tickFor
  by_cases followed : ev.eventSymbol ∈ tickers
  · rw [if_pos followed, TradeBarAggregator.feed_lookup]
    cases readTick ev with
    | none => simp
    | some tick =>
      by_cases same : slot = (ev.eventSymbol, tick.minute)
      · subst same
        simp [followed]
      · have other : ¬ (ev.eventSymbol = slot.1 ∧ tick.minute = slot.2) := fun both =>
          same (Prod.ext both.1.symm both.2.symm)
        by_cases ticker : ev.eventSymbol = slot.1
        · have minute : tick.minute ≠ slot.2 := fun equal => other ⟨ticker, equal⟩
          simp [same, minute]
        · simp [same, ticker]
  · simp [followed]

theorem readTick_pos {ev : TradeEvent} {tick : Tick} (read : readTick ev = some tick) : 0 < tick.price := by
  unfold readTick at read
  split at read
  · split at read
    · cases read
    · next positive =>
      cases read
      exact not_le.mp positive
  · cases read

theorem ticksOf_pos {tickers : List String} {slot : BarKey} {events : List TradeEvent} {tick : Tick}
    (member : tick ∈ ticksOf tickers slot events) : 0 < tick.price := by
  obtain ⟨ev, -, found⟩ := List.mem_filterMap.mp member
  unfold tickFor at found
  split at found
  · obtain ⟨read, read_eq, same⟩ := Option.bind_eq_some_iff.mp found
    cases (Option.ite_none_right_eq_some.mp same).2
    exact readTick_pos read_eq
  · cases found

theorem summary_usable {ticks : List Tick} {b : TradeBucket} (all : TradeBucket.summary ticks = some b)
    (positive : ∀ tick ∈ ticks, 0 < tick.price) : usableClose b = true := by
  induction ticks using List.reverseRecOn with
  | nil => cases all
  | append_singleton ticks tick _ =>
    rw [TradeBucket.summary_concat] at all
    cases all
    have last : (TradeBucket.add (TradeBucket.summary ticks) tick).close = tick.price := by
      cases TradeBucket.summary ticks <;> rfl
    simpa [usableClose, last, closeOk] using positive tick (by simp)

theorem firstRow_tradeRows (agg : TradeBarAggregator) (nowMs : ℤ) (slot : BarKey) :
    Dict.firstRow (tradeRows (agg.readyBars nowMs)) slot =
      if slot.2 + 60000 ≤ nowMs then ((agg.buckets.lookup slot).filter usableClose).map tradeRow else none := by
  have unique : ((tradeRows (agg.readyBars nowMs)).map Prod.fst).Nodup := by
    rw [tradeRows, List.map_map]
    exact ((List.filter_sublist.map Prod.fst).nodup (agg.readyBars_nodup nowMs))
  apply Option.ext
  intro row
  rw [Dict.firstRow_iff unique]
  have listed : (slot, row) ∈ tradeRows (agg.readyBars nowMs) ↔
      ∃ b, (agg.buckets.lookup slot = some b ∧ slot.2 + 60000 ≤ nowMs) ∧ usableClose b = true ∧ tradeRow b = row := by
    rw [tradeRows, List.mem_map]
    constructor
    · intro premise
      rcases premise with ⟨⟨key, b⟩, member, same⟩
      cases same
      obtain ⟨listed, usable⟩ := List.mem_filter.mp member
      exact ⟨b, TradeBarAggregator.mem_readyBars.mp listed, usable, rfl⟩
    · intro premise
      rcases premise with ⟨b, held, usable, rfl⟩
      exact ⟨(slot, b), List.mem_filter.mpr ⟨TradeBarAggregator.mem_readyBars.mpr held, usable⟩, rfl⟩
  rw [listed]
  by_cases ready : slot.2 + 60000 ≤ nowMs <;> simp [ready, Option.filter_eq_some_iff, and_assoc]

theorem ticksOf_concat (tickers : List String) (slot : BarKey) (events : List TradeEvent) (ev : TradeEvent) :
    ticksOf tickers slot (events ++ [ev]) = ticksOf tickers slot events ++ (tickFor tickers slot ev).toList := by
  rw [ticksOf, List.filterMap_append, ← ticksOf]
  cases found : tickFor tickers slot ev <;> simp [found]

theorem ticksOf_cons (tickers : List String) (slot : BarKey) (ev : TradeEvent) (events : List TradeEvent) :
    ticksOf tickers slot (ev :: events) = (tickFor tickers slot ev).toList ++ ticksOf tickers slot events := by
  cases found : tickFor tickers slot ev <;> simp [ticksOf, found]

theorem Exact.frame {tickers : List String} {slot : BarKey} {past : List TradeEvent} {s t : TradeStream}
    (exact_ : Exact tickers slot past s) (queue : t.queue = s.queue) (world : t.world = s.world) :
    Exact tickers slot past t := by
  cases exact_ with
  | gathering received split held absent =>
    rw [← queue] at split
    rw [← world] at held absent
    exact .gathering received split held absent
  | stored b all landed dropped row =>
    rw [← queue] at landed
    rw [← world] at dropped row
    exact .stored b all landed dropped row

theorem Exact.emit {tickers : List String} {slot : BarKey} {past : List TradeEvent} {s : TradeStream}
    (exact_ : Exact tickers slot past s) {ev : TradeEvent} (inTime : InTime tickers s (.emit ev)) :
    Exact tickers slot (past ++ [ev]) (if s.subscribed then { s with queue := s.queue ++ [ev] } else s) := by
  have heard (tick : Tick) := inTime slot tick
  cases found : tickFor tickers slot ev with
  | none =>
    have before : ticksOf tickers slot (past ++ [ev]) = ticksOf tickers slot past := by
      rw [ticksOf_concat, found, Option.toList_none, List.append_nil]
    have queued : ticksOf tickers slot (s.queue ++ [ev]) = ticksOf tickers slot s.queue := by
      rw [ticksOf_concat, found, Option.toList_none, List.append_nil]
    cases exact_ with
    | gathering received split held absent =>
      refine .gathering received ?_ ?_ ?_ <;> cases s.subscribed <;> simp [before, queued, split, held, absent]
    | stored b all landed dropped row =>
      refine .stored b ?_ ?_ ?_ ?_ <;> cases s.subscribed <;> simp [before, queued, all, landed, dropped, row]
  | some tick =>
    obtain ⟨subscribed, unstored, -⟩ := heard tick found
    cases exact_ with
    | gathering received split held absent =>
      refine .gathering received ?_ ?_ ?_
      · simp [subscribed, ticksOf_concat, split]
      · simpa [subscribed] using held
      · simpa [subscribed] using absent
    | stored b all landed dropped row => exact absurd ((Dict.mem_iff _ _).mpr ⟨_, row⟩) unstored

theorem Exact.receive {tickers : List String} {slot : BarKey} {past : List TradeEvent} {s : TradeStream}
    (exact_ : Exact tickers slot past s) {ev : TradeEvent} {queue : List TradeEvent}
    (waiting : s.queue = ev :: queue) :
    Exact tickers slot past { s with
      queue := queue
      world := { s.world with aggregator := s.world.aggregator.drainOne tickers ev } } := by
  have looked := drainOne_lookup tickers s.world.aggregator ev slot
  cases exact_ with
  | gathering received split held absent =>
    rw [waiting, ticksOf_cons, ← List.append_assoc] at split
    refine .gathering _ split ?_ absent
    rw [looked, held]
    cases tickFor tickers slot ev with
    | none => simp
    | some tick => exact (TradeBucket.summary_concat received tick).symm
  | stored b all landed dropped row =>
    rw [waiting, ticksOf_cons, List.append_eq_nil_iff, Option.toList_eq_nil_iff] at landed
    refine .stored b all landed.2 ?_ row
    rw [looked, landed.1]
    exact dropped

theorem Exact.flush {tickers : List String} {slot : BarKey} {past : List TradeEvent} {s : TradeStream}
    (exact_ : Exact tickers slot past s) {nowMs : ℤ} (inTime : InTime tickers s (.flush nowMs)) (phase : Phase) :
    Exact tickers slot past
      { s with phase := phase, world := (flushTradeBars { nowMs := nowMs } s.world).2 } := by
  rw [flushTradeBars_calm]
  have landed := inTime slot
  have dropped := TradeBarAggregator.dropReady_lookup s.world.aggregator nowMs slot
  have written := Dict.lookup_insertAll s.world.table (tradeRows (s.world.aggregator.readyBars nowMs)) slot
  rw [firstRow_tradeRows] at written
  cases exact_ with
  | stored b all queued gone row =>
    refine .stored b all queued ?_ ?_
    · rw [dropped, gone, ite_self]
    · rw [written, row, Option.some_or]
  | gathering received split held absent =>
    by_cases ready : slot.2 + 60000 ≤ nowMs
    · rw [if_pos ready] at dropped written
      rw [absent, Option.none_or, held] at written
      cases all : TradeBucket.summary received with
      | none =>
        refine .gathering received split ?_ ?_
        · rw [dropped, all]
        · rw [written, all]
          rfl
      | some b =>
        have alone := landed ((Dict.mem_iff _ _).mpr ⟨b, held.trans all⟩) ready
        rw [alone, List.append_nil] at split
        have usable := summary_usable all fun tick member => ticksOf_pos (split ▸ member)
        refine .stored b (split ▸ all) alone dropped ?_
        rw [written, all, Option.filter_some_pos usable]
        rfl
    · rw [if_neg ready] at dropped written
      exact .gathering received split (dropped.trans held) (by rw [written, absent]; rfl)

theorem Exact.step {tickers : List String} {slot : BarKey} {past : List Action} {s t : TradeStream} {a : Action}
    (exact_ : Exact tickers slot (emitted past) s) (inTime : InTime tickers s a)
    (taken : TradeStream.step tickers s a = some t) : Exact tickers slot (emitted (past ++ [a])) t := by
  have quiet (nothing : published a = none) : emitted (past ++ [a]) = emitted past := by
    simp [emitted, nothing]
  cases a with
  | emit ev =>
    cases taken
    have more : emitted (past ++ [.emit ev]) = emitted past ++ [ev] := by simp [emitted, published]
    rw [more]
    exact exact_.emit inTime
  | subscribe =>
    obtain ⟨-, same⟩ := Option.ite_none_right_eq_some.mp taken
    cases same
    rw [quiet rfl]
    exact exact_.frame rfl rfl
  | receive =>
    rw [quiet rfl]
    unfold TradeStream.step at taken
    dsimp only at taken
    split at taken
    · next ev queue _ waiting =>
      cases taken
      exact exact_.receive waiting
    · cases taken
  | unsubscribe succeeds =>
    obtain ⟨-, same⟩ := Option.ite_none_right_eq_some.mp taken
    cases same
    rw [quiet rfl]
    exact exact_.frame rfl rfl
  | flush nowMs =>
    obtain ⟨-, same⟩ := Option.ite_none_right_eq_some.mp taken
    cases same
    rw [quiet rfl]
    exact exact_.flush inTime .idle

theorem emitted_storable {tickers : List String} {actions : List Action} {s : TradeStream}
    (guarded : Guarded (step tickers) (InTime tickers) start actions)
    (reached : run (step tickers) start actions = some s) (slot : BarKey) :
    ∀ tick ∈ ticksOf tickers slot (emitted actions), Storable tick := by
  let holds (past : List Action) (_ : TradeStream) : Prop :=
    ∀ tick ∈ ticksOf tickers slot (emitted past), Storable tick
  have initial : holds [] start := fun tick member => absurd member List.not_mem_nil
  have keep (past : List Action) (u : TradeStream) (a : Action) (t : TradeStream) (before : holds past u)
      (inTime : InTime tickers u a) (_ : step tickers u a = some t) : holds (past ++ [a]) t := by
    intro tick member
    rw [emitted, List.filterMap_append, ticksOf, List.filterMap_append] at member
    rcases List.mem_append.mp member with earlier | now
    · exact before tick earlier
    · obtain ⟨ev, listed, found⟩ := List.mem_filterMap.mp now
      cases a with
      | emit ev' =>
        obtain rfl : ev = ev' := by simpa [published] using listed
        exact (inTime slot tick found).2.2
      | _ => cases listed
  exact run_guarded_history initial keep guarded reached

/-- In a run whose ticks all come in time, every stored row is exactly that of the ticks the feed has emitted for
its minute; and a flush stores the row of every complete minute whose ticks have all been received. -/
theorem stored_rows_exact {tickers : List String} {actions : List Action} {s : TradeStream}
    (guarded : Guarded (step tickers) (InTime tickers) start actions)
    (reached : run (step tickers) start actions = some s) (slot : BarKey) :
    (∀ row, s.world.table.lookup slot = some row → RowOfTicks row (ticksOf tickers slot (emitted actions))) ∧
    ∀ past nowMs, actions = past ++ [.flush nowMs] → slot.2 + 60000 ≤ nowMs →
      ticksOf tickers slot (emitted actions) ≠ [] → ticksOf tickers slot s.queue = [] → slot ∈ s.world.table := by
  have keep (past : List Action) (u : TradeStream) (a : Action) (t : TradeStream)
      (before : Exact tickers slot (emitted past) u) (inTime : InTime tickers u a)
      (taken : step tickers u a = some t) :
      Exact tickers slot (emitted (past ++ [a])) t := before.step inTime taken
  have exact_ : Exact tickers slot (emitted actions) s :=
    run_guarded_history (.gathering [] rfl rfl rfl) keep guarded reached
  constructor
  · intro row found
    cases exact_ with
    | gathering received split held absent => exact nomatch absent.symm.trans found
    | stored b all landed dropped stored =>
      cases stored.symm.trans found
      exact rowOfTicks_summary all (emitted_storable guarded reached slot)
  · intro past nowMs last ready ticked received
    subst last
    cases exact_ with
    | stored b all landed dropped stored => exact (Dict.mem_iff _ _).mpr ⟨_, stored⟩
    | gathering taken split held absent =>
      obtain ⟨u, -, flushed⟩ := run_concat_some.mp reached
      obtain ⟨-, same⟩ := Option.ite_none_right_eq_some.mp flushed
      cases same
      rw [flushTradeBars_calm] at held
      dsimp only at held received
      rw [TradeBarAggregator.dropReady_lookup, if_pos ready] at held
      rw [received, List.append_nil] at split
      have none_ := Ohlc.summary_eq_none.mp ((TradeBucket.summary_ohlc taken).symm.trans (congrArg _ held.symm))
      exact absurd (split.trans (List.map_eq_nil_iff.mp none_)) ticked

def vix (price : ℚ) (time : ℤ) : TradeEvent := { eventSymbol := "VIX", price := some (.val price), time := some time }

def steadyStream : List Action := [.emit (vix 20 10000), .receive, .unsubscribe true, .flush 61000]

theorem stored_rows_exact_steady :
    ∃ s, run (step ["VIX"]) start steadyStream = some s ∧
      (∀ row, s.world.table.lookup ("VIX", 0) = some row →
        RowOfTicks row (ticksOf ["VIX"] ("VIX", 0) (emitted steadyStream))) := by
  obtain ⟨s, reached⟩ : ∃ s, run (step ["VIX"]) start steadyStream = some s :=
    Option.isSome_iff_exists.mp (by decide +kernel)
  have guarded : Guarded (step ["VIX"]) (InTime ["VIX"]) start steadyStream := by
    have wholeTick (slot : BarKey) (tick : Tick) (found : tickFor ["VIX"] slot (vix 20 10000) = some tick) :
        Storable tick := by
      obtain ⟨read, same⟩ := Option.bind_eq_some_iff.mp (Option.ite_none_right_eq_some.mp found).2
      obtain rfl : read = tick := Option.some.inj (Option.ite_none_right_eq_some.mp same.2).2
      obtain rfl : (⟨0, 20, none⟩ : Tick) = read := Option.some.inj same.1
      exact ⟨by decide +kernel, fun q sized => by cases sized⟩
    refine ⟨fun slot tick found => ⟨rfl, AList.notMem_empty _, wholeTick slot tick found⟩, fun t taken => ?_⟩
    cases taken
    refine ⟨trivial, fun t taken => ?_⟩
    cases taken
    refine ⟨trivial, fun t taken => ?_⟩
    cases taken
    exact ⟨fun slot _ _ => rfl, fun _ _ => trivial⟩
  exact ⟨s, reached, (stored_rows_exact guarded reached ("VIX", 0)).1⟩

def cutStream : List Action :=
  [.emit (vix 20 10000), .receive, .unsubscribe true, .flush 20000, .emit (vix 25 30000), .subscribe,
    .emit (vix 21 50000), .receive, .unsubscribe true, .flush 61000]

theorem cutStream_row_wrong :
    ¬ ∀ (tickers : List String) (actions : List Action) (s : TradeStream),
      (((emitted actions).filterMap TradeEvent.time).Pairwise (· ≤ ·)) →
      run (step tickers) start actions = some s → ∀ slot row, s.world.table.lookup slot = some row →
        RowOfTicks row (ticksOf tickers slot (emitted actions)) := by
  intro exact_
  obtain ⟨s, reached⟩ : ∃ s, run (step ["VIX"]) start cutStream = some s :=
    Option.isSome_iff_exists.mp (by decide +kernel)
  have high : ((run (step ["VIX"]) start cutStream).bind fun s => s.world.table.lookup ("VIX", 0)) =
      some { opening := some (.val 20), high := some (.val 21), low := some (.val 20), close := some (.val 21) } := by
    decide +kernel
  rw [reached, Option.bind_some] at high
  obtain ⟨-, wrong, -⟩ := exact_ ["VIX"] cutStream s (by decide +kernel) reached ("VIX", 0) _ high
  revert wrong
  decide +kernel

end OptionsProof.TradeStream
