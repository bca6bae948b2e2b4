import OptionsData.Ingestion.AggregatorCalls

namespace OptionsModel

/-- A `pop_ready`, the events before it, and those that arrive until the failed write puts its buckets back. -/
structure FailedFlush where
  before : List MarketEvent
  now : ℤ
  during : List MarketEvent

namespace BarAggregator

def failedFlush (agg : BarAggregator) (cycle : FailedFlush) : BarAggregator :=
  let popped := (agg.feed cycle.before).popReady cycle.now
  (popped.2.feed cycle.during).restore popped.1

end BarAggregator

end OptionsModel

namespace OptionsProof.FailedFlushes

open Kit OptionsModel OptionsModel.AggregatorCalls OptionsProof.AggregatorCalls

variable {b b' older : Bucket} {agg agg' : BarAggregator}

def withoutQuote (b : Bucket) : Bucket := { b with bid := none, ask := none }

def SameBars (agg agg' : BarAggregator) : Prop :=
  ∀ slot, (agg.buckets.lookup slot).map withoutQuote = (agg'.buckets.lookup slot).map withoutQuote

structure WellFormed (b : Bucket) : Prop where
  high : b.high ≠ some .nan
  low : b.low ≠ some .nan
  greeks : b.hasGreeks = false → b.delta = none ∧ b.gamma = none ∧ b.theta = none ∧ b.vega = none ∧ b.rho = none ∧
    b.iv = none

theorem number_cases {x : Option Number} (number : x ≠ some .nan) : x = none ∨ ∃ q, x = some (.val q) := by
  rcases x with - | - | q
  · exact .inl rfl
  · exact absurd rfl number
  · exact .inr ⟨q, rfl⟩

theorem updatePrice_wellFormed {m : Number} {bid ask : Option Number} (formed : WellFormed b)
    (marked : mark bid ask = some m) : WellFormed (b.updatePrice m bid ask) := by
  obtain ⟨q, rfl⟩ := mark_val marked
  refine ⟨?_, ?_, formed.greeks⟩
  · rcases number_cases formed.high with high | ⟨x, high⟩ <;> simp [Bucket.updatePrice, high]
  · rcases number_cases formed.low with low | ⟨x, low⟩ <;> simp [Bucket.updatePrice, low]

theorem mergeOlder_wellFormed (formed : WellFormed b) (before : WellFormed older) :
    WellFormed (b.mergeOlder older) := by
  refine ⟨?_, ?_, fun neither => ?_⟩
  · rcases number_cases formed.high with high | ⟨x, high⟩ <;>
      rcases number_cases before.high with old | ⟨y, old⟩ <;> simp [Bucket.mergeOlder, high, old]
  · rcases number_cases formed.low with low | ⟨x, low⟩ <;>
      rcases number_cases before.low with old | ⟨y, old⟩ <;> simp [Bucket.mergeOlder, low, old]
  · obtain ⟨own, others⟩ := Bool.or_eq_false_iff.mp neither
    simpa [Bucket.mergeOlder, own, others] using formed.greeks own

theorem wellFormed_preserved : Preserved WellFormed fun _ _ => True where
  fresh := ⟨nofun, nofun, fun _ => ⟨rfl, rfl, rfl, rfl, rfl, rfl⟩⟩
  price formed marked _ := updatePrice_wellFormed formed marked
  greeks _ _ _ _ _ _ formed := ⟨formed.high, formed.low, nofun⟩
  merge := mergeOlder_wellFormed

theorem mergeOlder_fresh (before : WellFormed older) : Bucket.mergeOlder {} older = older := by
  have kept := before.greeks
  rcases older with ⟨opening, high, low, close, bid, ask, delta, gamma, theta, vega, rho, iv, hasGreeks⟩
  cases hasGreeks with
  | true => cases high <;> cases low <;> simp [Bucket.mergeOlder]
  | false =>
    obtain ⟨rfl, rfl, rfl, rfl, rfl, rfl⟩ := kept rfl
    cases high <;> cases low <;> simp [Bucket.mergeOlder]

theorem mergeOlder_updatePrice {m : Number} {bid ask : Option Number} (formed : WellFormed b)
    (before : WellFormed older) (marked : mark bid ask = some m) :
    withoutQuote ((b.updatePrice m bid ask).mergeOlder older) =
      withoutQuote ((b.mergeOlder older).updatePrice m bid ask) := by
  obtain ⟨q, rfl⟩ := mark_val marked
  have high : ((b.updatePrice (.val q) bid ask).mergeOlder older).high =
      ((b.mergeOlder older).updatePrice (.val q) bid ask).high := by
    rcases number_cases formed.high with own | ⟨x, own⟩ <;> rcases number_cases before.high with old | ⟨y, old⟩ <;>
      simp [Bucket.updatePrice, Bucket.mergeOlder, own, old, max_comm, max_left_comm]
  have low : ((b.updatePrice (.val q) bid ask).mergeOlder older).low =
      ((b.mergeOlder older).updatePrice (.val q) bid ask).low := by
    rcases number_cases formed.low with own | ⟨x, own⟩ <;> rcases number_cases before.low with old | ⟨y, old⟩ <;>
      simp [Bucket.updatePrice, Bucket.mergeOlder, own, old, min_comm, min_left_comm]
  have opening : ((b.updatePrice (.val q) bid ask).mergeOlder older).opening =
      ((b.mergeOlder older).updatePrice (.val q) bid ask).opening := by
    cases old : older.opening <;> simp [Bucket.updatePrice, Bucket.mergeOlder, old]
  rw [withoutQuote, withoutQuote, opening, high, low]
  rfl

theorem mergeOlder_updateGreeks (b older : Bucket) (delta gamma theta vega rho iv : Option Number) :
    (b.updateGreeks delta gamma theta vega rho iv).mergeOlder older =
      (b.mergeOlder older).updateGreeks delta gamma theta vega rho iv := by
  simp [Bucket.mergeOlder, Bucket.updateGreeks]

theorem updatePrice_congr (same : withoutQuote b = withoutQuote b') (m : Number) (bid ask : Option Number) :
    withoutQuote (b.updatePrice m bid ask) = withoutQuote (b'.updatePrice m bid ask) :=
  congrArg (fun shown => withoutQuote (shown.updatePrice m bid ask)) same

theorem updateGreeks_congr (same : withoutQuote b = withoutQuote b') (delta gamma theta vega rho iv : Option Number) :
    withoutQuote (b.updateGreeks delta gamma theta vega rho iv) =
      withoutQuote (b'.updateGreeks delta gamma theta vega rho iv) :=
  congrArg (fun shown => shown.updateGreeks delta gamma theta vega rho iv) same

variable {held held' : Option Bucket} {slot : String × ℤ}

theorem getD_congr (same : held.map withoutQuote = held'.map withoutQuote) :
    withoutQuote (held.getD {}) = withoutQuote (held'.getD {}) := by
  cases held <;> cases held'
  · rfl
  · cases same
  · cases same
  · exact Option.some.inj same

theorem touch_congr (same : held.map withoutQuote = held'.map withoutQuote) (e : MarketEvent) :
    (touch slot held e).map withoutQuote = (touch slot held' e).map withoutQuote := by
  rcases touch_cases slot e with kept | ⟨update, updates, touched⟩
  · rw [kept, kept]
    exact same
  · rw [touched, touched]
    have fresh := getD_congr same
    cases updates with
    | price key bid ask receivedAt m quote marked => exact congrArg some (updatePrice_congr fresh m bid ask)
    | greeks delta gamma theta vega rho iv =>
      exact congrArg some (updateGreeks_congr fresh delta gamma theta vega rho iv)

theorem foldl_congr (events : List MarketEvent) (same : held.map withoutQuote = held'.map withoutQuote) :
    (events.foldl (touch slot) held).map withoutQuote = (events.foldl (touch slot) held').map withoutQuote := by
  induction events generalizing held held' with
  | nil => exact same
  | cons e events ih => exact ih (touch_congr same e)

theorem touch_merge (formed : ∀ b ∈ held, WellFormed b) (before : WellFormed older) (e : MarketEvent) :
    some (withoutQuote (((touch slot held e).getD {}).mergeOlder older)) =
      (touch slot (some ((held.getD {}).mergeOlder older)) e).map withoutQuote := by
  rcases touch_cases slot e with kept | ⟨update, updates, touched⟩
  · rw [kept, kept]
    rfl
  · rw [touched, touched]
    have fresh := wellFormed_preserved.getD formed
    cases updates with
    | price key bid ask receivedAt m quote marked =>
      exact congrArg some (mergeOlder_updatePrice fresh before marked)
    | greeks delta gamma theta vega rho iv =>
      exact congrArg (fun b => some (withoutQuote b)) (mergeOlder_updateGreeks _ older delta gamma theta vega rho iv)

theorem quotes_any (e : MarketEvent) : Quotes (fun _ _ => True) e := by
  cases e <;> trivial

theorem foldl_merge (formed : ∀ b ∈ held, WellFormed b) (before : WellFormed older) (events : List MarketEvent) :
    some (withoutQuote (((events.foldl (touch slot) held).getD {}).mergeOlder older)) =
      (events.foldl (touch slot) (some ((held.getD {}).mergeOlder older))).map withoutQuote := by
  induction events generalizing held with
  | nil => rfl
  | cons e events ih =>
    have kept := wellFormed_preserved.touch formed slot (quotes_any e)
    rw [List.foldl_cons, ih kept, List.foldl_cons]
    exact foldl_congr events (touch_merge formed before e)

def Formed (agg : BarAggregator) : Prop := ∀ slot b, agg.buckets.lookup slot = some b → WellFormed b

theorem feed_formed (formed : Formed agg) (events : List MarketEvent) : Formed (agg.feed events) := by
  intro slot b found
  rw [feed_lookup] at found
  exact wellFormed_preserved.foldl (formed slot) slot (fun e _ => quotes_any e) b found

theorem popReady_formed (formed : Formed agg) (now : ℤ) : Formed (agg.popReady now).2 := by
  intro slot b found
  rw [BarAggregator.popReady_rest] at found
  split at found
  · cases found
  · exact formed slot b found

theorem feed_same (events : List MarketEvent) (same : SameBars agg agg') :
    SameBars (agg.feed events) (agg'.feed events) := by
  intro slot
  rw [feed_lookup, feed_lookup]
  exact foldl_congr events (same slot)

theorem feed_append (agg : BarAggregator) (events later : List MarketEvent) :
    agg.feed (events ++ later) = (agg.feed events).feed later := List.foldl_append

theorem restored_same (formed : Formed agg) (now : ℤ) (events : List MarketEvent) :
    SameBars (((agg.popReady now).2.feed events).restore (agg.popReady now).1) (agg.feed events) := by
  intro slot
  rw [BarAggregator.restore_lookup _ (agg.popReady_nodup now), BarAggregator.popReady_first, feed_lookup, feed_lookup,
    BarAggregator.popReady_rest]
  split
  · cases found : agg.buckets.lookup slot with
    | none => rfl
    | some older =>
      have before := formed slot older found
      have merged : some (withoutQuote (((events.foldl (touch slot) none).getD {}).mergeOlder older)) = _ :=
        foldl_merge (by simp) before events
      rw [Option.getD_none, mergeOlder_fresh before] at merged
      rw [← merged, Option.elim_some, Option.map_some]
      cases events.foldl (touch slot) none with
      -- nothing arrived: the popped bucket itself is put back
      | none => rw [Option.getD_none, mergeOlder_fresh before, Option.elim_none]
      | some b => rfl
  · rfl

theorem failedFlush_formed (formed : Formed agg) (cycle : FailedFlush) : Formed (agg.failedFlush cycle) := by
  have before := feed_formed formed cycle.before
  have during := feed_formed (popReady_formed before cycle.now) cycle.during
  refine wellFormed_preserved.restore during fun item member => ?_
  exact before item.1 item.2 (BarAggregator.mem_popReady.mp member).1

theorem failedFlush_same (formed : Formed agg) (cycle : FailedFlush) :
    SameBars (agg.failedFlush cycle) (agg.feed (cycle.before ++ cycle.during)) := by
  rw [feed_append]
  exact restored_same (feed_formed formed cycle.before) cycle.now cycle.during

theorem failedFlushes_same (formed : Formed agg) (cycles : List FailedFlush) :
    SameBars (cycles.foldl BarAggregator.failedFlush agg)
      (agg.feed (cycles.flatMap fun cycle => cycle.before ++ cycle.during)) := by
  induction cycles generalizing agg with
  | nil => exact fun _ => rfl
  | cons cycle cycles ih =>
    intro slot
    rw [List.foldl_cons, List.flatMap_cons, feed_append, ih (failedFlush_formed formed cycle) slot]
    exact feed_same _ (failedFlush_same formed cycle) slot

/-- From any reachable state, a failed flush, or any number of them, leaves the bars that its events alone leave. -/
theorem failedFlushes_invisible {grace : ℤ} {calls : List Call} {s : AggregatorCalls}
    (reached : run step { agg := { flushGrace := grace } } calls = some s) :
    (∀ now events, SameBars (((s.agg.popReady now).2.feed events).restore (s.agg.popReady now).1)
      (s.agg.feed events)) ∧
    ∀ cycles : List FailedFlush, SameBars (cycles.foldl BarAggregator.failedFlush s.agg)
      (s.agg.feed (cycles.flatMap fun cycle => cycle.before ++ cycle.during)) := by
  have formed : Formed s.agg := (wellFormed_preserved.run (fun e _ => quotes_any e) reached).1
  exact ⟨restored_same formed, failedFlushes_same formed⟩

def fallingMinute : List Call :=
  [.event (.quote "SPY" (some (.val 120)) (some (.val 120)) 0),
    .event (.greeks "SPY" (some (.val (1 / 10))) none none none none none 1000000)]

theorem failedFlushes_invisible_falling :
    ∃ s, run step { agg := { flushGrace := 5000000 } } fallingMinute = some s ∧
      SameBars (((s.agg.popReady 200000000).2.feed [.quote "SPY" (some (.val 100)) (some (.val 100)) 0]).restore
        (s.agg.popReady 200000000).1) (s.agg.feed [.quote "SPY" (some (.val 100)) (some (.val 100)) 0]) := by
  obtain ⟨s, reached⟩ : ∃ s, run step { agg := { flushGrace := 5000000 } } fallingMinute = some s :=
    Option.isSome_iff_exists.mp (by decide +kernel)
  exact ⟨s, reached, (failedFlushes_invisible reached).1 200000000 _⟩

end OptionsProof.FailedFlushes
