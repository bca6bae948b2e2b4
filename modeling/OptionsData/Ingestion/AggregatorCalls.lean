import OptionsData.Kit.Run
import OptionsData.Ingestion.BarAggregator

namespace OptionsModel

open Kit

inductive MarketEvent where
  | quote (key : String) (bid ask : Option Number) (receivedAt : ℤ)
  | greeks (key : String) (delta gamma theta vega rho iv : Option Number) (receivedAt : ℤ)
deriving DecidableEq, Repr

namespace BarAggregator

def on (agg : BarAggregator) : MarketEvent → BarAggregator
  | .quote key bid ask receivedAt => agg.onQuote key bid ask receivedAt
  | .greeks key delta gamma theta vega rho iv receivedAt => agg.onGreeks key delta gamma theta vega rho iv receivedAt

def feed (agg : BarAggregator) (events : List MarketEvent) : BarAggregator := events.foldl on agg

end BarAggregator

/-- An aggregator, with every bucket that its `pop_ready` has returned. -/
structure AggregatorCalls where
  agg : BarAggregator := {}
  returned : List ((String × ℤ) × Bucket) := []

namespace AggregatorCalls

inductive Call where
  | event (e : MarketEvent)
  | popReady (now : ℤ)
  | restore (ready : List ((String × ℤ) × Bucket))

/-- What is restored was popped before; a bucket that went on after an earlier restore is the one held. -/
def Restorable (s : AggregatorCalls) (ready : List ((String × ℤ) × Bucket)) : Prop :=
  ∀ popped ∈ ready, popped ∈ s.returned ∨ s.agg.buckets.lookup popped.1 = some popped.2

instance (s : AggregatorCalls) (ready : List ((String × ℤ) × Bucket)) : Decidable (s.Restorable ready) :=
  inferInstanceAs (Decidable (∀ popped ∈ ready, _))

def step (s : AggregatorCalls) : Call → Option AggregatorCalls
  | .event e => some { s with agg := s.agg.on e }
  | .popReady now => some ⟨(s.agg.popReady now).2, s.returned ++ (s.agg.popReady now).1⟩
  | .restore ready => if s.Restorable ready then some { s with agg := s.agg.restore ready } else none

def Everywhere (s : AggregatorCalls) (test : Bucket → Prop) : Prop :=
  (∀ slot b, s.agg.buckets.lookup slot = some b → test b) ∧ ∀ popped ∈ s.returned, test popped.2

end AggregatorCalls

end OptionsModel

namespace OptionsProof.AggregatorCalls

open Kit OptionsModel OptionsModel.AggregatorCalls

def touch (slot : String × ℤ) (held : Option Bucket) : MarketEvent → Option Bucket
  | .quote key bid ask receivedAt => match mark bid ask with
    | none => held
    | some m => if slot = (key, minuteEpoch receivedAt) then some ((held.getD {}).updatePrice m bid ask) else held
  | .greeks key delta gamma theta vega rho iv receivedAt =>
    if slot = (key, minuteEpoch receivedAt) then some ((held.getD {}).updateGreeks delta gamma theta vega rho iv)
    else held

inductive Update (e : MarketEvent) : (Bucket → Bucket) → Prop
  | price (key : String) (bid ask : Option Number) (receivedAt : ℤ) (m : Number)
      (quote : e = .quote key bid ask receivedAt) (marked : mark bid ask = some m) :
      Update e fun b => b.updatePrice m bid ask
  | greeks (delta gamma theta vega rho iv : Option Number) :
      Update e fun b => b.updateGreeks delta gamma theta vega rho iv

theorem touch_cases (slot : String × ℤ) (e : MarketEvent) : (∀ held, touch slot held e = held) ∨
    ∃ update, Update e update ∧ ∀ held, touch slot held e = some (update (held.getD {})) := by
  cases e with
  | quote key bid ask receivedAt =>
    unfold touch
    dsimp only
    cases marked : mark bid ask with
    | none => exact .inl fun _ => rfl
    | some m =>
      by_cases here : slot = (key, minuteEpoch receivedAt)
      · exact .inr ⟨_, .price key bid ask receivedAt m rfl marked, fun held => if_pos here⟩
      · exact .inl fun held => if_neg here
  | greeks key delta gamma theta vega rho iv receivedAt =>
    unfold touch
    dsimp only
    by_cases here : slot = (key, minuteEpoch receivedAt)
    · exact .inr ⟨_, .greeks delta gamma theta vega rho iv, fun held => if_pos here⟩
    · exact .inl fun held => if_neg here

theorem on_lookup (agg : BarAggregator) (e : MarketEvent) (slot : String × ℤ) :
    (agg.on e).buckets.lookup slot = touch slot (agg.buckets.lookup slot) e := by
  cases e with
  | quote key bid ask receivedAt => exact agg.onQuote_lookup key bid ask receivedAt slot
  | greeks key delta gamma theta vega rho iv receivedAt =>
    exact agg.onGreeks_lookup key delta gamma theta vega rho iv receivedAt slot

theorem feed_lookup (agg : BarAggregator) (events : List MarketEvent) (slot : String × ℤ) :
    (agg.feed events).buckets.lookup slot = events.foldl (touch slot) (agg.buckets.lookup slot) := by
  induction events generalizing agg with
  | nil => rfl
  | cons e events ih =>
    rw [List.foldl_cons, ← on_lookup]
    exact ih (agg.on e)

structure Preserved (test : Bucket → Prop) (accepts : Option Number → Option Number → Prop) : Prop where
  fresh : test {}
  price : ∀ {b : Bucket} {m : Number} {bid ask : Option Number}, test b → mark bid ask = some m → accepts bid ask →
    test (b.updatePrice m bid ask)
  greeks : ∀ {b : Bucket} (delta gamma theta vega rho iv : Option Number), test b →
    test (b.updateGreeks delta gamma theta vega rho iv)
  merge : ∀ {b older : Bucket}, test b → test older → test (b.mergeOlder older)

def Quotes (accepts : Option Number → Option Number → Prop) : MarketEvent → Prop
  | .quote _ bid ask _ => accepts bid ask
  | .greeks _ _ _ _ _ _ _ _ => True

section Preserved

variable {test : Bucket → Prop} {accepts : Option Number → Option Number → Prop} {s t : AggregatorCalls}

theorem Preserved.getD (preserved : Preserved test accepts) {held : Option Bucket} (all : ∀ b ∈ held, test b) :
    test (held.getD {}) := by
  cases held with
  | none => exact preserved.fresh
  | some b => exact all b rfl

theorem Preserved.touch (preserved : Preserved test accepts) {held : Option Bucket} (all : ∀ b ∈ held, test b)
    (slot : String × ℤ) {e : MarketEvent} (quotes : Quotes accepts e) : ∀ b ∈ touch slot held e, test b := by
  intro b found
  have fresh := preserved.getD all
  rcases touch_cases slot e with same | ⟨update, updates, touched⟩
  · rw [same] at found
    exact all b found
  · rw [touched] at found
    cases found
    cases updates with
    | price key bid ask receivedAt m quote marked =>
      subst quote
      exact preserved.price fresh marked quotes
    | greeks delta gamma theta vega rho iv => exact preserved.greeks delta gamma theta vega rho iv fresh

theorem Preserved.foldl (preserved : Preserved test accepts) {held : Option Bucket} (all : ∀ b ∈ held, test b)
    (slot : String × ℤ) {events : List MarketEvent} (quotes : ∀ e ∈ events, Quotes accepts e) :
    ∀ b ∈ events.foldl (AggregatorCalls.touch slot) held, test b := by
  induction events generalizing held with
  | nil => exact all
  | cons e events ih =>
    refine ih ?_ fun e' member => quotes e' (List.mem_cons_of_mem e member)
    exact preserved.touch all slot (quotes e List.mem_cons_self)

theorem Preserved.restore (preserved : Preserved test accepts) {agg : BarAggregator}
    {ready : List ((String × ℤ) × Bucket)} (all : ∀ slot b, agg.buckets.lookup slot = some b → test b)
    (popped : ∀ item ∈ ready, test item.2) :
    ∀ slot b, (agg.restore ready).buckets.lookup slot = some b → test b := by
  induction ready generalizing agg with
  | nil => exact all
  | cons item ready ih =>
    refine ih (fun slot b found => ?_) fun item' member => popped item' (List.mem_cons_of_mem item member)
    have older := popped item List.mem_cons_self
    rw [BarAggregator.restoreOne, Dict.lookup_insert] at found
    split at found
    · cases found
      cases held : agg.buckets.lookup item.1 with
      | none => exact older
      | some existing => exact preserved.merge (all item.1 existing held) older
    · exact all slot b found

theorem Preserved.step (preserved : Preserved test accepts) (everywhere : s.Everywhere test) {call : Call}
    (quotes : ∀ e, call = .event e → Quotes accepts e) (taken : step s call = some t) : t.Everywhere test := by
  cases call with
  | event e =>
    cases taken
    refine ⟨fun slot b found => ?_, everywhere.2⟩
    rw [on_lookup] at found
    exact preserved.touch (everywhere.1 slot) slot (quotes e rfl) b found
  | popReady now =>
    cases taken
    refine ⟨fun slot b found => ?_, fun popped member => ?_⟩
    · rw [BarAggregator.popReady_rest] at found
      split at found
      · cases found
      · exact everywhere.1 slot b found
    · rcases List.mem_append.mp member with before | now_
      · exact everywhere.2 popped before
      · exact everywhere.1 popped.1 popped.2 (BarAggregator.mem_popReady.mp now_).1
  | restore ready =>
    obtain ⟨restorable, taken⟩ := Option.ite_none_right_eq_some.mp taken
    cases taken
    refine ⟨preserved.restore everywhere.1 fun popped member => ?_, everywhere.2⟩
    rcases restorable popped member with returned | held
    · exact everywhere.2 popped returned
    · exact everywhere.1 popped.1 popped.2 held

theorem Preserved.run (preserved : Preserved test accepts) {grace : ℤ} {calls : List Call}
    (quotes : ∀ e, .event e ∈ calls → Quotes accepts e)
    (reached : run OptionsModel.AggregatorCalls.step { agg := { flushGrace := grace } } calls = some t) :
    t.Everywhere test := by
  have start : AggregatorCalls.Everywhere { agg := { flushGrace := grace } } test :=
    ⟨fun slot b found => by simp at found, fun popped member => by cases member⟩
  have keep (u : OptionsModel.AggregatorCalls) (call : Call) (v : OptionsModel.AggregatorCalls)
      (everywhere : u.Everywhere test) (allowed : ∀ e, call = .event e → Quotes accepts e)
      (taken : OptionsModel.AggregatorCalls.step u call = some v) : v.Everywhere test :=
    preserved.step everywhere allowed taken
  refine run_guarded_invariant keep start (guarded_of_forall (fun call member _ e same => ?_) _) reached
  subst same
  exact quotes e member

end Preserved

end OptionsProof.AggregatorCalls
