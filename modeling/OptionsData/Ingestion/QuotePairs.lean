import OptionsData.Ingestion.AggregatorCalls

namespace OptionsModel

open Kit

/-- An aggregator, what was last popped from each slot and not put back, and the sides of its last accepted quote. -/
structure QuotedAggregator where
  agg : BarAggregator := {}
  popped : String × ℤ → Option Bucket := fun _ => none
  last : String × ℤ → Option (Option Number × Option Number) := fun _ => none

namespace QuotedAggregator

def noteQuote (last : String × ℤ → Option (Option Number × Option Number)) :
    MarketEvent → String × ℤ → Option (Option Number × Option Number)
  | .quote key bid ask receivedAt =>
    if (mark bid ask).isSome then Function.update last (key, minuteEpoch receivedAt) (some (bid, ask)) else last
  | .greeks _ _ _ _ _ _ _ _ => last

/-- The flush loop puts back what it popped last: the bucket restored was popped before the one held began. -/
def step (s : QuotedAggregator) : AggregatorCalls.Call → Option QuotedAggregator
  | .event e => some { s with agg := s.agg.on e, last := noteQuote s.last e }
  | .popReady now => some { s with
      agg := (s.agg.popReady now).2
      popped := fun slot => (Dict.firstRow (s.agg.popReady now).1 slot).or (s.popped slot) }
  | .restore ready =>
    if (ready.map Prod.fst).Nodup ∧ ∀ item ∈ ready, s.popped item.1 = some item.2 then
      some { s with
        agg := s.agg.restore ready
        popped := fun slot => if (Dict.firstRow ready slot).isSome then none else s.popped slot }
    else none

end QuotedAggregator

end OptionsModel

namespace OptionsProof.QuotePairs

open Kit OptionsModel OptionsModel.QuotedAggregator OptionsProof.AggregatorCalls

variable {s t : QuotedAggregator} {slot : String × ℤ}

def ShowsQuote (b : Bucket) (quote : Option (Option Number × Option Number)) : Prop :=
  b.close.isSome → quote = some (b.bid, b.ask) ∧ b.close = mark b.bid b.ask

def Snapshots (s : QuotedAggregator) : Prop :=
  ∀ slot b, s.agg.buckets.lookup slot = some b → ShowsQuote b (s.last slot)

def Covers (b older : Bucket) : Prop :=
  b.close.isSome → (b.bid = none → older.bid = none) ∧ (b.ask = none → older.ask = none)

instance (b older : Bucket) : Decidable (Covers b older) := inferInstanceAs (Decidable (_ → _))

/-- No restore fills in a side that the last quote did not have. -/
def KeepsPairs (s : QuotedAggregator) : AggregatorCalls.Call → Prop
  | .restore ready => ∀ item ∈ ready, ∀ b ∈ s.agg.buckets.lookup item.1, Covers b item.2
  | _ => True

instance (s : QuotedAggregator) : ∀ call, Decidable (KeepsPairs s call)
  | .restore ready => inferInstanceAs (Decidable (∀ item ∈ ready, ∀ b ∈ s.agg.buckets.lookup item.1, Covers b item.2))
  | .event _ | .popReady _ => .isTrue trivial

def Unpriced (b : Bucket) : Prop := b.bid = none ∧ b.ask = none

structure Place (held popped : Option Bucket) (quote : Option (Option Number × Option Number)) : Prop where
  empty : ∀ b, held = some b ∨ popped = some b → b.close = none → Unpriced b
  waiting : ∀ older, popped = some older → (∀ b, held = some b → b.close = none) → ShowsQuote older quote

def Placed (s : QuotedAggregator) : Prop :=
  ∀ slot, Place (s.agg.buckets.lookup slot) (s.popped slot) (s.last slot)

theorem noteQuote_quote (last : String × ℤ → Option (Option Number × Option Number)) (key : String)
    (bid ask : Option Number) (receivedAt : ℤ) (slot : String × ℤ) :
    noteQuote last (.quote key bid ask receivedAt) slot =
      if (mark bid ask).isSome ∧ slot = (key, minuteEpoch receivedAt) then some (bid, ask) else last slot := by
  show (if (mark bid ask).isSome then Function.update last (key, minuteEpoch receivedAt) (some (bid, ask)) else last)
    slot = _
  by_cases marked : (mark bid ask).isSome
  · rw [if_pos marked, Function.update_apply]
    simp only [marked, true_and]
  · rw [if_neg marked, if_neg fun both => marked both.1]

theorem noteQuote_greeks (last : String × ℤ → Option (Option Number × Option Number)) (key : String)
    (delta gamma theta vega rho iv : Option Number) (receivedAt : ℤ) :
    noteQuote last (.greeks key delta gamma theta vega rho iv receivedAt) = last := rfl

section Event

variable {held popped : Option Bucket} {quote : Option (Option Number × Option Number)}

theorem Place.priced (place : Place held popped quote) (b : Bucket) {m : Number} {bid ask : Option Number}
    (marked : mark bid ask = some m) :
    (∀ b', some (b.updatePrice m bid ask) = some b' → ShowsQuote b' (some (bid, ask))) ∧
      Place (some (b.updatePrice m bid ask)) popped (some (bid, ask)) := by
  refine ⟨fun b' found => ?_, fun b' either unpriced => ?_, fun older _ unpriced => ?_⟩
  · cases found
    exact fun _ => ⟨rfl, marked.symm⟩
  · rcases either with found | waiting
    · cases found
      cases unpriced
    · exact place.empty b' (.inr waiting) unpriced
  · cases unpriced _ rfl

theorem Place.greeked (place : Place held popped quote) (shows : ∀ b, held = some b → ShowsQuote b quote)
    (delta gamma theta vega rho iv : Option Number) :
    (∀ b, some ((held.getD {}).updateGreeks delta gamma theta vega rho iv) = some b → ShowsQuote b quote) ∧
      Place (some ((held.getD {}).updateGreeks delta gamma theta vega rho iv)) popped quote := by
  refine ⟨fun b found => ?_, fun b either unpriced => ?_, fun older waiting empty => ?_⟩
  · cases found
    cases held with
    | none => exact fun priced => by cases priced
    | some old => exact shows old rfl
  · rcases either with found | waiting
    · cases found
      cases held with
      | none => exact ⟨rfl, rfl⟩
      | some old => exact place.empty old (.inl rfl) unpriced
    · exact place.empty b (.inr waiting) unpriced
  · refine place.waiting older waiting fun b found => ?_
    subst found
    exact empty (b.updateGreeks delta gamma theta vega rho iv) rfl

theorem Place.touched {last : String × ℤ → Option (Option Number × Option Number)}
    (place : Place held popped (last slot)) (shows : ∀ b, held = some b → ShowsQuote b (last slot))
    (e : MarketEvent) : (∀ b, touch slot held e = some b → ShowsQuote b (noteQuote last e slot)) ∧
      Place (touch slot held e) popped (noteQuote last e slot) := by
  cases e with
  | quote key bid ask receivedAt =>
    rw [noteQuote_quote]
    unfold touch
    dsimp only
    cases marked : mark bid ask with
    | none => exact ⟨shows, place⟩
    | some m =>
      dsimp only
      by_cases here : slot = (key, minuteEpoch receivedAt)
      · rw [if_pos here, if_pos ⟨rfl, here⟩]
        exact place.priced (held.getD {}) marked
      · rw [if_neg here, if_neg fun both => here both.2]
        exact ⟨shows, place⟩
  | greeks key delta gamma theta vega rho iv receivedAt =>
    rw [noteQuote_greeks]
    unfold touch
    dsimp only
    split
    · exact place.greeked shows delta gamma theta vega rho iv
    · exact ⟨shows, place⟩

end Event

theorem Place.popped {held popped : Option Bucket} {quote : Option (Option Number × Option Number)}
    (place : Place held popped quote) (shows : ∀ b, held = some b → ShowsQuote b quote) :
    Place none (held.or popped) quote := by
  cases held with
  | none => exact place
  | some b =>
    refine ⟨fun b' either unpriced => ?_, fun older found _ => ?_⟩
    · rcases either with wrong | found
      · cases wrong
      · exact place.empty b' (.inl found) unpriced
    · exact shows older found

theorem mergeOlder_close (b older : Bucket) : (b.mergeOlder older).close = b.close.or older.close := rfl

theorem or_eq_left {α : Type} (x y : Option α) : x.or y = x ↔ (x = none → y = none) := by
  cases x <;> simp

theorem merged_shows {b : Bucket} {quote : Option (Option Number × Option Number)} (older : Bucket)
    (shows : ShowsQuote b quote) (priced : b.close.isSome) :
    ShowsQuote (b.mergeOlder older) quote ↔ Covers b older := by
  obtain ⟨rfl, marked⟩ := shows priced
  have close : (b.mergeOlder older).close = b.close := by
    rw [mergeOlder_close, Option.or_of_isSome priced]
  constructor
  · intro merged _
    obtain ⟨same, -⟩ := merged (by rwa [close])
    obtain ⟨bid, ask⟩ := Prod.mk.inj (Option.some.inj same)
    exact ⟨(or_eq_left b.bid older.bid).mp bid.symm, (or_eq_left b.ask older.ask).mp ask.symm⟩
  · intro covers _
    obtain ⟨bid, ask⟩ := covers priced
    have sameBid : (b.mergeOlder older).bid = b.bid := (or_eq_left b.bid older.bid).mpr bid
    have sameAsk : (b.mergeOlder older).ask = b.ask := (or_eq_left b.ask older.ask).mpr ask
    rw [close, sameBid, sameAsk]
    exact ⟨rfl, marked⟩

theorem Place.restored {held : Option Bucket} {older : Bucket} {quote : Option (Option Number × Option Number)}
    (place : Place held (some older) quote) (shows : ∀ b, held = some b → ShowsQuote b quote) :
    (ShowsQuote (held.elim older fun b => b.mergeOlder older) quote ↔ ∀ b ∈ held, Covers b older) ∧
      Place (some (held.elim older fun b => b.mergeOlder older)) none quote := by
  cases held with
  | none =>
    refine ⟨iff_of_true (place.waiting older rfl fun b wrong => by cases wrong) (fun b wrong => by cases wrong), ?_⟩
    refine ⟨fun b either unpriced => ?_, fun _ wrong => by cases wrong⟩
    rcases either with found | wrong
    · cases found
      exact place.empty older (.inr rfl) unpriced
    · cases wrong
  | some b =>
    constructor
    · cases price : b.close with
      | none =>
        -- a bucket of Greeks alone takes the older pair whole
        obtain ⟨noBid, noAsk⟩ := place.empty b (.inl rfl) price
        have waiting := place.waiting older rfl fun b' found => by cases found; exact price
        have same : ShowsQuote (b.mergeOlder older) quote ↔ ShowsQuote older quote := by
          unfold ShowsQuote
          rw [mergeOlder_close, price, Option.none_or]
          simp only [Bucket.mergeOlder, noBid, noAsk, Option.none_or]
        refine iff_of_true (same.mpr waiting) fun b' found priced => ?_
        cases found
        rw [price] at priced
        cases priced
      | some c =>
        have priced : b.close.isSome := by
          rw [price]
          rfl
        have covered := merged_shows older (shows b rfl) priced
        refine covered.trans ⟨fun covers b' found => ?_, fun covers => covers b rfl⟩
        cases found
        exact covers
    · refine ⟨fun merged either unpriced => ?_, fun _ wrong => by cases wrong⟩
      rcases either with found | wrong
      · cases found
        obtain ⟨own, others⟩ := Option.or_eq_none_iff.mp (unpriced : b.close.or older.close = none)
        obtain ⟨noBid, noAsk⟩ := place.empty b (.inl rfl) own
        obtain ⟨olderBid, olderAsk⟩ := place.empty older (.inr rfl) others
        simp [Unpriced, Bucket.mergeOlder, noBid, noAsk, olderBid, olderAsk]
      · cases wrong

theorem placed_restored (placed : Placed s) (snapshots : Snapshots s) {ready : List ((String × ℤ) × Bucket)}
    (unique : (ready.map Prod.fst).Nodup) (listed : ∀ item ∈ ready, s.popped item.1 = some item.2) {older : Bucket}
    (first : Dict.firstRow ready slot = some older) :
    let merged := (s.agg.buckets.lookup slot).elim older fun b => b.mergeOlder older
    (s.agg.restore ready).buckets.lookup slot = some merged ∧
      (ShowsQuote merged (s.last slot) ↔ ∀ b ∈ s.agg.buckets.lookup slot, Covers b older) ∧
      Place (some merged) none (s.last slot) := by
  have place := placed slot
  rw [listed (slot, older) (Dict.mem_of_firstRow first)] at place
  refine ⟨?_, place.restored (snapshots slot)⟩
  rw [BarAggregator.restore_lookup _ unique, first]
  rfl

theorem event_keeps {e : MarketEvent} (placed : Placed s) (snapshots : Snapshots s)
    (taken : step s (.event e) = some t) : Snapshots t ∧ Placed t := by
  cases taken
  have kept (slot : String × ℤ) := (placed slot).touched (snapshots slot) e
  constructor
  · intro slot b found
    rw [on_lookup] at found
    exact (kept slot).1 b found
  · intro slot
    rw [on_lookup]
    exact (kept slot).2

theorem popReady_keeps {now : ℤ} (placed : Placed s) (snapshots : Snapshots s)
    (taken : step s (.popReady now) = some t) : Snapshots t ∧ Placed t := by
  cases taken
  constructor
  · intro slot b found
    rw [BarAggregator.popReady_rest] at found
    split at found
    · cases found
    · exact snapshots slot b found
  · intro slot
    show Place _ ((Dict.firstRow (s.agg.popReady now).1 slot).or (s.popped slot)) (s.last slot)
    rw [BarAggregator.popReady_rest, BarAggregator.popReady_first]
    split
    · exact (placed slot).popped (snapshots slot)
    · exact placed slot

theorem restore_keeps {ready : List ((String × ℤ) × Bucket)} (placed : Placed s) (snapshots : Snapshots s)
    (taken : step s (.restore ready) = some t) : (Snapshots t ↔ KeepsPairs s (.restore ready)) ∧ Placed t := by
  obtain ⟨⟨unique, listed⟩, taken⟩ := Option.ite_none_right_eq_some.mp taken
  cases taken
  have back (slot : String × ℤ) (older : Bucket) (first : Dict.firstRow ready slot = some older) :=
    placed_restored placed snapshots unique listed first
  refine ⟨⟨fun shows item member => ?_, fun covers slot b found => ?_⟩, fun slot => ?_⟩
  · obtain ⟨result, covers, -⟩ := back item.1 item.2 (Dict.firstRow_of_nodup unique member)
    exact covers.mp (shows item.1 _ result)
  · cases first : Dict.firstRow ready slot with
    | none =>
      rw [BarAggregator.restore_lookup _ unique, first] at found
      exact snapshots slot b found
    | some older =>
      obtain ⟨result, kept, -⟩ := back slot older first
      rw [result] at found
      cases found
      exact kept.mpr (covers (slot, older) (Dict.mem_of_firstRow first))
  · show Place _ (if (Dict.firstRow ready slot).isSome then none else s.popped slot) (s.last slot)
    cases first : Dict.firstRow ready slot with
    | none =>
      rw [BarAggregator.restore_lookup _ unique, first]
      exact placed slot
    | some older =>
      obtain ⟨result, -, place⟩ := back slot older first
      rw [result]
      exact place

theorem step_keeps {call : AggregatorCalls.Call} (placed : Placed s) (snapshots : Snapshots s)
    (taken : step s call = some t) : (Snapshots t ↔ KeepsPairs s call) ∧ (Snapshots t → Placed t) := by
  cases call with
  | event e =>
    have kept := event_keeps placed snapshots taken
    exact ⟨iff_of_true kept.1 trivial, fun _ => kept.2⟩
  | popReady now =>
    have kept := popReady_keeps placed snapshots taken
    exact ⟨iff_of_true kept.1 trivial, fun _ => kept.2⟩
  | restore ready =>
    have kept := restore_keeps placed snapshots taken
    exact ⟨kept.1, fun _ => kept.2⟩

theorem start_placed (grace : ℤ) : Placed { agg := { flushGrace := grace } } := by
  intro slot
  refine ⟨fun b either => ?_, fun older wrong => by cases wrong⟩
  rcases either with wrong | wrong <;> cases wrong

/-- Every bucket with a price has the sides of the last accepted quote of its minute, and their mark as its close, in
all states of a run exactly if no merge fills in a side that the newer bucket lacks. -/
theorem quotePairs_iff {grace : ℤ} {calls : List AggregatorCalls.Call}
    (reached : run step { agg := { flushGrace := grace } } calls = some t) :
    (∀ past rest u, calls = past ++ rest → run step { agg := { flushGrace := grace } } past = some u → Snapshots u) ↔
      Guarded step KeepsPairs { agg := { flushGrace := grace } } calls :=
  run_always_iff (fun _ _ _ => step_keeps) (start_placed grace) (fun _ _ wrong => by cases wrong) reached

def lateAsk (bid : Option Number) (price : ℚ) : List AggregatorCalls.Call :=
  [.event (.quote "C" bid (some (.val 6)) 0), .popReady 65000000, .event (.quote "C" none (some (.val 5)) 30000000),
    .restore [(("C", 0), Bucket.updatePrice {} (.val price) bid (some (.val 6)))]]

theorem lateAsk_mixed :
    ¬ ∀ (calls : List AggregatorCalls.Call) (t : QuotedAggregator), run step {} calls = some t → Snapshots t := by
  intro shows
  obtain ⟨t, reached⟩ : ∃ t, run step {} (lateAsk (some (.val 4)) 5) = some t :=
    Option.isSome_iff_exists.mp (by decide +kernel)
  have mixed : (run step {} (lateAsk (some (.val 4)) 5)).map (fun t => (t.agg.buckets.lookup ("C", 0)).map fun b =>
      (b.close, b.bid, b.ask)) = some (some (some (.val 5), some (.val 4), some (.val 5))) := by decide +kernel
  rw [reached, Option.map_some, Option.some_inj] at mixed
  obtain ⟨b, held, same⟩ := Option.map_eq_some_iff.mp mixed
  obtain ⟨close, bid, ask⟩ : b.close = _ ∧ b.bid = _ ∧ b.ask = _ := by simpa using same
  have marked := (shows _ t reached ("C", 0) b held (by rw [close]; rfl)).2
  rw [close, bid, ask] at marked
  revert marked
  decide +kernel

theorem quotePairs_iff_oneSided :
    ∃ t, run step { agg := { flushGrace := 5000000 } } (lateAsk none 6) = some t ∧ Snapshots t := by
  obtain ⟨t, reached⟩ : ∃ t, run step { agg := { flushGrace := 5000000 } } (lateAsk none 6) = some t :=
    Option.isSome_iff_exists.mp (by decide +kernel)
  have meets : Guarded step KeepsPairs { agg := { flushGrace := 5000000 } } (lateAsk none 6) := by
    decide +kernel
  exact ⟨t, reached, (quotePairs_iff reached).mpr meets (lateAsk none 6) [] t (List.append_nil _).symm reached⟩

end OptionsProof.QuotePairs
