import OptionsData.Ingestion.Pipeline

namespace OptionsProof.Pipeline

open Kit OptionsModel OptionsModel.Pipeline

def quoteMark (bidPrice askPrice : Option Number) : Option ℚ :=
  match mark (getAttrAny [bidPrice]) (getAttrAny [askPrice]) with
  | some (.val q) => some q
  | _ => none

/-- The mark an event adds to a minute of the instrument that streams under a feed symbol. -/
def usableMark (feed : String) (minute : ℤ) : Event → Option ℚ
  | .quote (some symbol) bidPrice askPrice now =>
    if symbol ≠ "" ∧ symbol = feed ∧ minuteEpoch now = minute then quoteMark bidPrice askPrice else none
  | _ => none

def marks (feed : String) (minute : ℤ) (events : List Event) : List ℚ :=
  events.filterMap (usableMark feed minute)

def ClockOrdered (events : List Event) : Prop :=
  (events.filterMap Event.reading).Pairwise (· ≤ ·)

instance (events : List Event) : Decidable (ClockOrdered events) :=
  inferInstanceAs (Decidable ((events.filterMap Event.reading).Pairwise (· ≤ ·)))

def isForeign : Event → Bool
  | .foreign _ _ => true
  | _ => false

/-- Where the data of one slot of an underlying is: at most one of the three is filled. -/
structure Place where
  accumulating : Option Bucket
  inFlight : Option Bucket
  stored : Option UnderlyingBar1m

def place (s : Pipeline) (slot : String × ℤ) : Place :=
  ⟨s.underlyingBars.buckets.lookup slot, Dict.firstRow s.inFlight slot,
    s.underlyingTable.lookup (barKey slot)⟩

theorem underlyingRows_first (ready : Popped) (slot : String × ℤ) :
    Dict.firstRow (underlyingRows ready) (barKey slot) = (Dict.firstRow ready slot).map underlyingRow := by
  induction ready with
  | nil => rfl
  | cons popped ready ih =>
    rw [underlyingRows, List.map_cons, ← underlyingRows, Dict.firstRow_cons, Dict.firstRow_cons, ih]
    by_cases same : slot = popped.1
    · simp [same]
    · have other : barKey slot ≠ barKey popped.1 := fun equal => same (barKey_injective equal)
      simp [same, other]

inductive Moves (s : Pipeline) (slot : String × ℤ) (e : Event) : Place → Prop where
  | kept (other : ∀ feed, s.streamerToTicker.lookup feed = some slot.1 → usableMark feed slot.2 e = none) :
      Moves s slot e (place s slot)
  | marked (feed : String) (q : ℚ) (bid ask : Option Number) (routed : s.streamerToTicker.lookup feed = some slot.1)
      (usable : usableMark feed slot.2 e = some q) :
      Moves s slot e { place s slot with
        accumulating := some (((place s slot).accumulating.getD {}).updatePrice (.val q) bid ask) }
  | popped (now : ℤ) (event : e = .beginFlush now) (idle : s.flush = .idle)
      (ready : s.underlyingBars.isReady now slot = true) :
      Moves s slot e ⟨none, (place s slot).accumulating, (place s slot).stored⟩
  | written (event : e = .endUnderlyingWrite true) :
      Moves s slot e ⟨(place s slot).accumulating, none,
        (place s slot).stored.or ((place s slot).inFlight.map underlyingRow)⟩
  | restored (event : e = .endUnderlyingWrite false) :
      Moves s slot e ⟨(place s slot).inFlight.elim (place s slot).accumulating fun b =>
        some ((place s slot).accumulating.elim b fun existing => existing.mergeOlder b),
        none, (place s slot).stored⟩

theorem place_onQuote (s : Pipeline) (slot : String × ℤ) (ticker : String) (bid ask : Option Number)
    (now : ℤ) (counted : ℕ) :
    place { s with
      underlyingQuoteEvents := counted
      underlyingBars := s.underlyingBars.onQuote ticker bid ask now } slot =
      match mark bid ask with
      | none => place s slot
      | some m =>
        if slot = (ticker, minuteEpoch now) then
          { place s slot with
            accumulating := some (((place s slot).accumulating.getD {}).updatePrice m bid ask) }
        else place s slot := by
  simp only [place, BarAggregator.onQuote_lookup, inFlight]
  cases mark bid ask with
  | none => rfl
  | some m => by_cases here : slot = (ticker, minuteEpoch now) <;> simp [here]

theorem onQuote_moves (s : Pipeline) (slot : String × ℤ) (symbol : Option String)
    (bidPrice askPrice : Option Number) (now : ℤ) :
    Moves s slot (.quote symbol bidPrice askPrice now) (place (s.onQuote symbol bidPrice askPrice now) slot) := by
  unfold Pipeline.onQuote
  split
  · exact .kept fun _ _ => rfl
  · exact .kept fun _ _ => by simp [usableMark]
  · next symbol named =>
    have nonempty : symbol ≠ "" := fun empty => named (by rw [empty])
    dsimp only
    split
    · next ticker routed =>
      rw [place_onQuote]
      cases marked : mark (getAttrAny [bidPrice]) (getAttrAny [askPrice]) with
      | none => exact .kept fun feed _ => by simp [usableMark, quoteMark, marked]
      | some m =>
        obtain ⟨q, rfl⟩ := mark_val marked
        dsimp only
        split
        · next here =>
          subst here
          exact .marked symbol q _ _ routed (by simp [usableMark, quoteMark, marked, nonempty])
        · next elsewhere =>
          refine .kept fun feed found => ?_
          have other : ¬ (symbol = feed ∧ minuteEpoch now = slot.2) := by
            intro premise
            rcases premise with ⟨rfl, minute⟩
            rw [routed] at found
            exact elsewhere (Prod.ext (Option.some.inj found).symm minute.symm)
          simp only [usableMark, nonempty, other, ne_eq, not_false_eq_true, and_false, if_false]
    · next unrouted =>
      refine .kept fun feed found => ?_
      have other : symbol ≠ feed := by
        intro same
        subst same
        rw [unrouted] at found
        cases found
      simp [usableMark, other]

theorem onOptionGreeks_place (s : Pipeline) (slot : String × ℤ) (symbol : Option String)
    (delta gamma theta vega rho volatility : Option Number) (now : ℤ) :
    place (s.onOptionGreeks symbol delta gamma theta vega rho volatility now) slot = place s slot := by
  unfold Pipeline.onOptionGreeks
  split <;> rfl

theorem beginFlush_place (s : Pipeline) (slot : String × ℤ) (now : ℤ) (idle : s.flush = .idle) :
    place (s.beginFlush now) slot =
      if s.underlyingBars.isReady now slot then ⟨none, (place s slot).accumulating, (place s slot).stored⟩
      else place s slot := by
  have nothing : Dict.firstRow s.inFlight slot = none := by simp [inFlight, idle]
  simp only [place, Pipeline.beginFlush, inFlight, BarAggregator.popReady_rest,
    BarAggregator.popReady_first]
  split
  · rfl
  · simpa [inFlight] using nothing.symm

theorem endUnderlyingWrite_moves (s : Pipeline) (slot : String × ℤ) (succeeds : Bool) (ready : Popped)
    (flush : s.flush = .underlyings ready) (unique : (s.inFlight.map Prod.fst).Nodup) :
    Moves s slot (.endUnderlyingWrite succeeds) (place (s.endUnderlyingWrite ready succeeds) slot) := by
  have flying : s.inFlight = ready := by rw [inFlight, flush]
  rw [flying] at unique
  cases succeeds with
  | true =>
    have moved : Moves s slot (.endUnderlyingWrite true) _ := .written rfl
    simpa [place, Pipeline.endUnderlyingWrite, inFlight, flush, Dict.lookup_insertAll,
      underlyingRows_first] using moved
  | false =>
    have moved : Moves s slot (.endUnderlyingWrite false) _ := .restored rfl
    simpa [place, Pipeline.endUnderlyingWrite, inFlight, flush,
      BarAggregator.restore_lookup _ unique] using moved

theorem step_moves {s t : Pipeline} {e : Event} (taken : step s e = some t)
    (unique : (s.inFlight.map Prod.fst).Nodup) (alone : isForeign e = false) (slot : String × ℤ) :
    Moves s slot e (place t slot) := by
  have unmoved (unmarked : ∀ feed, usableMark feed slot.2 e = none) (same : place t slot = place s slot) :
      Moves s slot e (place t slot) := same ▸ .kept fun feed _ => unmarked feed
  cases e with
  | quote symbol bidPrice askPrice now =>
    cases taken
    exact onQuote_moves s slot symbol bidPrice askPrice now
  | greeks symbol delta gamma theta vega rho volatility now =>
    cases taken
    exact unmoved (fun _ => rfl) (onOptionGreeks_place ..)
  | refresh tracked =>
    cases taken
    exact unmoved (fun _ => rfl) rfl
  | foreign options underlyings => cases alone
  | beginFlush now =>
    obtain ⟨idle, rfl⟩ := beginFlush_taken.mp taken
    have placed := beginFlush_place s slot now idle
    split at placed
    · next ready =>
      rw [placed]
      exact .popped now rfl idle ready
    · exact unmoved (fun _ => rfl) placed
  | endOptionWrite succeeds =>
    obtain ⟨ready, rows, underlyings, flush, -, rfl⟩ := endOptionWrite_taken.mp taken
    apply unmoved fun _ => rfl
    cases succeeds <;> simp [place, Pipeline.endOptionWrite, inFlight, flush]
  | endUnderlyingWrite succeeds =>
    obtain ⟨ready, flush, -, rfl⟩ := endUnderlyingWrite_taken.mp taken
    exact endUnderlyingWrite_moves s slot succeeds ready flush unique

def Elapsed (readings : List ℤ) (minute : ℤ) : Prop :=
  ∃ t ∈ readings, (minute + 60) * 1000000 + 5000000 ≤ t

inductive Located (readings : List ℤ) (minute : ℤ) : List ℚ → Place → Prop where
  | unseen : Located readings minute [] ⟨none, none, none⟩
  | accumulating {ms : List ℚ} {o : Ohlc ℚ} {b : Bucket} (summary : Ohlc.summary ms = some o)
      (shows : b.Shows o) : Located readings minute ms ⟨some b, none, none⟩
  | inFlight {ms : List ℚ} {o : Ohlc ℚ} {b : Bucket} (summary : Ohlc.summary ms = some o)
      (shows : b.Shows o) (elapsed : Elapsed readings minute) : Located readings minute ms ⟨none, some b, none⟩
  | stored {ms : List ℚ} {o : Ohlc ℚ} {b : Bucket} (summary : Ohlc.summary ms = some o)
      (shows : b.Shows o) (elapsed : Elapsed readings minute) :
      Located readings minute ms ⟨none, none, some (underlyingRow b)⟩

theorem Elapsed.later {readings more : List ℤ} {minute : ℤ} (elapsed : Elapsed readings minute) :
    Elapsed (readings ++ more) minute := by
  rcases elapsed with ⟨t, member, bound⟩
  exact ⟨t, List.mem_append_left _ member, bound⟩

theorem Located.later {readings more : List ℤ} {minute : ℤ} {ms : List ℚ} {p : Place}
    (located : Located readings minute ms p) : Located (readings ++ more) minute ms p := by
  cases located with
  | unseen => exact .unseen
  | accumulating summary shows => exact .accumulating summary shows
  | inFlight summary shows elapsed => exact .inFlight summary shows elapsed.later
  | stored summary shows elapsed => exact .stored summary shows elapsed.later

theorem usableMark_not_elapsed {readings : List ℤ} {feed : String} {minute : ℤ} {e : Event} {q : ℚ}
    (usable : usableMark feed minute e = some q) (ordered : ∀ t ∈ readings, ∀ r ∈ e.reading, t ≤ r) :
    ¬ Elapsed readings minute := by
  intro premise
  rcases premise with ⟨t, member, bound⟩
  cases e with
  | quote symbol bidPrice askPrice now =>
    have before := ordered t member now rfl
    cases symbol with
    | none => cases usable
    | some symbol =>
      simp only [usableMark] at usable
      split at usable
      · next here =>
        have minute := here.2.2
        unfold minuteEpoch at minute
        omega
      · cases usable
  | _ => cases usable

theorem Located.marked {readings more : List ℤ} {minute : ℤ} {ms : List ℚ} {p : Place}
    (located : Located readings minute ms p) (open_ : ¬ Elapsed readings minute) (q : ℚ)
    (bid ask : Option Number) :
    Located (readings ++ more) minute (ms ++ [q])
      { p with accumulating := some ((p.accumulating.getD {}).updatePrice (.val q) bid ask) } := by
  cases located with
  | unseen => exact .accumulating (Ohlc.summary_concat [] q) (Bucket.updatePrice_fresh q bid ask)
  | accumulating summary shows =>
    exact .accumulating (by rw [Ohlc.summary_concat, summary]; rfl) (shows.updatePrice q bid ask)
  | inFlight _ _ elapsed => exact absurd elapsed open_
  | stored _ _ elapsed => exact absurd elapsed open_

theorem Located.step {readings : List ℤ} {s : Pipeline} {slot : String × ℤ} {e : Event} {p : Place}
    {feed : String} {ms : List ℚ} (located : Located readings slot.2 ms (place s slot))
    (moves : Moves s slot e p) (routed : ∀ f, s.streamerToTicker.lookup f = some slot.1 ↔ f = feed)
    (grace : s.underlyingBars.flushGrace = 5000000) (ordered : ∀ t ∈ readings, ∀ r ∈ e.reading, t ≤ r) :
    Located (readings ++ e.reading.toList) slot.2 (ms ++ (usableMark feed slot.2 e).toList) p := by
  cases moves with
  | kept other =>
    rw [other feed ((routed feed).mpr rfl)]
    simpa using located.later
  | marked symbol q bid ask found usable =>
    cases (routed symbol).mp found
    rw [usable]
    exact located.marked (usableMark_not_elapsed usable ordered) q bid ask
  | popped now event idle ready =>
    subst event
    have nothing : (place s slot).inFlight = none := by simp [place, Pipeline.inFlight, idle]
    have elapsed : Elapsed (readings ++ [now]) slot.2 := by
      refine ⟨now, by simp, ?_⟩
      simpa [BarAggregator.isReady, grace] using ready
    simp only [Event.reading, usableMark, Option.toList_some, Option.toList_none, List.append_nil]
    generalize place s slot = before at located nothing
    cases located with
    | unseen => exact .unseen
    | accumulating summary shows => exact .inFlight summary shows elapsed
    | inFlight => cases nothing
    | stored summary shows _ => exact .stored summary shows elapsed
  | written event =>
    subst event
    simp only [Event.reading, usableMark, Option.toList_none, List.append_nil]
    generalize place s slot = before at located
    cases located with
    | unseen => exact .unseen
    | accumulating summary shows => exact .accumulating summary shows
    | inFlight summary shows elapsed => exact .stored summary shows elapsed
    | stored summary shows elapsed => exact .stored summary shows elapsed
  | restored event =>
    subst event
    simp only [Event.reading, usableMark, Option.toList_none, List.append_nil]
    generalize place s slot = before at located
    cases located with
    | unseen => exact .unseen
    | accumulating summary shows => exact .accumulating summary shows
    | inFlight summary shows elapsed => exact .accumulating summary shows
    | stored summary shows elapsed => exact .stored summary shows elapsed

structure Sound (route : Dict String String) (s : Pipeline) : Prop where
  route : s.streamerToTicker = route
  grace : s.underlyingBars.flushGrace = 5000000
  unique : (s.inFlight.map Prod.fst).Nodup

theorem Sound.fed {route : Dict String String} {s t : Pipeline} (sound : Sound route s) (fed : Fed s t) :
    Sound route t := by
  have unique := sound.unique
  rw [Pipeline.inFlight, ← fed.flush, ← Pipeline.inFlight] at unique
  exact ⟨fed.route.trans sound.route, fed.underlyings.grace.trans sound.grace, unique⟩

theorem Sound.step {route : Dict String String} {s t : Pipeline} {e : Event} (sound : Sound route s)
    (taken : step s e = some t) : Sound route t := by
  cases e with
  | quote symbol bidPrice askPrice now =>
    cases taken
    exact sound.fed (onQuote_fed s symbol bidPrice askPrice now)
  | greeks symbol delta gamma theta vega rho volatility now =>
    cases taken
    exact sound.fed (onOptionGreeks_fed s symbol delta gamma theta vega rho volatility now)
  | refresh tracked =>
    cases taken
    exact ⟨sound.route, sound.grace, sound.unique⟩
  | foreign options underlyings =>
    cases taken
    exact ⟨sound.route, sound.grace, sound.unique⟩
  | beginFlush now =>
    obtain ⟨-, rfl⟩ := beginFlush_taken.mp taken
    exact ⟨sound.route, sound.grace, BarAggregator.popReady_nodup _ _⟩
  | endOptionWrite succeeds =>
    obtain ⟨ready, rows, underlyings, flush, -, rfl⟩ := endOptionWrite_taken.mp taken
    have unique := sound.unique
    rw [Pipeline.inFlight, flush] at unique
    cases succeeds <;> exact ⟨sound.route, sound.grace, unique⟩
  | endUnderlyingWrite succeeds =>
    obtain ⟨ready, -, -, rfl⟩ := endUnderlyingWrite_taken.mp taken
    cases succeeds with
    | false => exact ⟨sound.route, (BarAggregator.restore_flushGrace ..).trans sound.grace, List.nodup_nil⟩
    | true => exact ⟨sound.route, sound.grace, List.nodup_nil⟩

theorem ClockOrdered.split {past : List Event} {e : Event} (ordered : ClockOrdered (past ++ [e])) :
    ClockOrdered past ∧ ∀ t ∈ past.filterMap Event.reading, ∀ r ∈ e.reading, t ≤ r := by
  unfold ClockOrdered at ordered
  rw [List.filterMap_append, List.pairwise_append] at ordered
  refine ⟨ordered.1, fun t before r reading => ordered.2.2 t before r ?_⟩
  rw [Option.mem_def] at reading
  simp [reading]

/-- After any run each slot's bar, with all the marks received for it, is in exactly one place. -/
theorem run_located {symbols : Dict String String} {ticker feed : String} {events : List Event} {s : Pipeline}
    (routed : ∀ f, (start symbols).streamerToTicker.lookup f = some ticker ↔ f = feed) (minute : ℤ)
    (ordered : ClockOrdered events) (alone : ∀ e ∈ events, isForeign e = false)
    (reached : run step (start symbols) events = some s) :
    Sound (start symbols).streamerToTicker s ∧
      Located (events.filterMap Event.reading) minute (marks feed minute events) (place s (ticker, minute)) := by
  let holds (past : List Event) (u : Pipeline) : Prop := ClockOrdered past → (∀ e ∈ past, isForeign e = false) →
    Sound (start symbols).streamerToTicker u ∧
      Located (past.filterMap Event.reading) minute (marks feed minute past) (place u (ticker, minute))
  have initial : holds [] (start symbols) := fun _ _ => ⟨⟨rfl, rfl, List.nodup_nil⟩, .unseen⟩
  have keep (past : List Event) (u : Pipeline) (e : Event) (t : Pipeline) (before : holds past u)
      (taken : step u e = some t) : holds (past ++ [e]) t := by
    intro ordered alone
    obtain ⟨earlier, later⟩ := ordered.split
    obtain ⟨sound, located⟩ := before earlier fun e member => alone e (List.mem_append_left _ member)
    have moves := step_moves taken sound.unique (alone e (by simp)) (ticker, minute)
    refine ⟨sound.step taken, ?_⟩
    have next := located.step moves (by rw [sound.route]; exact routed) sound.grace later
    rw [marks, List.filterMap_append, List.filterMap_append]
    have single {β : Type} (f : Event → Option β) : [e].filterMap f = (f e).toList := by
      cases h : f e <;> simp [h]
    rw [single, single]
    exact next
  exact run_history initial keep reached ordered alone

theorem step_flush {s t : Pipeline} {e : Event} (taken : step s e = some t) :
    t.flush = s.flush ∧ (∀ succeeds, e ≠ .endOptionWrite succeeds) ∨
      (∃ now, e = .beginFlush now ∧ s.flush = .idle) ∨
      (∃ succeeds ready, e = .endOptionWrite succeeds ∧ s.flush ≠ .idle ∧ t.flush = .underlyings ready) ∨
      ∃ succeeds ready, e = .endUnderlyingWrite succeeds ∧ s.flush = .underlyings ready ∧ t.flush = .idle := by
  cases e with
  | quote symbol bidPrice askPrice now =>
    cases taken
    exact .inl ⟨(onQuote_fed s symbol bidPrice askPrice now).flush, fun _ same => nomatch same⟩
  | greeks symbol delta gamma theta vega rho volatility now =>
    cases taken
    exact .inl ⟨(onOptionGreeks_fed s symbol delta gamma theta vega rho volatility now).flush,
      fun _ same => nomatch same⟩
  | refresh tracked =>
    cases taken
    exact .inl ⟨rfl, fun _ same => nomatch same⟩
  | foreign options underlyings =>
    cases taken
    exact .inl ⟨rfl, fun _ same => nomatch same⟩
  | beginFlush now => exact .inr (.inl ⟨now, rfl, (beginFlush_taken.mp taken).1⟩)
  | endOptionWrite succeeds =>
    obtain ⟨ready, rows, underlyings, flush, -, rfl⟩ := endOptionWrite_taken.mp taken
    refine .inr (.inr (.inl ⟨succeeds, underlyings, rfl, by simp [flush], ?_⟩))
    cases succeeds <;> rfl
  | endUnderlyingWrite succeeds =>
    obtain ⟨ready, flush, -, rfl⟩ := endUnderlyingWrite_taken.mp taken
    refine .inr (.inr (.inr ⟨succeeds, ready, rfl, flush, ?_⟩))
    cases succeeds <;> rfl

theorem flush_busy {u t : Pipeline} {e : Event} (taken : step u e = some t)
    (other : ∀ now, e ≠ .beginFlush now) (busy : t.flush ≠ .idle) : u.flush ≠ .idle := by
  rcases step_flush taken with ⟨same, -⟩ | ⟨now, event, -⟩ | ⟨_, _, -, before, -⟩ | ⟨_, _, -, before, -⟩
  · rwa [← same]
  · exact absurd event (other now)
  · exact before
  · simp [before]

theorem endUnderlyingWrite_idle {u t : Pipeline} {succeeds : Bool}
    (taken : step u (.endUnderlyingWrite succeeds) = some t) : t.flush = .idle := by
  obtain ⟨ready, -, -, rfl⟩ := endUnderlyingWrite_taken.mp taken
  cases succeeds <;> rfl

theorem flush_keeps_popped {route : Dict String String} {s u : Pipeline} {slot : String × ℤ} {now : ℤ}
    {during : List Event} (sound : Sound route s) (elapsed : (slot.2 + 65) * 1000000 ≤ now)
    (popped : (place s slot).accumulating = none) (reached : run step s during = some u)
    (alone : ∀ e ∈ during, isForeign e = false) (only : ∀ e ∈ during, ∀ t, e ≠ .beginFlush t)
    (after : ∀ r ∈ during.filterMap Event.reading, now ≤ r) (busy : u.flush ≠ .idle) :
    (place u slot).accumulating = none := by
  let allowed (e : Event) : Prop := isForeign e = false ∧ (∀ t, e ≠ .beginFlush t) ∧ ∀ r ∈ e.reading, now ≤ r
  let holds (v : Pipeline) : Prop := Sound route v ∧ (v.flush ≠ .idle → (place v slot).accumulating = none)
  have keep (v : Pipeline) (e : Event) (t : Pipeline) (kept : holds v) (free : allowed e)
      (taken : step v e = some t) : holds t := by
    rcases kept with ⟨soundly, empty⟩
    rcases free with ⟨alone, only, after⟩
    refine ⟨soundly.step taken, fun running => ?_⟩
    have before := empty (flush_busy taken only running)
    have moves := step_moves taken soundly.unique alone slot
    have closed : Elapsed [now] slot.2 := ⟨now, by simp, by omega⟩
    obtain ⟨next, reached⟩ : ∃ p, place t slot = p := ⟨_, rfl⟩
    rw [reached] at moves ⊢
    cases moves with
    | kept => exact before
    | marked feed q bid ask routed usable =>
      exact absurd closed (usableMark_not_elapsed usable (by simpa using after))
    | popped => rfl
    | written => exact before
    | restored event =>
      subst event
      exact absurd (endUnderlyingWrite_idle taken) running
  have guarded : Guarded step (fun _ e => allowed e) s during := by
    refine guarded_of_forall (fun e member v => ⟨alone e member, only e member, fun r reading => ?_⟩) s
    exact after r (List.mem_filterMap.mpr ⟨e, member, reading⟩)
  exact (run_guarded_invariant keep ⟨sound, fun _ => popped⟩ guarded reached).2 busy

/-- A price as its `Numeric(12, 4)` column stores it. -/
def priceColumn (q : ℚ) : Number := .val (toScale 4 q)

def RowOf (row : UnderlyingBar1m) (ms : List ℚ) : Prop :=
  row.opening = ms.head?.map priceColumn ∧ row.high = ms.max?.map priceColumn ∧
    row.low = ms.min?.map priceColumn ∧ row.close = ms.getLast?.map priceColumn

theorem rowOf_shows {ms : List ℚ} {o : Ohlc ℚ} {b : Bucket} (summary : Ohlc.summary ms = some o)
    (shows : b.Shows o) : RowOf (underlyingRow b) ms := by
  rcases shows with ⟨opening, high, low, close⟩
  obtain ⟨first, greatest, least, last⟩ := Ohlc.summary_fields ms
  rw [summary, Option.map_some] at first greatest least last
  simp [RowOf, underlyingRow, opening, high, low, close, ← first, ← greatest, ← least, ← last, Number.numeric,
    priceColumn]

theorem route_iff {symbols : Dict String String} (distinct : (symbols.items.map Prod.snd).Nodup)
    {ticker feed : String} (configured : symbols.lookup ticker = some feed) (f : String) :
    (start symbols).streamerToTicker.lookup f = some ticker ↔ f = feed := by
  have unique : ((symbols.items.map fun item => (item.2, item.1)).map Prod.fst).Nodup := by
    rw [List.map_map]
    exact distinct
  have listed : (f, ticker) ∈ (symbols.items.map fun item => (item.2, item.1)) ↔ (ticker, f) ∈ symbols.items := by
    simp
  rw [start, Dict.lookup_assign _ unique, AList.lookup_empty, Option.or_none, Dict.firstRow_iff unique,
    listed, Dict.mem_items, configured, Option.some_inj, eq_comm]

def forgetOptionOutcome : Event → Event
  | .endOptionWrite _ => .endOptionWrite true
  | e => e

def underlyingFlush : Flush → Flush
  | .options _ _ underlyings => .options [] [] underlyings
  | other => other

def underlyingView (s : Pipeline) : Pipeline where
  underlyingBars := s.underlyingBars
  streamerToTicker := s.streamerToTicker
  underlyingTable := s.underlyingTable
  underlyingQuoteEvents := s.underlyingQuoteEvents
  flush := underlyingFlush s.flush

theorem underlyingView_idle {s s' : Pipeline} (same : underlyingView s = underlyingView s')
    (idle : s.flush = .idle) : s'.flush = .idle := by
  have flush := congrArg Pipeline.flush same
  cases flush' : s'.flush <;> simp [underlyingView, underlyingFlush, idle, flush'] at flush ⊢

theorem underlyingView_options {s s' : Pipeline} (same : underlyingView s = underlyingView s')
    {ready : Popped} {rows : List (BarKey × OptionBar1m)} {underlyings : Popped}
    (writing : s.flush = .options ready rows underlyings) :
    ∃ ready' rows', s'.flush = .options ready' rows' underlyings := by
  have flush := congrArg Pipeline.flush same
  cases flush' : s'.flush <;> simp [underlyingView, underlyingFlush, writing, flush'] at flush ⊢
  exact flush.symm

theorem underlyingView_underlyings {s s' : Pipeline} (same : underlyingView s = underlyingView s')
    {ready : Popped} (writing : s.flush = .underlyings ready) : s'.flush = .underlyings ready := by
  have flush := congrArg Pipeline.flush same
  cases flush' : s'.flush <;> simp [underlyingView, underlyingFlush, writing, flush'] at flush ⊢
  exact flush.symm

theorem underlyingView_idem (s : Pipeline) : underlyingView (underlyingView s) = underlyingView s := by
  cases flush : s.flush <;> simp [underlyingView, underlyingFlush, flush]

theorem onQuote_underlyingView (s : Pipeline) (symbol : Option String) (bidPrice askPrice : Option Number)
    (now : ℤ) :
    underlyingView (s.onQuote symbol bidPrice askPrice now) =
      underlyingView ((underlyingView s).onQuote symbol bidPrice askPrice now) := by
  unfold Pipeline.onQuote
  split
  · exact (underlyingView_idem s).symm
  · exact (underlyingView_idem s).symm
  · next symbol named =>
    have flush := congrArg Pipeline.flush (underlyingView_idem s)
    cases routed : s.streamerToTicker.lookup symbol <;> simpa [underlyingView, routed] using flush.symm

theorem onOptionGreeks_underlyingView (s : Pipeline) (symbol : Option String)
    (delta gamma theta vega rho volatility : Option Number) (now : ℤ) :
    underlyingView (s.onOptionGreeks symbol delta gamma theta vega rho volatility now) = underlyingView s := by
  unfold Pipeline.onOptionGreeks
  split <;> rfl

theorem step_underlyingView {s s' t : Pipeline} {e : Event} (same : underlyingView s = underlyingView s')
    (taken : step s e = some t) :
    ∃ t', step s' (forgetOptionOutcome e) = some t' ∧ underlyingView t = underlyingView t' := by
  cases e with
  | quote symbol bidPrice askPrice now =>
    cases taken
    refine ⟨_, rfl, ?_⟩
    rw [onQuote_underlyingView s, onQuote_underlyingView s', same]
  | greeks symbol delta gamma theta vega rho volatility now =>
    cases taken
    refine ⟨_, rfl, ?_⟩
    rw [onOptionGreeks_underlyingView, onOptionGreeks_underlyingView, same]
  | refresh tracked =>
    cases taken
    exact ⟨_, rfl, same⟩
  | foreign options underlyings =>
    cases taken
    refine ⟨_, rfl, ?_⟩
    simp only [underlyingView, Pipeline.mk.injEq] at same ⊢
    simp [same]
  | beginFlush now =>
    obtain ⟨idle, rfl⟩ := beginFlush_taken.mp taken
    refine ⟨_, beginFlush_taken.mpr ⟨underlyingView_idle same idle, rfl⟩, ?_⟩
    simp only [underlyingView, Pipeline.mk.injEq] at same
    simp [underlyingView, underlyingFlush, Pipeline.beginFlush, same]
  | endOptionWrite succeeds =>
    obtain ⟨ready, rows, underlyings, flush, -, rfl⟩ := endOptionWrite_taken.mp taken
    obtain ⟨ready', rows', flush'⟩ := underlyingView_options same flush
    refine ⟨_, endOptionWrite_taken.mpr ⟨ready', rows', underlyings, flush', by simp, rfl⟩, ?_⟩
    simp only [underlyingView, Pipeline.mk.injEq] at same
    cases succeeds <;> simp [underlyingView, Pipeline.endOptionWrite, same]
  | endUnderlyingWrite succeeds =>
    obtain ⟨ready, flush, possible, rfl⟩ := endUnderlyingWrite_taken.mp taken
    refine ⟨_, endUnderlyingWrite_taken.mpr ⟨ready, underlyingView_underlyings same flush, possible, rfl⟩, ?_⟩
    simp only [underlyingView, Pipeline.mk.injEq] at same
    cases succeeds <;> simp [underlyingView, Pipeline.endUnderlyingWrite, same]

theorem ClockOrdered.flush {events during : List Event} {now : ℤ}
    (ordered : ClockOrdered (events ++ .beginFlush now :: during)) :
    ClockOrdered events ∧ ∀ r ∈ during.filterMap Event.reading, now ≤ r := by
  unfold ClockOrdered at ordered
  have reading : Event.reading (.beginFlush now) = some now := rfl
  rw [List.filterMap_append, List.filterMap_cons_some reading, List.pairwise_append, List.pairwise_cons] at ordered
  exact ⟨ordered.1, ordered.2.1.1⟩

theorem marks_flush (feed : String) (minute : ℤ) (events during : List Event) (now : ℤ) :
    marks feed minute (events ++ .beginFlush now :: during) = marks feed minute (events ++ during) := by
  simp [marks, List.filterMap_append, List.filterMap_cons, usableMark]

theorem beginFlush_pops {s : Pipeline} {slot : String × ℤ} {now : ℤ} (idle : s.flush = .idle)
    (grace : s.underlyingBars.flushGrace = 5000000) (elapsed : (slot.2 + 65) * 1000000 ≤ now) :
    (place (s.beginFlush now) slot).accumulating = none := by
  have ready : s.underlyingBars.isReady now slot = true := by
    simp only [BarAggregator.isReady, grace, decide_eq_true_eq]
    omega
  rw [beginFlush_place s slot now idle, if_pos ready]

theorem Located.written {readings : List ℤ} {ms : List ℚ} {u s : Pipeline} {slot : String × ℤ}
    (located : Located readings slot.2 ms (place u slot)) (marked : ms ≠ [])
    (closed : (place u slot).accumulating = none) (taken : Pipeline.step u (.endUnderlyingWrite true) = some s) :
    ∃ row, s.underlyingTable.lookup (barKey slot) = some row ∧ RowOf row ms := by
  obtain ⟨ready, flush, -, rfl⟩ := endUnderlyingWrite_taken.mp taken
  have stored : (u.endUnderlyingWrite ready true).underlyingTable.lookup (barKey slot) =
      (place u slot).stored.or ((place u slot).inFlight.map underlyingRow) := by
    have flying : u.inFlight = ready := by rw [Pipeline.inFlight, flush]
    simp [place, Pipeline.endUnderlyingWrite, flying, Dict.lookup_insertAll, underlyingRows_first]
  rw [stored]
  generalize place u slot = before at located closed
  cases located with
  | unseen => exact absurd rfl marked
  | accumulating => cases closed
  | inFlight summary shows => exact ⟨_, rfl, rowOf_shows summary shows⟩
  | stored summary shows => exact ⟨_, rfl, rowOf_shows summary shows⟩

/-- After a flush whose underlying write succeeds, each elapsed minute that was quoted has exactly one bar, of
all its marks; and what is stored for underlyings is what is stored when no option write ever fails. -/
theorem underlying_bars_correct {symbols : Dict String String} (distinct : (symbols.items.map Prod.snd).Nodup)
    {events during all : List Event} {now : ℤ} {s : Pipeline}
    (flushes : all = events ++ Event.beginFlush now :: during) (ordered : ClockOrdered all)
    (alone : ∀ e ∈ all, isForeign e = false) (single : ∀ e ∈ during, ∀ t, e ≠ .beginFlush t)
    (reached : run step (start symbols) (all ++ [.endUnderlyingWrite true]) = some s) :
    (∀ ticker feed minute, symbols.lookup ticker = some feed → (minute + 65) * 1000000 ≤ now →
      marks feed minute (events ++ during) ≠ [] →
        ∃ row, s.underlyingTable.items.filter (fun item => item.1 = barKey (ticker, minute)) =
            [(barKey (ticker, minute), row)] ∧
          RowOf row (marks feed minute (events ++ during))) ∧
    ∃ t, run step (start symbols) ((all ++ [Event.endUnderlyingWrite true]).map forgetOptionOutcome) = some t ∧
      t.underlyingTable = s.underlyingTable := by
  subst flushes
  constructor
  · intro ticker feed minute configured elapsed quoted
    have routed := route_iff distinct configured
    obtain ⟨u, before, last⟩ := run_concat_some.mp reached
    obtain ⟨first, rest, middle⟩ := run_append_some.mp before
    obtain ⟨flushing, taken, waiting⟩ := run_cons_some.mp middle
    obtain ⟨earlier, after⟩ := ordered.flush
    obtain ⟨sound, -⟩ := run_located routed minute earlier (fun e member => alone e (by simp [member])) rest
    have popped : (place flushing (ticker, minute)).accumulating = none := by
      obtain ⟨idle, rfl⟩ := beginFlush_taken.mp taken
      exact beginFlush_pops idle sound.grace elapsed
    have busy : u.flush ≠ .idle := by
      obtain ⟨ready, flush, -, -⟩ := endUnderlyingWrite_taken.mp last
      simp [flush]
    have closed := flush_keeps_popped (sound.step taken) elapsed popped waiting
      (fun e member => alone e (by simp [member])) single after busy
    obtain ⟨-, located⟩ := run_located routed minute ordered alone before
    rw [marks_flush] at located
    obtain ⟨row, found, rowOf⟩ := located.written quoted closed last
    exact ⟨row, Dict.items_filter_key found, rowOf⟩
  · have simulates (u u' : Pipeline) (e : Event) (v : Pipeline) (same : underlyingView u = underlyingView u')
        (taken : step u e = some v) :
        ∃ v', step u' (forgetOptionOutcome e) = some v' ∧ underlyingView v = underlyingView v' :=
      step_underlyingView same taken
    obtain ⟨t, reached', same⟩ := run_simulation simulates rfl reached
    exact ⟨t, reached', (congrArg Pipeline.underlyingTable same).symm⟩

def retriedFlush : List Event :=
  [.quote (some "feed") (some (.val 10)) (some (.val 12)) 0,
    .quote (some "feed") (some (.val 8)) none 30000000,
    .beginFlush 70000000, .endOptionWrite true, .endUnderlyingWrite false]

theorem underlying_bars_correct_retried :
    ∃ s row, run step (start (Dict.assign ∅ [("SPX", "feed")]))
        (retriedFlush ++ Event.beginFlush 80000000 :: [.endOptionWrite true] ++ [.endUnderlyingWrite true]) = some s ∧
      s.underlyingTable.items.filter (fun item => item.1 = ("SPX", 0)) = [(("SPX", 0), row)] ∧ RowOf row [11, 8] := by
  obtain ⟨s, reached⟩ : ∃ s, run step (start (Dict.assign ∅ [("SPX", "feed")]))
      (retriedFlush ++ Event.beginFlush 80000000 :: [.endOptionWrite true] ++ [.endUnderlyingWrite true]) = some s :=
    Option.isSome_iff_exists.mp (by decide +kernel)
  have received : marks "feed" 0 (retriedFlush ++ [.endOptionWrite true]) = [11, 8] := by decide +kernel
  obtain ⟨stored, -⟩ := underlying_bars_correct (by decide) rfl (by decide) (by decide) (by simp) reached
  obtain ⟨row, only, rowOf⟩ := stored "SPX" "feed" 0 (by decide) (by decide) (by simp [received])
  exact ⟨s, row, reached, only, received ▸ rowOf⟩

def ExactRowOf (row : UnderlyingBar1m) (ms : List ℚ) : Prop :=
  row.opening = ms.head?.map .val ∧ row.high = ms.max?.map .val ∧ row.low = ms.min?.map .val ∧
    row.close = ms.getLast?.map .val

def fineQuote : List Event := [.quote (some "feed") (some (.val (10001 / 10000))) (some (.val (10002 / 10000))) 0]

theorem fine_mark_rounded :
    ¬ ∀ (symbols : Dict String String) (events during : List Event) (now : ℤ) (s : Pipeline),
      (symbols.items.map Prod.snd).Nodup → ClockOrdered (events ++ .beginFlush now :: during) →
      (∀ e ∈ events ++ .beginFlush now :: during, isForeign e = false) →
      (∀ e ∈ during, ∀ t, e ≠ .beginFlush t) →
      run step (start symbols) (events ++ .beginFlush now :: during ++ [.endUnderlyingWrite true]) = some s →
      ∀ ticker feed minute, symbols.lookup ticker = some feed → (minute + 65) * 1000000 ≤ now →
        marks feed minute (events ++ during) ≠ [] →
        ∃ row, s.underlyingTable.lookup (barKey (ticker, minute)) = some row ∧
          ExactRowOf row (marks feed minute (events ++ during)) := by
  intro all
  let symbols : Dict String String := Dict.assign ∅ [("SPX", "feed")]
  obtain ⟨s, reached⟩ : ∃ s, run step (start symbols)
      (fineQuote ++ .beginFlush 70000000 :: [.endOptionWrite true] ++ [.endUnderlyingWrite true]) = some s :=
    Option.isSome_iff_exists.mp (by decide +kernel)
  have stored : (run step (start symbols)
      (fineQuote ++ .beginFlush 70000000 :: [.endOptionWrite true] ++ [.endUnderlyingWrite true])).bind
        (fun s => (s.underlyingTable.lookup ("SPX", 0)).map UnderlyingBar1m.close) =
          some (some (.val (10002 / 10000))) := by decide +kernel
  have received : marks "feed" 0 (fineQuote ++ [.endOptionWrite true]) = [20003 / 20000] := by decide +kernel
  obtain ⟨row, found, -, -, -, close⟩ := all symbols fineQuote [.endOptionWrite true] 70000000 s (by decide)
    (by decide) (by decide) (by simp) reached "SPX" "feed" 0 (by decide) (by decide) (by simp [received])
  have shown : s.underlyingTable.lookup ("SPX", 0) = some row := found
  rw [reached, Option.bind_some, shown, Option.map_some, Option.some_inj, close, received] at stored
  revert stored
  decide +kernel

end OptionsProof.Pipeline
