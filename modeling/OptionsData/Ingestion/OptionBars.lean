import OptionsData.Ingestion.OptionBuckets

namespace OptionsProof.OptionBars

open Kit OptionsModel OptionsModel.Pipeline OptionsProof.Pipeline OptionsProof.OptionBuckets

structure SlotQuote where
  mark : ℚ
  bid : Option Number
  ask : Option Number

structure SlotGreeks where
  delta : Option Number
  gamma : Option Number
  theta : Option Number
  vega : Option Number
  rho : Option Number
  iv : Option Number

def slotQuote (route : Dict String String) (slot : String × ℤ) : Event → Option SlotQuote
  | .quote (some symbol) bidPrice askPrice now =>
    if symbol ≠ "" ∧ route.lookup symbol = none ∧ slot = (symbol, minuteEpoch now) then
      (quoteMark bidPrice askPrice).map fun mark => ⟨mark, getAttrAny [bidPrice], getAttrAny [askPrice]⟩
    else none
  | _ => none

def slotGreeks (slot : String × ℤ) : Event → Option SlotGreeks
  | .greeks (some symbol) delta gamma theta vega rho volatility now =>
    if symbol ≠ "" ∧ slot = (symbol, minuteEpoch now) then
      some ⟨getAttrAny [delta], getAttrAny [gamma], getAttrAny [theta], getAttrAny [vega], getAttrAny [rho],
        getAttrAny [volatility]⟩
    else none
  | _ => none

/-- Open, high, low and close of the marks; bid and ask of the last quote; the values of the last Greeks event. -/
def bucketOf (quotes : List SlotQuote) (greeks : List SlotGreeks) : Bucket where
  opening := (quotes.map SlotQuote.mark).head?.map .val
  high := (quotes.map SlotQuote.mark).max?.map .val
  low := (quotes.map SlotQuote.mark).min?.map .val
  close := (quotes.map SlotQuote.mark).getLast?.map .val
  bid := quotes.getLast?.bind SlotQuote.bid
  ask := quotes.getLast?.bind SlotQuote.ask
  delta := greeks.getLast?.bind SlotGreeks.delta
  gamma := greeks.getLast?.bind SlotGreeks.gamma
  theta := greeks.getLast?.bind SlotGreeks.theta
  vega := greeks.getLast?.bind SlotGreeks.vega
  rho := greeks.getLast?.bind SlotGreeks.rho
  iv := greeks.getLast?.bind SlotGreeks.iv
  hasGreeks := !greeks.isEmpty

def slotBucket (route : Dict String String) (slot : String × ℤ) (events : List Event) : Option Bucket :=
  let quotes := events.filterMap (slotQuote route slot)
  let greeks := events.filterMap (slotGreeks slot)
  if quotes.isEmpty && greeks.isEmpty then none else some (bucketOf quotes greeks)

def feed (route : Dict String String) (slot : String × ℤ) (e : Event) (b : Option Bucket) : Option Bucket :=
  match slotQuote route slot e, slotGreeks slot e with
  | some q, _ => some ((b.getD {}).updatePrice (.val q.mark) q.bid q.ask)
  | none, some g => some ((b.getD {}).updateGreeks g.delta g.gamma g.theta g.vega g.rho g.iv)
  | none, none => b

theorem bucketOf_quote (quotes : List SlotQuote) (greeks : List SlotGreeks) (q : SlotQuote) :
    bucketOf (quotes ++ [q]) greeks = (bucketOf quotes greeks).updatePrice (.val q.mark) q.bid q.ask := by
  obtain ⟨first, greatest, least, last⟩ := Ohlc.summary_fields (quotes.map SlotQuote.mark)
  obtain ⟨first', greatest', least', last'⟩ := Ohlc.summary_fields (quotes.map SlotQuote.mark ++ [q.mark])
  rw [Ohlc.summary_concat] at first' greatest' least' last'
  simp only [bucketOf, Bucket.updatePrice, List.map_append, List.map_cons, List.map_nil, ← first', ← greatest',
    ← least', ← last', ← first, ← greatest, ← least, ← last]
  cases Ohlc.summary (quotes.map SlotQuote.mark) <;> simp [Ohlc.single, Ohlc.push]

theorem bucketOf_greeks (quotes : List SlotQuote) (greeks : List SlotGreeks) (g : SlotGreeks) :
    bucketOf quotes (greeks ++ [g]) =
      (bucketOf quotes greeks).updateGreeks g.delta g.gamma g.theta g.vega g.rho g.iv := by
  simp [bucketOf, Bucket.updateGreeks]

theorem quote_without_greeks {route : Dict String String} {slot : String × ℤ} {e : Event} {q : SlotQuote}
    (quoted : slotQuote route slot e = some q) : slotGreeks slot e = none := by
  cases e <;> first | rfl | cases quoted

theorem slotBucket_concat (route : Dict String String) (slot : String × ℤ) (past : List Event) (e : Event) :
    slotBucket route slot (past ++ [e]) = feed route slot e (slotBucket route slot past) := by
  have held : (slotBucket route slot past).getD {} =
      bucketOf (past.filterMap (slotQuote route slot)) (past.filterMap (slotGreeks slot)) := by
    unfold slotBucket
    cases past.filterMap (slotQuote route slot) <;> cases past.filterMap (slotGreeks slot) <;> rfl
  unfold feed
  rw [held]
  cases quoted : slotQuote route slot e with
  | some q =>
    have unanswered := quote_without_greeks quoted
    simp [slotBucket, quoted, unanswered, bucketOf_quote]
  | none =>
    cases answered : slotGreeks slot e with
    | some g => simp [slotBucket, quoted, answered, bucketOf_greeks]
    | none => simp [slotBucket, quoted, answered]

theorem quote_reading {route : Dict String String} {slot : String × ℤ} {e : Event} {q : SlotQuote}
    (quoted : slotQuote route slot e = some q) : ∃ now ∈ e.reading, slot.2 = minuteEpoch now := by
  cases e with
  | quote symbol bidPrice askPrice now =>
    cases symbol with
    | none => cases quoted
    | some symbol =>
      simp only [slotQuote] at quoted
      split at quoted
      · next here => exact ⟨now, rfl, by rw [here.2.2]⟩
      · cases quoted
  | _ => cases quoted

theorem greeks_reading {slot : String × ℤ} {e : Event} {g : SlotGreeks} (answered : slotGreeks slot e = some g) :
    ∃ now ∈ e.reading, slot.2 = minuteEpoch now := by
  cases e with
  | greeks symbol delta gamma theta vega rho volatility now =>
    cases symbol with
    | none => cases answered
    | some symbol =>
      simp only [slotGreeks] at answered
      split at answered
      · next here => exact ⟨now, rfl, by rw [here.2]⟩
      · cases answered
  | _ => cases answered

theorem feed_closed {route : Dict String String} {slot : String × ℤ} {e : Event} {t : ℤ} (due : Due slot.2 t)
    (later : ∀ r ∈ e.reading, t ≤ r) (b : Option Bucket) : feed route slot e b = b := by
  have closed (now : ℤ) (reading : now ∈ e.reading) : slot.2 ≠ minuteEpoch now := by
    have after := later now reading
    unfold Due at due
    unfold minuteEpoch
    omega
  unfold feed
  cases quoted : slotQuote route slot e with
  | some q =>
    obtain ⟨now, reading, minute⟩ := quote_reading quoted
    exact absurd minute (closed now reading)
  | none =>
    cases answered : slotGreeks slot e with
    | some g =>
      obtain ⟨now, reading, minute⟩ := greeks_reading answered
      exact absurd minute (closed now reading)
    | none => rfl

structure Feeds (s t : Pipeline) (slot : String × ℤ) (e : Event) : Prop where
  place : optionPlace t slot =
    { optionPlace s slot with accumulating := feed s.streamerToTicker slot e (optionPlace s slot).accumulating }
  table : t.optionTable = s.optionTable

theorem onQuote_feed (s : Pipeline) (slot : String × ℤ) (symbol : Option String) (bidPrice askPrice : Option Number)
    (now : ℤ) : Feeds s (s.onQuote symbol bidPrice askPrice now) slot (.quote symbol bidPrice askPrice now) := by
  have keep (unquoted : slotQuote s.streamerToTicker slot (.quote symbol bidPrice askPrice now) = none) :
      feed s.streamerToTicker slot (.quote symbol bidPrice askPrice now) (optionPlace s slot).accumulating =
        (optionPlace s slot).accumulating := by
    rw [feed, unquoted]
    rfl
  refine ⟨?_, (onQuote_fed s symbol bidPrice askPrice now).optionTable⟩
  unfold Pipeline.onQuote
  split
  · rw [keep rfl]
  · rw [keep (by simp [slotQuote])]
  · next symbol named =>
    have nonempty : symbol ≠ "" := fun empty => named (by rw [empty])
    dsimp only
    split
    · next ticker routed =>
      rw [keep (by simp [slotQuote, routed])]
      rfl
    · next unrouted =>
      have placed : optionPlace { s with
            optionQuoteEvents := s.optionQuoteEvents + 1
            optionBars := s.optionBars.onQuote symbol (getAttrAny [bidPrice]) (getAttrAny [askPrice]) now } slot =
          { optionPlace s slot with
            accumulating := (s.optionBars.onQuote symbol (getAttrAny [bidPrice]) (getAttrAny [askPrice])
              now).buckets.lookup slot } := rfl
      rw [placed, BarAggregator.onQuote_lookup]
      cases marked : mark (getAttrAny [bidPrice]) (getAttrAny [askPrice]) with
      | none =>
        rw [keep (by simp [slotQuote, quoteMark, marked])]
        rfl
      | some m =>
        obtain ⟨q, rfl⟩ := mark_val marked
        by_cases here : slot = (symbol, minuteEpoch now)
        · have quoted : slotQuote s.streamerToTicker slot (.quote (some symbol) bidPrice askPrice now) =
              some ⟨q, getAttrAny [bidPrice], getAttrAny [askPrice]⟩ := by
            simp [slotQuote, nonempty, unrouted, here, quoteMark, marked]
          rw [feed, quoted]
          simp [here, optionPlace]
        · rw [keep (by simp [slotQuote, here])]
          simp [here, optionPlace]

theorem onOptionGreeks_feed (s : Pipeline) (slot : String × ℤ) (symbol : Option String)
    (delta gamma theta vega rho volatility : Option Number) (now : ℤ) :
    Feeds s (s.onOptionGreeks symbol delta gamma theta vega rho volatility now) slot
      (.greeks symbol delta gamma theta vega rho volatility now) := by
  have keep (unanswered : slotGreeks slot (.greeks symbol delta gamma theta vega rho volatility now) = none) :
      feed s.streamerToTicker slot (.greeks symbol delta gamma theta vega rho volatility now)
        (optionPlace s slot).accumulating = (optionPlace s slot).accumulating := by
    have unquoted : slotQuote s.streamerToTicker slot
        (.greeks symbol delta gamma theta vega rho volatility now) = none := rfl
    rw [feed, unquoted, unanswered]
  refine ⟨?_, (onOptionGreeks_fed s symbol delta gamma theta vega rho volatility now).optionTable⟩
  unfold Pipeline.onOptionGreeks
  split
  · rw [keep rfl]
  · rw [keep (by simp [slotGreeks])]
  · next symbol named =>
    have nonempty : symbol ≠ "" := fun empty => named (by rw [empty])
    have placed : optionPlace { s with
          optionBars := s.optionBars.onGreeks symbol (getAttrAny [delta]) (getAttrAny [gamma]) (getAttrAny [theta])
            (getAttrAny [vega]) (getAttrAny [rho]) (getAttrAny [volatility]) now } slot =
        { optionPlace s slot with
          accumulating := (s.optionBars.onGreeks symbol (getAttrAny [delta]) (getAttrAny [gamma])
            (getAttrAny [theta]) (getAttrAny [vega]) (getAttrAny [rho]) (getAttrAny [volatility])
            now).buckets.lookup slot } := rfl
    rw [placed, BarAggregator.onGreeks_lookup]
    by_cases here : slot = (symbol, minuteEpoch now)
    · have answered : slotGreeks slot (.greeks (some symbol) delta gamma theta vega rho volatility now) =
          some ⟨getAttrAny [delta], getAttrAny [gamma], getAttrAny [theta], getAttrAny [vega], getAttrAny [rho],
            getAttrAny [volatility]⟩ := if_pos ⟨nonempty, here⟩
      have unquoted : slotQuote s.streamerToTicker slot
          (.greeks (some symbol) delta gamma theta vega rho volatility now) = none := rfl
      rw [if_pos here, feed, unquoted, answered]
      rfl
    · rw [if_neg here, keep (if_neg fun both => here both.2)]
      rfl

theorem step_feed {s t : Pipeline} {e : Event} (taken : step s e = some t) (alone : isForeign e = false)
    (flushing : ∀ now, e ≠ .beginFlush now) (going : ∀ succeeds, e ≠ .endOptionWrite succeeds)
    (slot : String × ℤ) : Feeds s t slot e := by
  cases e with
  | quote symbol bidPrice askPrice now =>
    cases taken
    exact onQuote_feed s slot symbol bidPrice askPrice now
  | greeks symbol delta gamma theta vega rho volatility now =>
    cases taken
    exact onOptionGreeks_feed s slot symbol delta gamma theta vega rho volatility now
  | refresh tracked =>
    cases taken
    exact ⟨rfl, rfl⟩
  | foreign options underlyings => cases alone
  | beginFlush now => exact absurd rfl (flushing now)
  | endOptionWrite succeeds => exact absurd rfl (going succeeds)
  | endUnderlyingWrite succeeds =>
    obtain ⟨ready, flush, -, rfl⟩ := endUnderlyingWrite_taken.mp taken
    cases succeeds <;> exact ⟨by simp [optionPlace, Pipeline.endUnderlyingWrite, optionsInFlight, flush, feed,
      slotQuote, slotGreeks], rfl⟩

def Built (s : Pipeline) : Prop :=
  ∀ ready rows underlyings, s.flush = .options ready rows underlyings → ∃ tracked, rows = optionRows tracked ready

theorem Built.step {s t : Pipeline} {e : Event} (built : Built s) (taken : step s e = some t) : Built t := by
  intro ready rows underlyings flush
  rcases options_before taken flush with ⟨now, rfl⟩ | ⟨same, -⟩
  · obtain ⟨-, rfl⟩ := beginFlush_taken.mp taken
    cases flush
    exact ⟨s.tracked, rfl⟩
  · exact built ready rows underlyings (same.trans flush)

theorem run_sound {symbols : Dict String String} {events : List Event} {s : Pipeline}
    (reached : run step (start symbols) events = some s) :
    OptionSound (start symbols).streamerToTicker s ∧ Built s := by
  have initial : OptionSound (start symbols).streamerToTicker (start symbols) ∧ Built (start symbols) :=
    ⟨⟨rfl, rfl, List.nodup_nil⟩, fun _ _ _ flush => nomatch flush⟩
  have keep (u : Pipeline) (e : Event) (t : Pipeline)
      (before : OptionSound (start symbols).streamerToTicker u ∧ Built u) (taken : step u e = some t) :
      OptionSound (start symbols).streamerToTicker t ∧ Built t :=
    ⟨before.1.step taken, before.2.step taken⟩
  exact run_invariant keep initial reached

theorem endOptionWrite_lookup {s t : Pipeline} {succeeds : Bool} (taken : step s (.endOptionWrite succeeds) = some t)
    {ready : Popped} {tracked : Tracked} {underlyings : Popped}
    (flush : s.flush = .options ready (optionRows tracked ready) underlyings) (slot : String × ℤ) :
    t.optionTable.lookup (barKey slot) = if succeeds then
      (s.optionTable.lookup (barKey slot)).or ((optionPlace s slot).inFlight.bind fun b =>
        (tracked.lookup slot.1).map fun resolved => optionRow resolved b)
      else s.optionTable.lookup (barKey slot) := by
  obtain ⟨ready', rows, underlyings', flush', -, rfl⟩ := endOptionWrite_taken.mp taken
  cases flush.symm.trans flush'
  cases succeeds with
  | true =>
    simp [Pipeline.endOptionWrite, Dict.lookup_insertAll, optionRows_first, optionPlace, optionsInFlight, flush]
  | false => rfl

theorem endOptionWrite_place {route : Dict String String} {s t : Pipeline} {succeeds : Bool}
    (sound : OptionSound route s) (taken : step s (.endOptionWrite succeeds) = some t) (slot : String × ℤ) :
    optionPlace t slot =
      ⟨if succeeds then (optionPlace s slot).accumulating else (optionPlace s slot).restored, none⟩ := by
  obtain ⟨ready, rows, underlyings, flush, -, rfl⟩ := endOptionWrite_taken.mp taken
  have unique := sound.unique
  rw [optionsInFlight, flush] at unique
  cases succeeds with
  | true => rfl
  | false =>
    simp [OptionPlace.restored, optionPlace, Pipeline.endOptionWrite, optionsInFlight, flush,
      BarAggregator.restore_lookup _ unique]

/-- Before its row is decided, what came for a minute either accumulates or is in flight, never both. -/
inductive Waiting (readings : List ℤ) (minute : ℤ) (b : Option Bucket) : OptionPlace → Prop where
  | accumulating : Waiting readings minute b ⟨b, none⟩
  | inFlight (elapsed : Elapsed readings minute) : Waiting readings minute b ⟨none, b⟩

theorem Waiting.later {readings more : List ℤ} {minute : ℤ} {b : Option Bucket} {p : OptionPlace}
    (waiting : Waiting readings minute b p) : Waiting (readings ++ more) minute b p := by
  cases waiting with
  | accumulating => exact .accumulating
  | inFlight elapsed => exact .inFlight elapsed.later

theorem Waiting.restored {readings : List ℤ} {minute : ℤ} {b : Option Bucket} {p : OptionPlace}
    (waiting : Waiting readings minute b p) : p.restored = b := by
  cases waiting with
  | accumulating => rfl
  | inFlight elapsed => cases b <;> rfl

theorem Waiting.idle {readings : List ℤ} {minute : ℤ} {b : Option Bucket} {p : OptionPlace}
    (waiting : Waiting readings minute b p) (idle : p.inFlight = none) : p = ⟨b, none⟩ := by
  cases waiting with
  | accumulating => rfl
  | inFlight elapsed =>
    obtain rfl : b = none := idle
    rfl

theorem Waiting.popped {readings : List ℤ} {minute : ℤ} {b : Option Bucket} {p : OptionPlace}
    (waiting : Waiting readings minute b p) (flying : p.inFlight = b) : p = ⟨none, b⟩ := by
  cases waiting with
  | accumulating =>
    obtain rfl : none = b := flying
    rfl
  | inFlight elapsed => rfl

theorem Waiting.fed {readings : List ℤ} {slot : String × ℤ} {b : Option Bucket} {s t : Pipeline} {e : Event}
    {route : Dict String String} (waiting : Waiting readings slot.2 b (optionPlace s slot)) (feeds : Feeds s t slot e)
    (routed : s.streamerToTicker = route) (ordered : ∀ t ∈ readings, ∀ r ∈ e.reading, t ≤ r) :
    Waiting (readings ++ e.reading.toList) slot.2 (feed route slot e b) (optionPlace t slot) := by
  rw [feeds.place, routed]
  generalize optionPlace s slot = before at waiting
  cases waiting with
  | accumulating => exact .accumulating
  | inFlight elapsed =>
    obtain ⟨t, member, due⟩ := elapsed
    rw [feed_closed due (ordered t member), feed_closed due (ordered t member)]
    exact .inFlight ⟨t, List.mem_append_left _ member, due⟩

theorem optionPlace_idle {s : Pipeline} (idle : s.flush = .idle) (slot : String × ℤ) :
    (optionPlace s slot).inFlight = none := by
  simp [optionPlace, optionsInFlight, idle]

instance (minute now : ℤ) : Decidable (Due minute now) :=
  inferInstanceAs (Decidable ((minute + 60) * 1000000 + 5000000 ≤ now))

section

variable {symbols : Dict String String} {events : List Event}

def eventsBefore (write : OptionWrite symbols events) : List Event :=
  write.first ++ .beginFlush write.now :: write.during

/-- No earlier write that succeeded was of a flush begun with the minute due. -/
def FirstDue (minute : ℤ) (write : OptionWrite symbols events) : Prop :=
  Due minute write.now ∧ ∀ earlier : OptionWrite symbols (eventsBefore write), ¬ Due minute earlier.now

def extend {past more : List Event} (write : OptionWrite symbols past) (part : events = past ++ more) :
    OptionWrite symbols events where
  first := write.first
  now := write.now
  during := write.during
  began := write.began
  awaiting := write.awaiting
  part := by
    obtain ⟨rest, inner⟩ := write.part
    refine ⟨rest ++ more, part.trans ((congrArg (· ++ more) inner).trans ?_)⟩
    simp
  quiet := write.quiet
  reached := write.reached
  going := write.going

theorem awaited (write : OptionWrite symbols events) :
    run step (start symbols) (eventsBefore write) = some write.awaiting :=
  run_append_some.mpr ⟨write.began, write.reached, write.going⟩

theorem popped_first (write : OptionWrite symbols events) (slot : String × ℤ) :
    (optionPlace write.awaiting slot).inFlight =
      if Due slot.2 write.now then (optionPlace write.began slot).accumulating else none := by
  obtain ⟨underlyings, flush⟩ := write.flush
  have ready : write.began.optionBars.isReady write.now slot = true ↔ Due slot.2 write.now := by
    rw [BarAggregator.isReady, (run_sound write.reached).1.grace, decide_eq_true_eq, Due]
  have flying : (optionPlace write.awaiting slot).inFlight = Dict.firstRow write.popped slot := by
    simp [optionPlace, optionsInFlight, flush]
  rw [flying, OptionWrite.popped, BarAggregator.popReady_first]
  exact if_congr ready rfl rfl

theorem exists_first {minute : ℤ} (write : OptionWrite symbols events) (due : Due minute write.now) :
    ∃ first : OptionWrite symbols events, FirstDue minute first := by
  induction size : (eventsBefore write).length using Nat.strong_induction_on generalizing write with
  | _ n ih =>
    by_cases decided : ∀ earlier : OptionWrite symbols (eventsBefore write), ¬ Due minute earlier.now
    · exact ⟨write, due, decided⟩
    · push Not at decided
      obtain ⟨earlier, already⟩ := decided
      obtain ⟨rest, part⟩ := write.part
      obtain ⟨between, part'⟩ := earlier.part
      have shorter : (eventsBefore earlier).length < n := by
        have lengths := congrArg List.length part'
        rw [← size]
        simp only [eventsBefore, List.length_append, List.length_cons] at lengths ⊢
        omega
      exact ih _ shorter (extend earlier part) already rfl

end

structure Undecided (route : Dict String String) (slot : String × ℤ) (past : List Event) (s : Pipeline) : Prop where
  waiting : Waiting (past.filterMap Event.reading) slot.2 (slotBucket route slot past) (optionPlace s slot)
  free : s.optionTable.lookup (barKey slot) = none

theorem Undecided.written {symbols : Dict String String} {slot : String × ℤ} {past : List Event} {s t : Pipeline}
    (undecided : Undecided (start symbols).streamerToTicker slot past s)
    (reached : run step (start symbols) past = some s) (taken : step s (.endOptionWrite true) = some t)
    (early : ∀ write : OptionWrite symbols (past ++ [.endOptionWrite true]), ¬ Due slot.2 write.now) :
    Undecided (start symbols).streamerToTicker slot (past ++ [.endOptionWrite true]) t := by
  obtain ⟨write, same, -⟩ : ∃ write : OptionWrite symbols (past ++ [.endOptionWrite true]), write.awaiting = s ∧ _ :=
    OptionWrite.exists_of_step rfl reached taken
  subst same
  obtain ⟨underlyings, flush⟩ := write.flush
  have idle : (optionPlace write.awaiting slot).inFlight = none := by
    rw [popped_first, if_neg (early write)]
  have stored := endOptionWrite_lookup taken flush slot
  have place : optionPlace t slot = optionPlace write.awaiting slot := by
    rw [endOptionWrite_place (run_sound reached).1 taken slot, if_pos rfl, ← idle]
  constructor
  · rw [slotBucket_concat, place, List.filterMap_append]
    exact undecided.waiting.later
  · rw [stored, idle, undecided.free]
    rfl

theorem Undecided.step {symbols : Dict String String} {slot : String × ℤ} {past : List Event} {s t : Pipeline}
    {e : Event} (undecided : Undecided (start symbols).streamerToTicker slot past s)
    (reached : run step (start symbols) past = some s) (taken : step s e = some t)
    (ordered : ∀ t ∈ past.filterMap Event.reading, ∀ r ∈ e.reading, t ≤ r) (alone : isForeign e = false)
    (early : ∀ write : OptionWrite symbols (past ++ [e]), ¬ Due slot.2 write.now) :
    Undecided (start symbols).streamerToTicker slot (past ++ [e]) t := by
  obtain ⟨sound, built⟩ := run_sound reached
  have readings : (past ++ [e]).filterMap Event.reading = past.filterMap Event.reading ++ e.reading.toList := by
    rw [List.filterMap_append]
    cases h : e.reading <;> simp [h]
  by_cases flushing : ∃ now, e = .beginFlush now
  · obtain ⟨now, rfl⟩ := flushing
    obtain ⟨idle, rfl⟩ := beginFlush_taken.mp taken
    have still : optionPlace s slot = ⟨slotBucket (start symbols).streamerToTicker slot past, none⟩ :=
      undecided.waiting.idle (optionPlace_idle idle slot)
    refine ⟨?_, undecided.free⟩
    have unfed : feed (start symbols).streamerToTicker slot (.beginFlush now)
        (slotBucket (start symbols).streamerToTicker slot past) =
          slotBucket (start symbols).streamerToTicker slot past := rfl
    rw [readings, slotBucket_concat, unfed, beginFlush_optionPlace s slot now idle, still]
    split
    · next ready =>
      rw [BarAggregator.isReady, sound.grace, decide_eq_true_eq] at ready
      exact .inFlight ⟨now, by simp [Event.reading], ready⟩
    · exact .accumulating
  · push Not at flushing
    by_cases ending : ∃ succeeds, e = .endOptionWrite succeeds
    · obtain ⟨succeeds, rfl⟩ := ending
      cases succeeds with
      | true => exact undecided.written reached taken early
      | false =>
        have place := endOptionWrite_place sound taken slot
        rw [if_neg Bool.false_ne_true, undecided.waiting.restored] at place
        obtain ⟨ready, rows, underlyings, flush, -, rfl⟩ := endOptionWrite_taken.mp taken
        refine ⟨?_, undecided.free⟩
        have unfed : feed (start symbols).streamerToTicker slot (.endOptionWrite false)
            (slotBucket (start symbols).streamerToTicker slot past) =
              slotBucket (start symbols).streamerToTicker slot past := rfl
        rw [readings, slotBucket_concat, unfed, place]
        exact .accumulating
    · push Not at ending
      have feeds := step_feed taken alone flushing ending slot
      refine ⟨?_, feeds.table ▸ undecided.free⟩
      rw [readings, slotBucket_concat]
      exact undecided.waiting.fed feeds sound.route ordered

theorem run_undecided {symbols : Dict String String} {slot : String × ℤ} {events : List Event} {s : Pipeline}
    (ordered : ClockOrdered events) (alone : ∀ e ∈ events, isForeign e = false)
    (early : ∀ write : OptionWrite symbols events, ¬ Due slot.2 write.now)
    (reached : run step (start symbols) events = some s) :
    Undecided (start symbols).streamerToTicker slot events s := by
  let holds (past : List Event) (u : Pipeline) : Prop := run step (start symbols) past = some u ∧
    (ClockOrdered past → (∀ e ∈ past, isForeign e = false) →
      (∀ write : OptionWrite symbols past, ¬ Due slot.2 write.now) →
        Undecided (start symbols).streamerToTicker slot past u)
  have initial : holds [] (start symbols) := ⟨rfl, fun _ _ _ => ⟨.accumulating, rfl⟩⟩
  have keep (past : List Event) (u : Pipeline) (e : Event) (t : Pipeline) (before : holds past u)
      (taken : step u e = some t) : holds (past ++ [e]) t := by
    refine ⟨run_concat_some.mpr ⟨u, before.1, taken⟩, fun ordered alone early => ?_⟩
    obtain ⟨earlier, later⟩ := ordered.split
    have undecided := before.2 earlier (fun e member => alone e (List.mem_append_left _ member))
      fun write => early (extend write rfl)
    exact undecided.step before.1 taken later (alone e (by simp)) early
  exact (run_history initial keep reached).2 ordered alone early

structure Settled (slot : String × ℤ) (row : Option OptionBar1m) (s : Pipeline) : Prop where
  place : optionPlace s slot = ⟨none, none⟩
  stored : s.optionTable.lookup (barKey slot) = row

theorem Settled.step {route : Dict String String} {slot : String × ℤ} {row : Option OptionBar1m} {s t : Pipeline}
    {e : Event} {now : ℤ} (settled : Settled slot row s) (sound : OptionSound route s) (built : Built s)
    (taken : step s e = some t) (alone : isForeign e = false) (due : Due slot.2 now)
    (later : ∀ r ∈ e.reading, now ≤ r) : Settled slot row t := by
  have nothing : (optionPlace s slot).inFlight = none := by rw [settled.place]
  by_cases flushing : ∃ now, e = .beginFlush now
  · obtain ⟨now, rfl⟩ := flushing
    obtain ⟨idle, rfl⟩ := beginFlush_taken.mp taken
    refine ⟨?_, settled.stored⟩
    rw [beginFlush_optionPlace s slot now idle, settled.place, ite_self]
  · push Not at flushing
    by_cases ending : ∃ succeeds, e = .endOptionWrite succeeds
    · obtain ⟨succeeds, rfl⟩ := ending
      obtain ⟨ready, rows, underlyings, flush, -, same⟩ := endOptionWrite_taken.mp taken
      obtain ⟨tracked, rfl⟩ := built ready rows underlyings flush
      have stored := endOptionWrite_lookup taken flush slot
      rw [nothing, settled.stored, Option.bind_none, Option.or_none, ite_self] at stored
      refine ⟨?_, stored⟩
      rw [endOptionWrite_place sound taken slot, settled.place]
      cases succeeds <;> rfl
    · push Not at ending
      have feeds := step_feed taken alone flushing ending slot
      refine ⟨?_, feeds.table ▸ settled.stored⟩
      rw [feeds.place, settled.place, feed_closed due later]

theorem run_settled {symbols : Dict String String} {slot : String × ℤ} {row : Option OptionBar1m}
    {past rest : List Event} {s t : Pipeline} {now : ℤ} (settled : Settled slot row s)
    (reached : run step (start symbols) past = some s) (going : run step s rest = some t)
    (alone : ∀ e ∈ rest, isForeign e = false) (due : Due slot.2 now)
    (later : ∀ r ∈ rest.filterMap Event.reading, now ≤ r) : Settled slot row t := by
  let allowed (e : Event) : Prop := isForeign e = false ∧ ∀ r ∈ e.reading, now ≤ r
  let holds (u : Pipeline) : Prop :=
    (OptionSound (start symbols).streamerToTicker u ∧ Built u) ∧ Settled slot row u
  have keep (u : Pipeline) (e : Event) (v : Pipeline) (before : holds u) (free : allowed e)
      (taken : step u e = some v) : holds v := by
    rcases before with ⟨⟨sound, built⟩, settled⟩
    exact ⟨⟨sound.step taken, built.step taken⟩, settled.step sound built taken free.1 due free.2⟩
  have guarded : Guarded step (fun _ e => allowed e) s rest := by
    refine guarded_of_forall (fun e member v => ⟨alone e member, fun r reading => ?_⟩) s
    exact later r (List.mem_filterMap.mpr ⟨e, member, reading⟩)
  exact (run_guarded_invariant keep ⟨run_sound reached, settled⟩ guarded going).2

theorem slotBucket_closed {route : Dict String String} {slot : String × ℤ} {past more : List Event} {now : ℤ}
    (due : Due slot.2 now) (later : ∀ r ∈ more.filterMap Event.reading, now ≤ r) :
    slotBucket route slot (past ++ more) = slotBucket route slot past := by
  induction more using List.reverseRecOn with
  | nil => rw [List.append_nil]
  | append_singleton more e ih =>
    rw [List.filterMap_append, List.forall_mem_append] at later
    rw [← List.append_assoc, slotBucket_concat, ih later.1]
    refine feed_closed due (fun r reading => later.2 r ?_) _
    exact List.mem_filterMap.mpr ⟨e, List.mem_singleton_self e, reading⟩

theorem FirstDue.settled {symbols : Dict String String} {events : List Event} {slot : String × ℤ}
    {write : OptionWrite symbols events} (first : FirstDue slot.2 write) {t : Pipeline}
    (ordered : ClockOrdered (eventsBefore write)) (alone : ∀ e ∈ eventsBefore write, isForeign e = false)
    (taken : step write.awaiting (.endOptionWrite true) = some t) :
    Settled slot ((slotBucket (start symbols).streamerToTicker slot (eventsBefore write)).bind fun b =>
      (write.began.tracked.lookup slot.1).map fun resolved => optionRow resolved b) t := by
  obtain ⟨due, early⟩ := first
  obtain ⟨underlyings, flush⟩ := write.flush
  obtain ⟨earlier, later⟩ := ordered.flush
  have idle : write.began.flush = .idle := by
    obtain ⟨flushing, begun, -⟩ := run_cons_some.mp write.going
    exact (beginFlush_taken.mp begun).1
  have atFlush : Undecided (start symbols).streamerToTicker slot write.first write.began :=
    run_undecided earlier (fun e member => alone e (List.mem_append_left _ member))
      (fun inner => early (extend inner rfl)) write.reached
  have atEnd : Undecided (start symbols).streamerToTicker slot (eventsBefore write) write.awaiting :=
    run_undecided ordered alone early (awaited write)
  have complete : slotBucket (start symbols).streamerToTicker slot (eventsBefore write) =
      slotBucket (start symbols).streamerToTicker slot write.first := by
    refine slotBucket_closed due fun r reading => ?_
    have began : Event.reading (.beginFlush write.now) = some write.now := rfl
    rw [List.filterMap_cons_some began, List.mem_cons] at reading
    exact reading.elim (fun same => same ▸ le_refl _) (later r)
  have popped : (optionPlace write.awaiting slot).inFlight =
      slotBucket (start symbols).streamerToTicker slot (eventsBefore write) := by
    rw [popped_first, if_pos due, complete, atFlush.waiting.idle (optionPlace_idle idle slot)]
  have placed := atEnd.waiting.popped popped
  constructor
  · rw [endOptionWrite_place (run_sound (awaited write)).1 taken slot, placed]
    rfl
  · rw [endOptionWrite_lookup taken flush slot, if_pos rfl, atEnd.free, popped, Option.none_or]

/-- After any run without other writers, the row of a contract's minute is that of all that came for it, as the
contract was resolved when the first flush of the minute to be written began; before that nothing is lost. -/
theorem option_bars_correct {symbols : Dict String String} {events : List Event} {s : Pipeline}
    (ordered : ClockOrdered events) (alone : ∀ e ∈ events, isForeign e = false)
    (reached : run step (start symbols) events = some s) (slot : String × ℤ) :
    (∃ write : OptionWrite symbols events, FirstDue slot.2 write ∧
      s.optionTable.lookup (barKey slot) =
        (slotBucket (start symbols).streamerToTicker slot events).bind fun b =>
          (write.began.tracked.lookup slot.1).map fun resolved => optionRow resolved b) ∨
    (∀ write : OptionWrite symbols events, ¬ Due slot.2 write.now) ∧
      s.optionTable.lookup (barKey slot) = none ∧
      (optionPlace s slot).restored = slotBucket (start symbols).streamerToTicker slot events := by
  by_cases decided : ∃ write : OptionWrite symbols events, Due slot.2 write.now
  · left
    obtain ⟨written, due⟩ := decided
    obtain ⟨write, first⟩ := exists_first written due
    refine ⟨write, first, ?_⟩
    obtain ⟨rest, part⟩ := write.part
    have whole : events = eventsBefore write ++ .endOptionWrite true :: rest := part
    have parted : ClockOrdered (eventsBefore write) ∧
        ∀ r ∈ (Event.endOptionWrite true :: rest).filterMap Event.reading, write.now ≤ r := by
      unfold ClockOrdered at ordered ⊢
      rw [whole, List.filterMap_append, List.pairwise_append] at ordered
      refine ⟨ordered.1, fun r reading => ordered.2.2 write.now ?_ r reading⟩
      exact List.mem_filterMap.mpr ⟨.beginFlush write.now, by simp [eventsBefore], rfl⟩
    obtain ⟨u, before, after⟩ := run_append_some.mp (whole ▸ reached)
    obtain rfl : u = write.awaiting := Option.some.inj (before.symm.trans (awaited write))
    obtain ⟨t, taken, going⟩ := run_cons_some.mp after
    have settled := first.settled parted.1 (fun e member => alone e (whole ▸ List.mem_append_left _ member)) taken
    have complete : slotBucket (start symbols).streamerToTicker slot events =
        slotBucket (start symbols).streamerToTicker slot (eventsBefore write) := by
      rw [congrArg (slotBucket _ slot) whole]
      exact slotBucket_closed first.1 parted.2
    rw [complete]
    refine (run_settled settled (run_concat_some.mpr ⟨_, before, taken⟩) going ?_ first.1 ?_).stored
    · exact fun e member => alone e (whole ▸ List.mem_append_right _ (List.mem_cons_of_mem _ member))
    · exact parted.2
  · right
    push Not at decided
    have undecided := run_undecided ordered alone decided reached
    exact ⟨decided, undecided.free, undecided.waiting.restored⟩

def trackedOption : ResolvedContract := ⟨"C1", "SPX", 0, 100, .call, none⟩

def retriedOptions : List Event :=
  [.quote (some "C1") (some (.val 10)) (some (.val 12)) 0,
    .greeks (some "C1") (some (.val 1)) none none none none (some (.val 2)) 1000000,
    .quote (some "C1") (some (.val 8)) none 30000000,
    .beginFlush 70000000, .endOptionWrite false, .endUnderlyingWrite true,
    .refresh (Dict.assign ∅ [("C1", trackedOption)]),
    .beginFlush 80000000, .endOptionWrite true, .endUnderlyingWrite true]

theorem option_bars_correct_retried :
    ∃ s, run step (start ∅) retriedOptions = some s ∧
      ∃ write : OptionWrite ∅ retriedOptions, FirstDue 0 write ∧
        s.optionTable.lookup ("C1", 0) = (write.began.tracked.lookup "C1").map fun resolved => optionRow resolved {
          opening := some (.val 11)
          high := some (.val 11)
          low := some (.val 8)
          close := some (.val 8)
          bid := some (.val 8)
          delta := some (.val 1)
          iv := some (.val 2)
          hasGreeks := true } := by
  obtain ⟨s, reached⟩ : ∃ s, run step (start ∅) retriedOptions = some s :=
    Option.isSome_iff_exists.mp (by decide +kernel)
  have stored : ((run step (start ∅) retriedOptions).bind fun s => s.optionTable.lookup ("C1", 0)).isSome = true := by
    decide +kernel
  have received : slotBucket (start ∅).streamerToTicker ("C1", 0) retriedOptions = some {
      opening := some (.val 11)
      high := some (.val 11)
      low := some (.val 8)
      close := some (.val 8)
      bid := some (.val 8)
      delta := some (.val 1)
      iv := some (.val 2)
      hasGreeks := true } := by decide +kernel
  refine ⟨s, reached, ?_⟩
  rcases option_bars_correct (by decide) (by decide) reached ("C1", 0) with ⟨write, first, found⟩ | ⟨-, free, -⟩
  · rw [received, Option.bind_some] at found
    exact ⟨write, first, found⟩
  · rw [reached, Option.bind_some] at stored
    exact absurd free (Option.isSome_iff_ne_none.mp stored)

end OptionsProof.OptionBars
