import OptionsData.Db.BarWriters
import OptionsData.Ingestion.PipelineBars

namespace OptionsProof.UnderlyingCloses

open Kit OptionsModel OptionsModel.Pipeline OptionsProof.Pipeline

def accepted (offers : List (BarKey × Option UnderlyingBar1m)) : List (BarKey × UnderlyingBar1m) :=
  offers.filterMap fun offer => offer.2.map fun row => (offer.1, row)

inductive Commits (rows : List (BarKey × UnderlyingBar1m)) : Prop
  /-- `_backfill_underlying` and `poll_ticker`. -/
  | candles (ticker : String) (candles : List Candle)
      (some_ : rows.Sublist (accepted (candleOffers (underlyingPass ticker) candles)))
  | trades (barRows : List (BarKey × TradeBucket)) (some_ : rows.Sublist (accepted (tradeOffers barRows)))

def Writers (events : List Event) : Prop :=
  ∀ options underlyings, .foreign options underlyings ∈ events → Commits underlyings

def ClosesOk (table : UnderlyingTable) : Prop := ∀ key row, table.lookup key = some row → closeOk row.close = true

def underlyingMark (route : Dict String String) (slot : String × ℤ) : Event → Option ℚ
  | .quote (some symbol) bidPrice askPrice now =>
    if symbol ≠ "" ∧ route.lookup symbol = some slot.1 ∧ minuteEpoch now = slot.2 then quoteMark bidPrice askPrice
    else none
  | _ => none

def lastMark (route : Dict String String) (slot : String × ℤ) (events : List Event) : Option ℚ :=
  (events.filterMap (underlyingMark route slot)).getLast?

theorem accepted_tradeOffers (barRows : List (BarKey × TradeBucket)) :
    accepted (tradeOffers barRows) = tradeRows barRows := by
  rw [accepted, tradeOffers, List.filterMap_map, tradeRows, ← List.filterMap_eq_map, ← List.filterMap_eq_filter,
    List.filterMap_filterMap]
  refine List.filterMap_congr fun bar _ => ?_
  cases usable : usableClose bar.2 <;> simp [usable, Option.guard]

theorem accepted_candleOffers (ticker : String) (candles : List Candle) (time : ℤ) :
    Dict.firstRow (accepted (candleOffers (underlyingPass ticker) candles)) (ticker, time) =
      (WriteLoop.firstUsable usableCandle time candles).map underlyingCandleRow := by
  induction candles with
  | nil => rfl
  | cons candle candles ih =>
    have listed := WriteLoop.firstUsable_append usableCandle time [candle] candles
    rw [List.singleton_append] at listed
    rw [listed, Option.map_or, ← ih, candleOffers, List.filterMap_cons]
    cases timed : candle.time with
    | none => simp [WriteLoop.firstUsable, timed, candleOffers]
    | some at_ =>
      rw [Option.map_some, accepted, List.filterMap_cons]
      cases usable : usableCandle candle with
      | false => simp [WriteLoop.firstUsable, timed, usable, underlyingPass, accepted, candleOffers]
      | true =>
        by_cases same : time = at_
        · simp [Dict.firstRow_cons, WriteLoop.firstUsable, timed, usable, underlyingPass, same]
        · simp [Dict.firstRow_cons, WriteLoop.firstUsable, timed, usable, underlyingPass, same, Ne.symm same,
            accepted, candleOffers]

theorem candle_writers_commit (ticker : String) (table : UnderlyingTable) (candles : List Candle) (time : ℤ) :
    (backfillUnderlying ticker table candles).1.lookup (ticker, time) =
        (table.insertAll (accepted (candleOffers (underlyingPass ticker) candles))).lookup (ticker, time) ∧
      (pollTicker ticker table candles).1.lookup (ticker, time) =
        (table.insertAll (accepted (candleOffers (underlyingPass ticker) candles))).lookup (ticker, time) := by
  rw [backfillUnderlying_table, pollTicker_table, WriteLoop.writeAll_lookup, Dict.lookup_insertAll,
    accepted_candleOffers]
  exact ⟨rfl, rfl⟩

theorem trade_writer_commits (nowMs : ℤ) (w : TradeWorld) :
    (flushTradeBars { nowMs := nowMs } w).2.table =
      w.table.insertAll (accepted (tradeOffers (w.aggregator.readyBars nowMs))) := by
  rw [flushTradeBars_calm, accepted_tradeOffers]

theorem mem_accepted {offers : List (BarKey × Option UnderlyingBar1m)} {key : BarKey} {row : UnderlyingBar1m} :
    (key, row) ∈ accepted offers ↔ (key, some row) ∈ offers := by
  simp only [accepted, List.mem_filterMap, Option.map_eq_some_iff, Prod.mk.injEq]
  constructor
  · intro found
    obtain ⟨⟨_, _⟩, offered, _, rfl, rfl, rfl⟩ := found
    exact offered
  · intro offered
    exact ⟨_, offered, row, rfl, rfl, rfl⟩

inductive Checked : UnderlyingBar1m → ℚ → Prop
  | candle {c : Candle} {q : ℚ} (close : getAttrAny [c.close] = some (.val q)) : Checked (underlyingCandleRow c) q
  | trade (b : TradeBucket) : Checked (tradeRow b) b.close

theorem closeOk_numeric (q : ℚ) : closeOk (some (Number.numeric 4 (.val q))) = true ↔ 1 / 20000 ≤ q := by
  have rounded : 0 < toScale 4 q ↔ 1 / 2 ≤ q * 10 ^ 4 := toScale_pos_iff
  rw [Number.numeric, closeOk, decide_eq_true_eq, rounded]
  constructor <;> intro large <;> linarith

theorem Checked.closeOk_iff {row : UnderlyingBar1m} {q : ℚ} (checked : Checked row q) :
    closeOk row.close = true ↔ 1 / 20000 ≤ q := by
  cases checked with
  | candle close =>
    rw [underlyingCandleRow, close]
    exact closeOk_numeric q
  | trade b => exact closeOk_numeric b.close

theorem Commits.checked {rows : List (BarKey × UnderlyingBar1m)} (commits : Commits rows) {key : BarKey}
    {row : UnderlyingBar1m} (member : (key, row) ∈ rows) : ∃ q, Checked row q := by
  cases commits with
  | candles ticker candles some_ =>
    obtain ⟨candle, -, timed⟩ := List.mem_filterMap.mp (mem_accepted.mp (some_.subset member))
    obtain ⟨time, -, same⟩ := Option.map_eq_some_iff.mp timed
    obtain ⟨usable, made⟩ := Option.ite_none_right_eq_some.mp (Prod.ext_iff.mp same).2
    cases made
    have positive : closeOk (getAttrAny [candle.close]) = true := usable
    unfold closeOk at positive
    split at positive
    · next q close => exact ⟨q, .candle close⟩
    · cases positive
  | trades barRows some_ =>
    obtain ⟨bar, -, same⟩ := List.mem_map.mp (mem_accepted.mp (some_.subset member))
    obtain ⟨-, made⟩ := Option.ite_none_right_eq_some.mp (Prod.ext_iff.mp same).2
    cases made
    exact ⟨bar.2.close, .trade bar.2⟩

theorem underlyingMark_iff {route : Dict String String} {slot : String × ℤ} {e : Event} {q : ℚ} :
    underlyingMark route slot e = some q ↔
      ∃ feed, route.lookup feed = some slot.1 ∧ usableMark feed slot.2 e = some q := by
  cases e with
  | quote symbol bidPrice askPrice now =>
    cases symbol with
    | none => simp [underlyingMark, usableMark]
    | some symbol =>
      simp only [underlyingMark, usableMark, Option.ite_none_right_eq_some]
      constructor
      · intro premise
        rcases premise with ⟨⟨named, routed, minute⟩, found⟩
        exact ⟨symbol, routed, ⟨named, rfl, minute⟩, found⟩
      · intro premise
        rcases premise with ⟨feed, routed, ⟨named, rfl, minute⟩, found⟩
        exact ⟨⟨named, routed, minute⟩, found⟩
  | _ => simp [underlyingMark, usableMark]

theorem lastMark_concat (route : Dict String String) (slot : String × ℤ) (past : List Event) (e : Event) :
    lastMark route slot (past ++ [e]) = (underlyingMark route slot e).or (lastMark route slot past) := by
  rw [lastMark, List.filterMap_append, List.getLast?_append]
  cases received : underlyingMark route slot e <;> simp [received, lastMark]

structure Closes (mark : Option ℚ) (p : Place) : Prop where
  newer : ∀ b, p.accumulating = some b → b.close ≠ none ∧ b.close = mark.map .val
  older : ∀ b, p.inFlight = some b → b.close ≠ none ∧ (p.accumulating = none → b.close = mark.map .val)

theorem Closes.moved {s : Pipeline} {e : Event} {slot : String × ℤ} {past : List Event} {p : Place}
    (closes : Closes (lastMark s.streamerToTicker slot past) (place s slot)) (moves : Moves s slot e p) :
    Closes (lastMark s.streamerToTicker slot (past ++ [e])) p := by
  rw [lastMark_concat]
  cases moves with
  | kept other =>
    have unmarked : underlyingMark s.streamerToTicker slot e = none := by
      by_contra received
      obtain ⟨q, found⟩ := Option.ne_none_iff_exists'.mp received
      obtain ⟨feed, routed, usable⟩ := underlyingMark_iff.mp found
      cases (other feed routed).symm.trans usable
    rwa [unmarked, Option.none_or]
  | marked feed q bid ask routed usable =>
    rw [underlyingMark_iff.mpr ⟨feed, routed, usable⟩, Option.some_or]
    constructor
    · intro b found
      cases found
      exact ⟨Option.some_ne_none _, rfl⟩
    · intro b found
      exact ⟨(closes.older b found).1, fun nothing => nomatch nothing⟩
  | popped now event idle =>
    subst event
    constructor
    · intro b found
      cases found
    · intro b found
      exact ⟨(closes.newer b found).1, fun _ => (closes.newer b found).2⟩
  | written event =>
    subst event
    constructor
    · exact closes.newer
    · intro b found
      cases found
  | restored event =>
    subst event
    constructor
    · intro b found
      generalize place s slot = before at closes found
      rcases before with ⟨- | existing, - | older, stored⟩
      · cases found
      · cases found
        exact ⟨(closes.older _ rfl).1, (closes.older _ rfl).2 rfl⟩
      · cases found
        exact closes.newer _ rfl
      · obtain ⟨present, last⟩ := closes.newer existing rfl
        obtain rfl : existing.mergeOlder older = b := Option.some.inj found
        have kept : (existing.mergeOlder older).close = existing.close := by
          obtain ⟨x, close⟩ := Option.ne_none_iff_exists'.mp present
          simp [Bucket.mergeOlder, close]
        exact ⟨kept ▸ present, kept.trans last⟩
    · intro b found
      cases found

theorem Closes.step {s t : Pipeline} {e : Event} {slot : String × ℤ} {past : List Event}
    (closes : Closes (lastMark s.streamerToTicker slot past) (place s slot)) (taken : step s e = some t)
    (unique : (s.inFlight.map Prod.fst).Nodup) :
    Closes (lastMark s.streamerToTicker slot (past ++ [e])) (place t slot) := by
  cases alone : isForeign e with
  | false => exact closes.moved (step_moves taken unique alone slot)
  | true =>
    cases e with
    | foreign options underlyings =>
      cases taken
      rw [lastMark_concat]
      exact ⟨closes.newer, closes.older⟩
    | _ => cases alone

theorem run_closes {symbols : Dict String String} {past : List Event} {s : Pipeline} (slot : String × ℤ)
    (reached : run step (start symbols) past = some s) :
    Closes (lastMark (start symbols).streamerToTicker slot past) (place s slot) := by
  let holds (past : List Event) (s : Pipeline) : Prop := Sound (start symbols).streamerToTicker s ∧
    Closes (lastMark (start symbols).streamerToTicker slot past) (place s slot)
  have initial : holds [] (start symbols) :=
    ⟨⟨rfl, rfl, List.nodup_nil⟩, ⟨fun _ found => (nomatch found), fun _ found => (nomatch found)⟩⟩
  have keep (past : List Event) (u : Pipeline) (e : Event) (t : Pipeline) (before : holds past u)
      (taken : step u e = some t) : holds (past ++ [e]) t := by
    rcases before with ⟨sound, closes⟩
    rw [← sound.route] at closes
    have next := closes.step taken sound.unique
    rw [sound.route] at next
    exact ⟨sound.step taken, next⟩
  exact (run_history initial keep reached).2

/-- One underlying write of a run that succeeds: where its flush began, and what it found when it ended. -/
structure UnderlyingWrite (symbols : Dict String String) (events : List Event) where
  first : List Event
  now : ℤ
  during : List Event
  began : Pipeline
  awaiting : Pipeline
  part : ∃ rest, events = first ++ .beginFlush now :: during ++ .endUnderlyingWrite true :: rest
  quiet : ∀ e ∈ during, ∀ succeeds, e ≠ .endUnderlyingWrite succeeds
  reached : run step (start symbols) first = some began
  going : run step began (.beginFlush now :: during) = some awaiting
  last : ∃ ready, awaiting.flush = .underlyings ready

namespace UnderlyingWrite

variable {symbols : Dict String String} {events : List Event}

def popped (write : UnderlyingWrite symbols events) : Popped := (write.began.underlyingBars.popReady write.now).1

theorem inFlight_stays {s t : Pipeline} {e : Event} (taken : step s e = some t) (busy : s.flush ≠ .idle)
    (going : ∀ succeeds, e ≠ .endUnderlyingWrite succeeds) : t.inFlight = s.inFlight ∧ t.flush ≠ .idle := by
  rcases step_flush taken with ⟨same, -⟩ | ⟨_, -, idle⟩ | ⟨succeeds, _, rfl, -⟩ | ⟨succeeds, _, event, -⟩
  · rw [inFlight, inFlight, same]
    exact ⟨rfl, busy⟩
  · exact absurd idle busy
  · obtain ⟨ready, rows, underlyings, flush, -, rfl⟩ := endOptionWrite_taken.mp taken
    cases succeeds <;> simp [inFlight, Pipeline.endOptionWrite, flush]
  · exact absurd event (going succeeds)

theorem flush (write : UnderlyingWrite symbols events) : write.awaiting.flush = .underlyings write.popped := by
  obtain ⟨flushing, taken, waiting⟩ := run_cons_some.mp write.going
  obtain ⟨-, rfl⟩ := beginFlush_taken.mp taken
  let holds (s : Pipeline) : Prop := s.inFlight = write.popped ∧ s.flush ≠ .idle
  have keep (s : Pipeline) (e : Event) (t : Pipeline) (before : holds s)
      (allowed : ∀ succeeds, e ≠ .endUnderlyingWrite succeeds) (taken : step s e = some t) : holds t := by
    obtain ⟨same, busy⟩ := inFlight_stays taken before.2 allowed
    exact ⟨same.trans before.1, busy⟩
  have guarded : Guarded step (fun _ e => ∀ succeeds, e ≠ .endUnderlyingWrite succeeds)
      (write.began.beginFlush write.now) write.during :=
    guarded_of_forall (fun e member _ => write.quiet e member) _
  obtain ⟨flying, -⟩ := run_guarded_invariant keep ⟨rfl, by simp [Pipeline.beginFlush]⟩ guarded waiting
  obtain ⟨ready, flush⟩ := write.last
  have same : write.awaiting.inFlight = ready := by rw [inFlight, flush]
  rw [flush, ← same, flying]

theorem exists_of_step {past rest : List Event} {u v : Pipeline}
    (part : events = past ++ .endUnderlyingWrite true :: rest) (reached : run step (start symbols) past = some u)
    (taken : step u (.endUnderlyingWrite true) = some v) :
    ∃ write : UnderlyingWrite symbols events, write.awaiting = u := by
  have before (s : Pipeline) (e : Event) (t : Pipeline) (taken : step s e = some t) (busy : t.flush ≠ .idle) :
      (∃ now, e = .beginFlush now) ∨ s.flush ≠ .idle ∧ ¬ ∃ succeeds, e = .endUnderlyingWrite succeeds := by
    by_cases begins : ∃ now, e = .beginFlush now
    · exact .inl begins
    · refine .inr ⟨flush_busy taken (fun now same => begins ⟨now, same⟩) busy, fun premise => ?_⟩
      rcases premise with ⟨succeeds, rfl⟩
      exact busy (endUnderlyingWrite_idle taken)
  obtain ⟨ready, flush, -, -⟩ := endUnderlyingWrite_taken.mp taken
  obtain ⟨first, e, during, s, rfl, ⟨now, rfl⟩, quiet, began, waiting⟩ :=
    run_opened (by simp [start]) before reached (by simp [flush])
  exact ⟨⟨first, now, during, s, u, ⟨rest, part⟩, fun e member succeeds same => quiet e member ⟨succeeds, same⟩,
    began, waiting, ready, flush⟩, rfl⟩

theorem stored (write : UnderlyingWrite symbols events) {slot : String × ℤ} {b : Bucket}
    (member : (slot, b) ∈ write.popped) (free : barKey slot ∉ write.awaiting.underlyingTable) :
    ∃ after, step write.awaiting (.endUnderlyingWrite true) = some after ∧
      after.underlyingTable.lookup (barKey slot) = some (underlyingRow b) := by
  refine ⟨_, endUnderlyingWrite_taken.mpr ⟨_, write.flush, by simp, rfl⟩, ?_⟩
  have unique : (write.popped.map Prod.fst).Nodup := BarAggregator.popReady_nodup _ _
  have absent := AList.lookup_eq_none.mpr free
  refine (Dict.lookup_insertAll _ _ _).trans ?_
  rw [absent, Option.none_or, underlyingRows_first, Dict.firstRow_of_nodup unique member, Option.map_some]

end UnderlyingWrite

/-- Whenever an underlying write of the run succeeds, the last mark received by its flush for each popped minute whose
key is free is one that the column does not round to zero. -/
def PositiveWhenFlushed (symbols : Dict String String) (events : List Event) : Prop :=
  ∀ (write : UnderlyingWrite symbols events) slot, slot ∈ write.popped.map Prod.fst →
    barKey slot ∉ write.awaiting.underlyingTable →
    ∃ q, lastMark (start symbols).streamerToTicker slot write.first = some q ∧ 1 / 20000 ≤ q

/-- Neither does it round to zero a close that one of the other writers stores under a free key. -/
def PositiveWhenCommitted (symbols : Dict String String) (events : List Event) : Prop :=
  ∀ past options underlyings rest s, events = past ++ .foreign options underlyings :: rest →
    run step (start symbols) past = some s → ∀ key row q, Dict.firstRow underlyings key = some row →
    s.underlyingTable.lookup key = none → Checked row q → 1 / 20000 ≤ q

theorem underlyingRow_closeOk {symbols : Dict String String} {events : List Event}
    (write : UnderlyingWrite symbols events) {slot : String × ℤ} {b : Bucket} (member : (slot, b) ∈ write.popped) :
    closeOk (underlyingRow b).close = true ↔
      ∃ q, lastMark (start symbols).streamerToTicker slot write.first = some q ∧ 1 / 20000 ≤ q := by
  have held : (place write.began slot).accumulating = some b := (BarAggregator.mem_popReady.mp member).1
  obtain ⟨-, close⟩ := (run_closes slot write.reached).newer b held
  rw [underlyingRow, close]
  cases lastMark (start symbols).streamerToTicker slot write.first with
  | none => simp [closeOk]
  | some q =>
    refine (closeOk_numeric q).trans ⟨fun large => ⟨q, rfl, large⟩, fun premise => ?_⟩
    rcases premise with ⟨_, same, large⟩
    cases same
    exact large

theorem underlyingTable_origin {s t : Pipeline} {e : Event} (taken : step s e = some t) {key : BarKey}
    {row : UnderlyingBar1m} (stored : t.underlyingTable.lookup key = some row) :
    s.underlyingTable.lookup key = some row ∨
      (∃ options underlyings, e = .foreign options underlyings ∧ s.underlyingTable.lookup key = none ∧
        Dict.firstRow underlyings key = some row) ∨
      e = .endUnderlyingWrite true ∧ s.underlyingTable.lookup key = none ∧
        ∃ ready, s.flush = .underlyings ready ∧ (key, row) ∈ underlyingRows ready := by
  cases e with
  | quote symbol bidPrice askPrice now =>
    cases taken
    rw [(onQuote_fed s symbol bidPrice askPrice now).underlyingTable] at stored
    exact .inl stored
  | greeks symbol delta gamma theta vega rho volatility now =>
    cases taken
    rw [(onOptionGreeks_fed s symbol delta gamma theta vega rho volatility now).underlyingTable] at stored
    exact .inl stored
  | refresh tracked =>
    cases taken
    exact .inl stored
  | foreign options underlyings =>
    cases taken
    have added := (Dict.lookup_insertAll s.underlyingTable underlyings key).symm.trans stored
    rcases Option.or_eq_some_iff.mp added with old | ⟨free, first⟩
    · exact .inl old
    · exact .inr (.inl ⟨options, underlyings, rfl, free, first⟩)
  | beginFlush now =>
    obtain ⟨-, rfl⟩ := beginFlush_taken.mp taken
    exact .inl stored
  | endOptionWrite succeeds =>
    obtain ⟨ready, rows, underlyings, -, -, rfl⟩ := endOptionWrite_taken.mp taken
    cases succeeds <;> exact .inl stored
  | endUnderlyingWrite succeeds =>
    obtain ⟨ready, flush, -, rfl⟩ := endUnderlyingWrite_taken.mp taken
    cases succeeds with
    | false => exact .inl stored
    | true =>
      have added := (Dict.lookup_insertAll s.underlyingTable (underlyingRows ready) key).symm.trans stored
      rcases Option.or_eq_some_iff.mp added with old | ⟨free, first⟩
      · exact .inl old
      · exact .inr (.inr ⟨rfl, free, ready, flush, Dict.mem_of_firstRow first⟩)

/-- In every run of the four writers all stored closes are usable exactly when the last mark of each minute of an
underlying that is flushed, and each close that the others store, is at least half a unit of the column's last place. -/
theorem closes_ok_iff {symbols : Dict String String} {events : List Event} (writers : Writers events) :
    (∀ past rest s, events = past ++ rest → run step (start symbols) past = some s → ClosesOk s.underlyingTable) ↔
      PositiveWhenFlushed symbols events ∧ PositiveWhenCommitted symbols events := by
  constructor
  · intro usable
    refine ⟨fun write slot member free => ?_, fun past options underlyings rest s part reached key row q first free
      checked => ?_⟩
    · obtain ⟨⟨_, b⟩, popped, rfl⟩ := List.mem_map.mp member
      obtain ⟨after, taken, stored⟩ := write.stored popped free
      obtain ⟨rest, part⟩ := write.part
      have reached : run step (start symbols) (write.first ++ .beginFlush write.now :: write.during ++
          [.endUnderlyingWrite true]) = some after :=
        run_concat_some.mpr ⟨_, run_append_some.mpr ⟨_, write.reached, write.going⟩, taken⟩
      have ok := usable _ rest after (by simp [part]) reached _ _ stored
      exact (underlyingRow_closeOk write popped).mp ok
    · obtain ⟨after, taken⟩ : ∃ after, step s (.foreign options underlyings) = some after := ⟨_, rfl⟩
      have stored : after.underlyingTable.lookup key = some row := by
        cases taken
        exact (Dict.lookup_insertAll s.underlyingTable underlyings key).trans (by rw [free, Option.none_or, first])
      have ok := usable (past ++ [.foreign options underlyings]) rest after (by simp [part])
        (run_concat_some.mpr ⟨s, reached, taken⟩) key row stored
      exact checked.closeOk_iff.mp ok
  · intro premise past rest s part reached
    obtain ⟨positive, committed⟩ := premise
    induction past using List.reverseRecOn generalizing rest s with
    | nil =>
      cases reached
      intro key row stored
      simp [start] at stored
    | append_singleton past e ih =>
      obtain ⟨u, before, taken⟩ := run_concat_some.mp reached
      have part' : events = past ++ e :: rest := by simpa using part
      intro key row stored
      rcases underlyingTable_origin taken stored with old | ⟨options, underlyings, rfl, free, first⟩ | ⟨rfl, free, written⟩
      · exact ih (e :: rest) u part' before key row old
      · obtain ⟨q, checked⟩ := (writers options underlyings (by simp [part'])).checked (Dict.mem_of_firstRow first)
        have large := committed past options underlyings rest u part' before key row q first free checked
        exact checked.closeOk_iff.mpr large
      · obtain ⟨write, rfl⟩ := UnderlyingWrite.exists_of_step part' before taken
        rcases written with ⟨ready, flush, listed⟩
        obtain ⟨⟨slot, b⟩, member, same⟩ := List.mem_map.mp listed
        cases same
        have popped : (slot, b) ∈ write.popped := by
          cases write.flush.symm.trans flush
          exact member
        exact (underlyingRow_closeOk write popped).mpr
          (positive write slot (List.mem_map.mpr ⟨_, popped, rfl⟩) (AList.lookup_eq_none.mp free))

def quotedAt (price : ℚ) : List Event :=
  [.quote (some "feed") (some (.val price)) (some (.val price)) 0,
    .foreign [] [(("SPX", 60000), underlyingCandleRow { time := some 60000, close := some (.val 7) })],
    .beginFlush 70000000, .endOptionWrite true, .endUnderlyingWrite true]

theorem quotedAt_writers (price : ℚ) : Writers (quotedAt price) := by
  intro options underlyings member
  simp only [quotedAt, List.mem_cons, reduceCtorEq, Event.foreign.injEq, List.not_mem_nil, or_self, or_false,
    false_or] at member
  rcases member with ⟨rfl, rfl⟩
  exact .candles "SPX" [{ time := some 60000, close := some (.val 7) }] (by decide +kernel)

theorem zero_quote_stored :
    ¬ ∀ symbols events past rest s, Writers events → events = past ++ rest →
      run step (start symbols) past = some s → ClosesOk s.underlyingTable := by
  intro all
  let symbols : Dict String String := Dict.assign ∅ [("SPX", "feed")]
  obtain ⟨s, reached⟩ : ∃ s, run step (start symbols) (quotedAt 0) = some s :=
    Option.isSome_iff_exists.mp (by decide +kernel)
  have closes : (run step (start symbols) (quotedAt 0)).bind
      (fun s => (s.underlyingTable.lookup ("SPX", 0)).map fun row => closeOk row.close) = some false := by
    decide +kernel
  rw [reached, Option.bind_some] at closes
  obtain ⟨row, stored, bad⟩ := Option.map_eq_some_iff.mp closes
  have ok := all symbols (quotedAt 0) (quotedAt 0) [] s (quotedAt_writers 0) (by simp) reached _ _ stored
  rw [bad] at ok
  cases ok

theorem closes_ok_iff_quoted :
    (∀ past rest s, quotedAt 5 = past ++ rest → run step (start (Dict.assign ∅ [("SPX", "feed")])) past = some s →
        ClosesOk s.underlyingTable) ↔
      PositiveWhenFlushed (Dict.assign ∅ [("SPX", "feed")]) (quotedAt 5) ∧
        PositiveWhenCommitted (Dict.assign ∅ [("SPX", "feed")]) (quotedAt 5) :=
  closes_ok_iff (quotedAt_writers 5)

end OptionsProof.UnderlyingCloses
