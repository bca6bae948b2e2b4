import OptionsData.Ingestion.LiveRows
import OptionsData.Ingestion.CandleWriter

namespace OptionsProof.LivePrices

open Kit OptionsModel OptionsModel.Pipeline OptionsProof.Pipeline OptionsProof.OptionBuckets
open OptionsProof.LiveRows (sampleOption)

def Flying (minute : ℤ) (events : List Event) : Prop :=
  ∃ before now during, events = before ++ .beginFlush now :: during ∧ Due minute now ∧ Quiet during

def Written (minute : ℤ) (events : List Event) : Prop :=
  ∃ before now during after, events = before ++ .beginFlush now :: during ++ .endOptionWrite true :: after ∧
    Due minute now ∧ Quiet during

/-- A usable quote of the contract's minute was received before events of the kind described. -/
def Followed (route : Dict String String) (slot : String × ℤ) (kind : List Event → Prop) (events : List Event) : Prop :=
  ∃ before e after, events = before ++ e :: after ∧ (optionMark route slot e).isSome = true ∧ kind after

/-- A usable quote of the contract's minute was received that no flush has written. -/
def Quoted (route : Dict String String) (slot : String × ℤ) : List Event → Prop :=
  Followed route slot fun after => ¬ Written slot.2 after

theorem flying_concat {minute : ℤ} {past : List Event} {e : Event} :
    Flying minute (past ++ [e]) ↔
      (∃ now, e = .beginFlush now ∧ Due minute now) ∨
        Flying minute past ∧ ∀ succeeds, e ≠ .endOptionWrite succeeds := by
  constructor
  · intro premise
    rcases premise with ⟨before, now, during, same, due, quiet⟩
    rcases concat_eq_append_cons.mp same with ⟨rfl, rfl, rfl⟩ | ⟨during, rfl, rfl⟩
    · exact .inl ⟨now, rfl, due⟩
    · exact .inr ⟨⟨before, now, during, rfl, due, fun other member => quiet other (by simp [member])⟩,
        quiet e (by simp)⟩
  · intro premise
    rcases premise with ⟨now, rfl, due⟩ | ⟨⟨before, now, during, rfl, due, quiet⟩, going⟩
    · exact ⟨past, now, [], rfl, due, fun _ member => absurd member List.not_mem_nil⟩
    · refine ⟨before, now, during ++ [e], by simp, due, fun other member => ?_⟩
      rcases List.mem_append.mp member with earlier | last
      · exact quiet other earlier
      · rw [List.mem_singleton.mp last]
        exact going

theorem written_concat {minute : ℤ} {past : List Event} {e : Event} :
    Written minute (past ++ [e]) ↔ Written minute past ∨ e = .endOptionWrite true ∧ Flying minute past := by
  constructor
  · intro premise
    rcases premise with ⟨before, now, during, after, same, due, quiet⟩
    rcases concat_eq_append_cons.mp same with ⟨rfl, rfl, rfl⟩ | ⟨after, rfl, rfl⟩
    · exact .inr ⟨rfl, before, now, during, rfl, due, quiet⟩
    · exact .inl ⟨before, now, during, after, rfl, due, quiet⟩
  · intro premise
    rcases premise with ⟨before, now, during, after, rfl, due, quiet⟩ | ⟨rfl, before, now, during, rfl, due, quiet⟩
    · exact ⟨before, now, during, after ++ [e], by simp, due, quiet⟩
    · exact ⟨before, now, during, [], by simp, due, quiet⟩

theorem flying_nil (minute : ℤ) : ¬ Flying minute [] := by
  intro premise
  rcases premise with ⟨before, now, during, same, -⟩
  simp at same

theorem written_nil (minute : ℤ) : ¬ Written minute [] := by
  intro premise
  rcases premise with ⟨before, now, during, after, same, -⟩
  simp at same

theorem followed_concat {route : Dict String String} {slot : String × ℤ} {kind : List Event → Prop}
    {past : List Event} {e : Event} :
    Followed route slot kind (past ++ [e]) ↔ ((optionMark route slot e).isSome = true ∧ kind []) ∨
      Followed route slot (fun after => kind (after ++ [e])) past := by
  constructor
  · intro premise
    rcases premise with ⟨before, other, after, same, usable, follows⟩
    rcases concat_eq_append_cons.mp same with ⟨rfl, rfl, rfl⟩ | ⟨after, rfl, rfl⟩
    · exact .inl ⟨usable, follows⟩
    · exact .inr ⟨before, other, after, rfl, usable, follows⟩
  · intro premise
    rcases premise with ⟨usable, follows⟩ | ⟨before, other, after, rfl, usable, follows⟩
    · exact ⟨past, e, [], rfl, usable, follows⟩
    · exact ⟨before, other, after ++ [e], by simp, usable, follows⟩

theorem followed_congr {route : Dict String String} {slot : String × ℤ} {one other : List Event → Prop}
    (same : ∀ after, one after ↔ other after) (past : List Event) :
    Followed route slot one past ↔ Followed route slot other past := by
  have equal : one = other := funext fun after => propext (same after)
  rw [equal]

def prices (b : Bucket) : List (Option Number) := [b.opening, b.high, b.low, b.close]

def rowPrices (row : OptionBar1m) : List (Option Number) := [row.opening, row.high, row.low, row.close]

def PresentIff (condition : Prop) (values : List (Option Number)) : Prop :=
  ∀ value ∈ values, value ≠ none ↔ condition

theorem presentIff_congr {one other : Prop} {values : List (Option Number)} (present : PresentIff one values)
    (same : one ↔ other) : PresentIff other values :=
  fun value member => (present value member).trans same

theorem presentIff_empty {condition : Prop} : PresentIff condition (prices {}) ↔ ¬ condition := by
  simp [PresentIff, prices]

theorem presentIff_updatePrice (b : Bucket) (m : Number) (bid ask : Option Number) {condition : Prop}
    (holds : condition) : PresentIff condition (prices (b.updatePrice m bid ask)) := by
  simp [PresentIff, prices, Bucket.updatePrice, holds]

theorem presentIff_mergeOlder {b older : Bucket} {one other : Prop} (new : PresentIff one (prices b))
    (old : PresentIff other (prices older)) : PresentIff (one ∨ other) (prices (b.mergeOlder older)) := by
  have either {field : Bucket → Option Number} (listed : ∀ b, field b ∈ prices b)
      (merged : field (b.mergeOlder older) ≠ none ↔ field b ≠ none ∨ field older ≠ none) :
      field (b.mergeOlder older) ≠ none ↔ one ∨ other :=
    merged.trans (or_congr (new _ (listed b)) (old _ (listed older)))
  intro value member
  simp only [prices, List.mem_cons, List.not_mem_nil, or_false] at member
  rcases member with rfl | rfl | rfl | rfl
  · apply either (fun b => by simp [prices])
    simp only [Bucket.mergeOlder]
    cases older.opening <;> cases b.opening <;> simp
  · apply either (fun b => by simp [prices])
    simp only [Bucket.mergeOlder]
    cases older.high <;> cases b.high <;> simp
  · apply either (fun b => by simp [prices])
    simp only [Bucket.mergeOlder]
    cases older.low <;> cases b.low <;> simp
  · apply either (fun b => by simp [prices])
    simp only [Bucket.mergeOlder]
    cases older.close <;> cases b.close <;> simp

structure Shows (route : Dict String String) (slot : String × ℤ) (past : List Event) (p : OptionPlace) : Prop where
  accumulating : PresentIff (Followed route slot (fun after => ¬ Written slot.2 after ∧ ¬ Flying slot.2 after) past)
    (prices (p.accumulating.getD {}))
  inFlight : PresentIff (Followed route slot (fun after => ¬ Written slot.2 after ∧ Flying slot.2 after) past)
    (prices (p.inFlight.getD {}))

theorem Shows.restored {route : Dict String String} {slot : String × ℤ} {past : List Event} {p : OptionPlace}
    (shows : Shows route slot past p) :
    PresentIff (Followed route slot (fun after => ¬ Written slot.2 after ∧ ¬ Flying slot.2 after) past ∨
      Followed route slot (fun after => ¬ Written slot.2 after ∧ Flying slot.2 after) past)
      (prices (p.restored.getD {})) := by
  rcases shows with ⟨accumulating, flying⟩
  rcases p with ⟨- | existing, - | older⟩
  · rw [Option.getD_none, presentIff_empty] at accumulating flying
    exact presentIff_empty.mpr fun either => either.elim accumulating flying
  · rw [Option.getD_none, presentIff_empty] at accumulating
    exact presentIff_congr flying (or_iff_right accumulating).symm
  · rw [Option.getD_none, presentIff_empty] at flying
    exact presentIff_congr accumulating (or_iff_left flying).symm
  · exact presentIff_mergeOlder accumulating flying

theorem followed_plain {route : Dict String String} {slot : String × ℤ} {kind : List Event → Prop}
    {past : List Event} {e : Event} (unmarked : optionMark route slot e = none) :
    Followed route slot kind (past ++ [e]) ↔ Followed route slot (fun after => kind (after ++ [e])) past := by
  rw [followed_concat, unmarked]
  simp

def Steady (minute : ℤ) (e : Event) : Prop :=
  (∀ now, e = .beginFlush now → ¬ Due minute now) ∧ ∀ succeeds, e ≠ .endOptionWrite succeeds

theorem Steady.flying {minute : ℤ} {e : Event} (steady : Steady minute e) (after : List Event) :
    Flying minute (after ++ [e]) ↔ Flying minute after := by
  rw [flying_concat]
  constructor
  · intro premise
    rcases premise with ⟨now, event, due⟩ | ⟨before, -⟩
    · exact absurd due (steady.1 now event)
    · exact before
  · exact fun before => .inr ⟨before, steady.2⟩

theorem Steady.written {minute : ℤ} {e : Event} (steady : Steady minute e) (after : List Event) :
    Written minute (after ++ [e]) ↔ Written minute after := by
  rw [written_concat]
  exact or_iff_left fun both => steady.2 true both.1

theorem Shows.kept {route : Dict String String} {slot : String × ℤ} {past : List Event} {p : OptionPlace}
    (shows : Shows route slot past p) {e : Event} (unmarked : optionMark route slot e = none)
    (steady : Steady slot.2 e) : Shows route slot (past ++ [e]) p := by
  constructor
  · refine presentIff_congr shows.accumulating ?_
    rw [followed_plain unmarked]
    exact followed_congr (fun after => by rw [steady.flying, steady.written]) past
  · refine presentIff_congr shows.inFlight ?_
    rw [followed_plain unmarked]
    exact followed_congr (fun after => by rw [steady.flying, steady.written]) past

theorem steady_of_mark {route : Dict String String} {slot : String × ℤ} {e : Event} {q : ℚ}
    (usable : optionMark route slot e = some q) : Steady slot.2 e := by
  cases e with
  | quote => exact ⟨fun _ same => (nomatch same), fun _ same => (nomatch same)⟩
  | _ => cases usable

theorem steady_of_greeks {slot : String × ℤ} {e : Event} {greeks : List (Option Number)}
    (received : greeksOf slot e = some greeks) : Steady slot.2 e := by
  cases e with
  | greeks => exact ⟨fun _ same => (nomatch same), fun _ same => (nomatch same)⟩
  | _ => cases received

theorem flying_begin {minute now : ℤ} (due : Due minute now) (after : List Event) :
    Flying minute (after ++ [.beginFlush now]) := flying_concat.mpr (.inl ⟨now, rfl, due⟩)

theorem not_flying_end {minute : ℤ} (after : List Event) (succeeds : Bool) :
    ¬ Flying minute (after ++ [.endOptionWrite succeeds]) := by
  rw [flying_concat]
  intro premise
  rcases premise with ⟨now, event, -⟩ | ⟨-, going⟩
  · cases event
  · exact going succeeds rfl

theorem followed_or {route : Dict String String} {slot : String × ℤ} {one other : List Event → Prop}
    {past : List Event} :
    Followed route slot one past ∨ Followed route slot other past ↔
      Followed route slot (fun after => one after ∨ other after) past := by
  constructor
  · intro premise
    rcases premise with ⟨before, e, after, same, usable, follows⟩ | ⟨before, e, after, same, usable, follows⟩
    · exact ⟨before, e, after, same, usable, .inl follows⟩
    · exact ⟨before, e, after, same, usable, .inr follows⟩
  · intro premise
    rcases premise with ⟨before, e, after, same, usable, follows | follows⟩
    · exact .inl ⟨before, e, after, same, usable, follows⟩
    · exact .inr ⟨before, e, after, same, usable, follows⟩

theorem not_followed {route : Dict String String} {slot : String × ℤ} {kind : List Event → Prop}
    (never : ∀ after, ¬ kind after) (past : List Event) : ¬ Followed route slot kind past := by
  intro premise
  rcases premise with ⟨before, e, after, same, usable, follows⟩
  exact never after follows

theorem Shows.quoted {route : Dict String String} {slot : String × ℤ} {past : List Event} {p : OptionPlace}
    (shows : Shows route slot past p) (idle : p.inFlight = none) :
    PresentIff (Quoted route slot past) (prices (p.accumulating.getD {})) := by
  have nothing := shows.inFlight
  rw [idle, Option.getD_none, presentIff_empty] at nothing
  refine presentIff_congr shows.accumulating ((or_iff_left nothing).symm.trans ?_)
  rw [followed_or]
  exact followed_congr (fun after => by tauto) past

theorem Shows.step {s : Pipeline} {slot : String × ℤ} {e : Event} {past : List Event} {p : OptionPlace}
    (shows : Shows s.streamerToTicker slot past (optionPlace s slot)) (moves : OptionMoves s slot e p) :
    Shows s.streamerToTicker slot (past ++ [e]) p := by
  cases moves with
  | kept unmarked _ early going => exact shows.kept unmarked ⟨early, going⟩
  | marked q bid ask usable _ =>
    have steady := steady_of_mark usable
    constructor
    · apply presentIff_updatePrice
      exact followed_concat.mpr (.inl ⟨Option.isSome_of_eq_some usable, written_nil _, flying_nil _⟩)
    · refine presentIff_congr shows.inFlight ?_
      rw [followed_concat, or_iff_right fun last => flying_nil _ last.2.2]
      exact followed_congr (fun after => by rw [steady.flying, steady.written]) past
  | answered delta gamma theta vega rho iv unmarked received =>
    have kept := shows.kept unmarked (steady_of_greeks received)
    exact ⟨kept.accumulating, kept.inFlight⟩
  | popped now event idle due =>
    subst event
    have going (after : List Event) : Written slot.2 (after ++ [.beginFlush now]) ↔ Written slot.2 after :=
      written_concat.trans (or_iff_left fun both => nomatch both.1)
    constructor
    · rw [Option.getD_none, presentIff_empty, followed_plain rfl]
      exact not_followed (fun after both => both.2 (flying_begin due after)) past
    · refine presentIff_congr (shows.quoted idle) ?_
      rw [followed_plain rfl]
      exact followed_congr (fun after => by rw [going]; exact (and_iff_left (flying_begin due after)).symm) past
  | written event =>
    subst event
    constructor
    · refine presentIff_congr shows.accumulating ?_
      rw [followed_plain rfl]
      refine followed_congr (fun after => ?_) past
      rw [written_concat, and_iff_left (not_flying_end after true)]
      tauto
    · rw [Option.getD_none, presentIff_empty, followed_plain rfl]
      exact not_followed (fun after both => not_flying_end after true both.2) past
  | restored event =>
    subst event
    have going (after : List Event) : Written slot.2 (after ++ [.endOptionWrite false]) ↔ Written slot.2 after :=
      written_concat.trans (or_iff_left fun both => nomatch both.1)
    constructor
    · refine presentIff_congr shows.restored ?_
      rw [followed_or, followed_plain rfl]
      refine followed_congr (fun after => ?_) past
      rw [going, and_iff_left (not_flying_end after false)]
      tauto
    · rw [Option.getD_none, presentIff_empty, followed_plain rfl]
      exact not_followed (fun after both => not_flying_end after false both.2) past

theorem run_shows {symbols : Dict String String} {past : List Event} {s : Pipeline} (slot : String × ℤ)
    (reached : run step (start symbols) past = some s) :
    Shows (start symbols).streamerToTicker slot past (optionPlace s slot) := by
  let holds (past : List Event) (s : Pipeline) : Prop := OptionSound (start symbols).streamerToTicker s ∧
    Shows (start symbols).streamerToTicker slot past (optionPlace s slot)
  have nothing (kind : List Event → Prop) : ¬ Followed (start symbols).streamerToTicker slot kind [] := by
    intro premise
    rcases premise with ⟨before, e, after, same, -⟩
    simp at same
  have initial : holds [] (start symbols) :=
    ⟨⟨rfl, rfl, List.nodup_nil⟩, ⟨presentIff_empty.mpr (nothing _), presentIff_empty.mpr (nothing _)⟩⟩
  have keep (past : List Event) (u : Pipeline) (e : Event) (t : Pipeline) (before : holds past u)
      (taken : step u e = some t) : holds (past ++ [e]) t := by
    rcases before with ⟨sound, shows⟩
    rw [← sound.route] at shows
    have next := shows.step (step_optionMoves sound taken slot)
    rw [sound.route] at next
    exact ⟨sound.step taken, next⟩
  exact (run_history initial keep reached).2

theorem optionTable_stays {s t : Pipeline} {e : Event} (taken : step s e = some t) {key : BarKey}
    {row : OptionBar1m} (stored : s.optionTable.lookup key = some row) : t.optionTable.lookup key = some row := by
  cases e with
  | quote symbol bidPrice askPrice now =>
    cases taken
    rwa [(onQuote_fed s symbol bidPrice askPrice now).optionTable]
  | greeks symbol delta gamma theta vega rho volatility now =>
    cases taken
    rwa [(onOptionGreeks_fed s symbol delta gamma theta vega rho volatility now).optionTable]
  | refresh tracked =>
    cases taken
    exact stored
  | foreign options underlyings =>
    cases taken
    exact (Dict.lookup_insertAll _ _ _).trans (by rw [stored, Option.some_or])
  | beginFlush now =>
    obtain ⟨-, rfl⟩ := beginFlush_taken.mp taken
    exact stored
  | endOptionWrite succeeds =>
    obtain ⟨ready, rows, underlyings, -, -, rfl⟩ := endOptionWrite_taken.mp taken
    cases succeeds with
    | true => exact (Dict.lookup_insertAll _ _ _).trans (by rw [stored, Option.some_or])
    | false => exact stored
  | endUnderlyingWrite succeeds =>
    obtain ⟨ready, -, -, rfl⟩ := endUnderlyingWrite_taken.mp taken
    cases succeeds <;> exact stored

theorem backfill_lookup (contractId : String) (resolved : ResolvedContract) (table : OptionTable)
    (candles : List Candle) (time : ℤ) :
    (backfillOptionContract contractId resolved table candles).1.lookup (contractId, time) =
      (table.lookup (contractId, time)).or
        ((WriteLoop.firstUsable (fun _ => true) time candles).map (optionCandleRow resolved)) := by
  rw [backfillOptionContract_table, WriteLoop.writeAll_lookup]

theorem present_optionRow {p : Prop} (resolved : ResolvedContract) {b : Bucket} (priced : PresentIff p (prices b)) :
    PresentIff p (rowPrices (optionRow resolved b)) := by
  simpa [PresentIff, rowPrices, prices, optionRow] using priced

/-- Each row the live pipeline stores has all four prices when an unwritten quote of its minute was received before
its flush and none of them otherwise, and a later backfill leaves it so. -/
theorem live_rows_priced_iff {symbols : Dict String String} {events : List Event} {s : Pipeline}
    (reached : run step (start symbols) events = some s) :
    (∀ past rest u v key row, events = past ++ .endOptionWrite true :: rest →
      run step (start symbols) past = some u → step u (.endOptionWrite true) = some v →
      u.optionTable.lookup key = none → v.optionTable.lookup key = some row →
      ∃ slot first now during, key = barKey slot ∧ past = first ++ .beginFlush now :: during ∧ Quiet during ∧
        PresentIff (Quoted (start symbols).streamerToTicker slot first) (rowPrices row) ∧
        ∀ resolved candles,
          (backfillOptionContract slot.1 resolved s.optionTable candles).1.lookup key = some row) ∧
    ∀ contractId resolved candles time c, s.optionTable.lookup (contractId, time) = none →
      WriteLoop.firstUsable (fun _ => true) time candles = some c → usableCandle c = true →
      ∃ row, (backfillOptionContract contractId resolved s.optionTable candles).1.lookup (contractId, time) =
        some row ∧ row.close ≠ none := by
  constructor
  · intro past rest u v key row part before taken free stored
    obtain ⟨write, rfl, split⟩ := OptionWrite.exists_of_step part before taken
    obtain ⟨slot, b, resolved, rfl, member, known, -, rfl⟩ :=
      (write.stores_iff key row).mp ⟨free, v, taken, stored⟩
    have idle : (optionPlace write.began slot).inFlight = none := by
      obtain ⟨flushing, begins, -⟩ := run_cons_some.mp write.going
      simp [optionPlace, optionsInFlight, (beginFlush_taken.mp begins).1]
    have priced := (run_shows slot write.reached).quoted idle
    rw [write.mem_popped member, Option.getD_some] at priced
    obtain ⟨w, first, later⟩ := run_append_some.mp (part ▸ reached)
    obtain ⟨x, after, remaining⟩ := run_cons_some.mp later
    cases before.symm.trans first
    cases taken.symm.trans after
    have kept : s.optionTable.lookup (barKey slot) = some (optionRow resolved b) :=
      run_invariant (fun _ _ _ held step => optionTable_stays step held) stored remaining
    refine ⟨slot, write.first, write.now, write.during, rfl, split, write.quiet, present_optionRow resolved priced,
      fun resolved candles => ?_⟩
    rw [barKey, backfill_lookup, ← barKey, kept, Option.some_or]
  · intro contractId resolved candles time c free first usable
    refine ⟨optionCandleRow resolved c, ?_, ?_⟩
    · rw [backfill_lookup, free, Option.none_or, first, Option.map_some]
    · intro missing
      have close : getAttrAny [c.close] = none := Option.map_eq_none_iff.mp missing
      rw [usableCandle, close] at usable
      cases usable

def flushedAfter (e : Event) : List Event :=
  [.refresh (Dict.assign ∅ [("C1", sampleOption)]), e, .beginFlush 70000000, .endOptionWrite true]

def greeksOnly : List Event :=
  flushedAfter (.greeks (some "C1") (some (.val 1)) (some (.val 1)) (some (.val 1)) (some (.val 1)) (some (.val 1))
    none 0)

def shadowed : Candle := { time := some 0, close := some (.val 5) }

theorem greeks_only_row_shadows :
    (¬ ∀ symbols events s key row, (∀ e ∈ events, isForeign e = false) → run step (start symbols) events = some s →
      s.optionTable.lookup key = some row → ∀ value ∈ rowPrices row, value ≠ none) ∧
    ¬ ∀ symbols events s contractId resolved candles time c, (∀ e ∈ events, isForeign e = false) →
      run step (start symbols) events = some s → c ∈ candles → c.time = some time → usableCandle c = true →
      ∃ row, (backfillOptionContract contractId resolved s.optionTable candles).1.lookup (contractId, time) =
        some row ∧ row.close ≠ none := by
  obtain ⟨s, reached⟩ : ∃ s, run step (start ∅) greeksOnly = some s :=
    Option.isSome_iff_exists.mp (by decide +kernel)
  have closes : (run step (start ∅) greeksOnly).bind
      (fun s => (s.optionTable.lookup ("C1", 0)).map OptionBar1m.close) = some none := by decide +kernel
  rw [reached, Option.bind_some] at closes
  obtain ⟨row, stored, missing⟩ := Option.map_eq_some_iff.mp closes
  constructor
  · intro all
    exact all ∅ greeksOnly s ("C1", 0) row (by decide) reached stored row.close (by simp [rowPrices]) missing
  · intro all
    obtain ⟨kept, found, present⟩ := all ∅ greeksOnly s "C1" sampleOption [shadowed] 0 shadowed (by decide) reached
      (by simp) rfl (by decide +kernel)
    rw [backfill_lookup, stored, Option.some_or, Option.some_inj] at found
    exact present (found ▸ missing)

theorem live_rows_priced_iff_quoted :
    ∃ s row first, run step (start ∅) (flushedAfter (.quote (some "C1") (some (.val 10)) (some (.val 12)) 0)) = some s ∧
      PresentIff (Quoted (start ∅).streamerToTicker ("C1", 0) first) (rowPrices row) ∧
      ∀ resolved candles,
        (backfillOptionContract "C1" resolved s.optionTable candles).1.lookup ("C1", 0) = some row := by
  let past : List Event := [.refresh (Dict.assign ∅ [("C1", sampleOption)]),
    .quote (some "C1") (some (.val 10)) (some (.val 12)) 0, .beginFlush 70000000]
  obtain ⟨u, before⟩ : ∃ u, run step (start ∅) past = some u := Option.isSome_iff_exists.mp (by decide +kernel)
  obtain ⟨s, reached⟩ : ∃ s, run step (start ∅) (past ++ [.endOptionWrite true]) = some s :=
    Option.isSome_iff_exists.mp (by decide +kernel)
  obtain ⟨u', before', taken⟩ := run_concat_some.mp reached
  cases before.symm.trans before'
  have free : ((run step (start ∅) past).map fun u => u.optionTable.lookup ("C1", 0)) = some none := by decide +kernel
  have held : ((run step (start ∅) (past ++ [.endOptionWrite true])).map
      fun s => (s.optionTable.lookup ("C1", 0)).isSome) = some true := by decide +kernel
  rw [before, Option.map_some, Option.some_inj] at free
  rw [reached, Option.map_some, Option.some_inj] at held
  obtain ⟨row, stored⟩ := Option.isSome_iff_exists.mp held
  obtain ⟨slot, first, now, during, key, -, -, priced, kept⟩ :=
    (live_rows_priced_iff reached).1 past [] u s ("C1", 0) row rfl before taken free stored
  obtain rfl : ("C1", 0) = slot := barKey_injective key
  exact ⟨s, row, first, reached, priced, kept⟩

end OptionsProof.LivePrices
