import OptionsData.Ingestion.ContractManager

namespace OptionsModel

open Kit

/-- The attributes of a `Candle` event that the writers read; the time is in milliseconds. -/
structure Candle where
  time : Option ℤ
  opening : Option Number := none
  high : Option Number := none
  low : Option Number := none
  close : Option Number := none
  volume : Option Number := none
  impVolatility : Option Number := none
  openInterest : Option Number := none
  vwap : Option Number := none
  bidVolume : Option Number := none
  askVolume : Option Number := none
deriving DecidableEq, Repr

structure WriteLoop (ρ : Type*) where
  table : Dict BarKey ρ
  written : ℕ := 0
  skipped : ℕ := 0
  skippedInvalid : ℕ := 0
  skippedNoTime : ℕ := 0

namespace WriteLoop

variable {ρ : Type*}

def writeOne (identifier : String) (usable : Candle → Bool) (row : Candle → ρ) (s : WriteLoop ρ)
    (candle : Candle) : WriteLoop ρ :=
  match candle.time with
  | none => { s with skippedNoTime := s.skippedNoTime + 1 }
  | some barTime =>
    if (identifier, barTime) ∈ s.table then { s with skipped := s.skipped + 1 }
    else if !usable candle then { s with skippedInvalid := s.skippedInvalid + 1 }
    else { s with table := s.table.insert (identifier, barTime) (row candle), written := s.written + 1 }

def writeAll (identifier : String) (usable : Candle → Bool) (row : Candle → ρ) (table : Dict BarKey ρ)
    (candles : List Candle) : WriteLoop ρ :=
  candles.foldl (writeOne identifier usable row) { table := table }

/-- The candle that a write loop stores for a time: the first one it may write. -/
def firstUsable (usable : Candle → Bool) (time : ℤ) (candles : List Candle) : Option Candle :=
  candles.find? fun candle => candle.time = some time && usable candle

theorem firstUsable_append (usable : Candle → Bool) (time : ℤ) (first second : List Candle) :
    firstUsable usable time (first ++ second) =
      (firstUsable usable time first).or (firstUsable usable time second) :=
  List.find?_append

theorem writeOne_lookup (identifier : String) (usable : Candle → Bool) (row : Candle → ρ) (s : WriteLoop ρ)
    (candle : Candle) (time : ℤ) :
    (writeOne identifier usable row s candle).table.lookup (identifier, time) =
      (s.table.lookup (identifier, time)).or ((firstUsable usable time [candle]).map row) := by
  unfold writeOne
  cases at_ : candle.time with
  | none => simp [firstUsable, at_]
  | some barTime =>
    by_cases same : barTime = time
    · subst same
      by_cases stored : (identifier, barTime) ∈ s.table
      · obtain ⟨kept, found⟩ := (Dict.mem_iff _ _).mp stored
        simp [stored, found]
      · have absent := AList.lookup_eq_none.mpr stored
        cases ok : usable candle <;> simp [stored, absent, ok, firstUsable, at_]
    · have other : (identifier, time) ≠ (identifier, barTime) := fun equal => same (Prod.mk.inj equal).2.symm
      have unlisted : firstUsable usable time [candle] = none := by simp [firstUsable, at_, same]
      rw [unlisted, Option.map_none, Option.or_none]
      dsimp only
      split
      · rfl
      · split
        · rfl
        · exact (Dict.lookup_insert _ _ _ _).trans (if_neg other)

theorem writeAll_lookup (identifier : String) (usable : Candle → Bool) (row : Candle → ρ) (table : Dict BarKey ρ)
    (candles : List Candle) (time : ℤ) :
    (writeAll identifier usable row table candles).table.lookup (identifier, time) =
      (table.lookup (identifier, time)).or ((firstUsable usable time candles).map row) := by
  suffices general : ∀ s : WriteLoop ρ,
      (candles.foldl (writeOne identifier usable row) s).table.lookup (identifier, time) =
        (s.table.lookup (identifier, time)).or ((firstUsable usable time candles).map row) from
    general { table := table }
  intro s
  induction candles generalizing s with
  | nil => simp [firstUsable]
  | cons candle candles ih =>
    have listed := firstUsable_append usable time [candle] candles
    rw [List.singleton_append] at listed
    rw [List.foldl_cons, ih, writeOne_lookup, listed, Option.map_or, Option.or_assoc]

theorem writeAll_other {identifier other : String} (different : other ≠ identifier) (usable : Candle → Bool)
    (row : Candle → ρ) (table : Dict BarKey ρ) (candles : List Candle) (time : ℤ) :
    (writeAll identifier usable row table candles).table.lookup (other, time) = table.lookup (other, time) := by
  suffices general : ∀ s : WriteLoop ρ,
      (candles.foldl (writeOne identifier usable row) s).table.lookup (other, time) = s.table.lookup (other, time) from
    general { table := table }
  intro s
  induction candles generalizing s with
  | nil => rfl
  | cons candle candles ih =>
    rw [List.foldl_cons, ih, writeOne]
    cases candle.time with
    | none => rfl
    | some barTime =>
      dsimp only
      split
      · rfl
      · split
        · rfl
        · exact (Dict.lookup_insert _ _ _ _).trans (if_neg fun equal => different (Prod.mk.inj equal).1)

/-- Whether a pass can commit: `_candle_time` makes a `datetime` of each candle's time, and each row that the loop adds
fits its columns. Where not, it raises, and its transaction is rolled back. -/
def commits (identifier : String) (usable : Candle → Bool) (row : Candle → ρ) (fits : ρ → Bool) (table : Dict BarKey ρ)
    (candles : List Candle) : Bool :=
  candles.all fun candle => candle.time.all fun time => (UtcDateTime.fromTimestamp time).isSome &&
    (decide ((identifier, time) ∈ table) || (firstUsable usable time candles).all fun first => fits (row first))

theorem commits_iff {identifier : String} {usable : Candle → Bool} {row : Candle → ρ} {fits : ρ → Bool}
    {table : Dict BarKey ρ} {candles : List Candle} :
    commits identifier usable row fits table candles = true ↔
      ∀ candle ∈ candles, ∀ time, candle.time = some time → (UtcDateTime.fromTimestamp time).isSome ∧
        ((identifier, time) ∈ table ∨ ∀ first, firstUsable usable time candles = some first → fits (row first)) := by
  simp only [commits, List.all_eq_true, Option.all_eq_true, Bool.and_eq_true, Bool.or_eq_true, decide_eq_true_eq]

theorem writeAll_idle {identifier : String} {usable : Candle → Bool} {row : Candle → ρ} {table : Dict BarKey ρ}
    {candles : List Candle}
    (idle : ∀ candle ∈ candles, ∀ time, candle.time = some time → (identifier, time) ∈ table ∨ usable candle = false) :
    (writeAll identifier usable row table candles).table = table ∧
      (writeAll identifier usable row table candles).written = 0 := by
  suffices general : ∀ s : WriteLoop ρ, s.table = table →
      (candles.foldl (writeOne identifier usable row) s).table = table ∧
        (candles.foldl (writeOne identifier usable row) s).written = s.written from
    general { table := table } rfl
  intro s same
  induction candles generalizing s with
  | nil => exact ⟨same, rfl⟩
  | cons candle candles ih =>
    have first : (writeOne identifier usable row s candle).table = table ∧
        (writeOne identifier usable row s candle).written = s.written := by
      rw [writeOne]
      cases at_ : candle.time with
      | none => exact ⟨same, rfl⟩
      | some time =>
        dsimp only
        rcases idle candle List.mem_cons_self time at_ with stored | unusable
        · rw [if_pos (same ▸ stored)]
          exact ⟨same, rfl⟩
        · rw [unusable]
          split
          · exact ⟨same, rfl⟩
          · exact ⟨same, rfl⟩
    obtain ⟨kept, written⟩ := ih (fun later member => idle later (List.mem_cons_of_mem _ member)) _ first.1
    exact ⟨kept, written.trans first.2⟩

theorem writeAll_written {identifier : String} (usable : Candle → Bool) (row : Candle → ρ)
    {table other : Dict BarKey ρ} (same : ∀ time, (identifier, time) ∈ table ↔ (identifier, time) ∈ other)
    (candles : List Candle) :
    (writeAll identifier usable row table candles).written =
      (writeAll identifier usable row other candles).written := by
  suffices general : ∀ s t : WriteLoop ρ, s.written = t.written →
      (∀ time, (identifier, time) ∈ s.table ↔ (identifier, time) ∈ t.table) →
        (candles.foldl (writeOne identifier usable row) s).written =
          (candles.foldl (writeOne identifier usable row) t).written from
    general { table := table } { table := other } rfl same
  intro s t written same
  induction candles generalizing s t with
  | nil => exact written
  | cons candle candles ih =>
    rw [List.foldl_cons, List.foldl_cons]
    apply ih
    all_goals unfold writeOne
    all_goals cases candle.time with
      | none => assumption
      | some barTime =>
        dsimp only
        simp only [same barTime]
        split
        · assumption
        · split
          · assumption
          · simp only [Dict.mem_insert, same, written, implies_true]

end WriteLoop

def underlyingCandleRow (candle : Candle) : UnderlyingBar1m where
  opening := (getAttrAny [candle.opening]).map (.numeric 4)
  high := (getAttrAny [candle.high]).map (.numeric 4)
  low := (getAttrAny [candle.low]).map (.numeric 4)
  close := (getAttrAny [candle.close]).map (.numeric 4)
  volume := (getAttrAny [candle.volume]).map .bigInteger

def optionCandleRow (resolved : ResolvedContract) (candle : Candle) : OptionBar1m where
  underlyingTicker := resolved.underlyingTicker
  expirationDate := resolved.expirationDate
  strike := resolved.strike
  right := resolved.right
  opening := (getAttrAny [candle.opening]).map (.numeric 4)
  high := (getAttrAny [candle.high]).map (.numeric 4)
  low := (getAttrAny [candle.low]).map (.numeric 4)
  close := (getAttrAny [candle.close]).map (.numeric 4)
  iv := (getAttrAny [candle.impVolatility]).map (.numeric 6)
  volume := (getAttrAny [candle.volume]).map .bigInteger
  openInterest := (getAttrAny [candle.openInterest]).map .bigInteger
  vwap := (getAttrAny [candle.vwap]).map (.numeric 6)
  bidVolume := (getAttrAny [candle.bidVolume]).map .bigInteger
  askVolume := (getAttrAny [candle.askVolume]).map .bigInteger

def usableCandle (candle : Candle) : Bool := closeOk (getAttrAny [candle.close])

/-- `live_underlying.poll_ticker` where it commits: the table, and what was written, already stored and received. -/
def pollTicker (ticker : String) (table : UnderlyingTable) (candles : List Candle) : UnderlyingTable × ℕ × ℕ × ℕ :=
  if candles = [] then (table, 0, 0, 0)
  else
    let loop := WriteLoop.writeAll ticker usableCandle underlyingCandleRow table candles
    (loop.table, loop.written, loop.skipped, candles.length)

/-- A pass that commits. -/
def backfillUnderlying (ticker : String) (table : UnderlyingTable) (candles : List Candle) : UnderlyingTable × ℕ :=
  if candles = [] then (table, 0)
  else
    let loop := WriteLoop.writeAll ticker usableCandle underlyingCandleRow table candles
    (loop.table, loop.written)

/-- `none` where `_backfill_underlying` raises. -/
def tryBackfillUnderlying (ticker : String) (table : UnderlyingTable) (candles : List Candle) :
    Option (UnderlyingTable × ℕ) :=
  if WriteLoop.commits ticker usableCandle underlyingCandleRow UnderlyingBar1m.fits table candles then
    some (backfillUnderlying ticker table candles)
  else none

/-- A pass that commits; an option candle is written whatever its close is. -/
def backfillOptionContract (contractId : String) (resolved : ResolvedContract) (table : OptionTable)
    (candles : List Candle) : OptionTable × ℕ :=
  if candles = [] then (table, 0)
  else
    let loop := WriteLoop.writeAll contractId (fun _ => true) (optionCandleRow resolved) table candles
    (loop.table, loop.written)

/-- `none` where `_backfill_option_contract` raises. -/
def tryBackfillOptionContract (contractId : String) (resolved : ResolvedContract) (table : OptionTable)
    (candles : List Candle) : Option (OptionTable × ℕ) :=
  if WriteLoop.commits contractId (fun _ => true) (optionCandleRow resolved) OptionBar1m.fits table candles then
    some (backfillOptionContract contractId resolved table candles)
  else none

theorem pollTicker_table (ticker : String) (table : UnderlyingTable) (candles : List Candle) :
    (pollTicker ticker table candles).1 =
      (WriteLoop.writeAll ticker usableCandle underlyingCandleRow table candles).table := by
  unfold pollTicker
  split
  · next empty => rw [empty]; rfl
  · rfl

theorem backfillUnderlying_table (ticker : String) (table : UnderlyingTable) (candles : List Candle) :
    (backfillUnderlying ticker table candles).1 =
      (WriteLoop.writeAll ticker usableCandle underlyingCandleRow table candles).table := by
  unfold backfillUnderlying
  split
  · next empty => rw [empty]; rfl
  · rfl

theorem backfillOptionContract_table (contractId : String) (resolved : ResolvedContract) (table : OptionTable)
    (candles : List Candle) :
    (backfillOptionContract contractId resolved table candles).1 =
      (WriteLoop.writeAll contractId (fun _ => true) (optionCandleRow resolved) table candles).table := by
  unfold backfillOptionContract
  split
  · next empty => rw [empty]; rfl
  · rfl

theorem backfillOptionContract_written (contractId : String) (resolved : ResolvedContract) (table : OptionTable)
    (candles : List Candle) :
    (backfillOptionContract contractId resolved table candles).2 =
      (WriteLoop.writeAll contractId (fun _ => true) (optionCandleRow resolved) table candles).written := by
  unfold backfillOptionContract
  split
  · next empty => rw [empty]; rfl
  · rfl

end OptionsModel
