import OptionsData.Ingestion.BackfillJob

namespace OptionsProof.BackfillRuns

open Kit OptionsModel OptionsModel.WriteLoop

structure Series (ρ : Type*) where
  key : String
  usable : Candle → Bool
  row : Candle → ρ
  fits : ρ → Bool

def optionSeries (contractId : String) (resolved : ResolvedContract) : Series OptionBar1m :=
  ⟨contractId, fun _ => true, optionCandleRow resolved, OptionBar1m.fits⟩

def underlyingSeries (ticker : String) : Series UnderlyingBar1m :=
  ⟨ticker, usableCandle, underlyingCandleRow, UnderlyingBar1m.fits⟩

variable {ρ : Type*} {usable : Candle → Bool} {table : Dict BarKey ρ} {windowStart : ℤ} {feed : String → List Candle}
  {s : Series ρ}

def Series.commits (s : Series ρ) (table : Dict BarKey ρ) (answer : List Candle) : Bool :=
  WriteLoop.commits s.key s.usable s.row s.fits table answer

def Series.Writes (s : Series ρ) (table : Dict BarKey ρ) (answer : List Candle) (minute : ℤ) : Prop :=
  s.commits table answer = true ∧ (firstUsable s.usable minute answer).isSome ∧ (s.key, minute) ∉ table

def Series.pass (s : Series ρ) (table : Dict BarKey ρ) (answer : List Candle) : Dict BarKey ρ :=
  if s.commits table answer then (writeAll s.key s.usable s.row table answer).table else table

def times (candles : List Candle) : List ℤ := candles.filterMap Candle.time

/-- The full pass writes the minute, and the incremental one does not ask for it: its run has ended by then, or the key
has a newer bar. -/
def Overlooked (unasked : Prop) (windowStart : ℤ) (candles : List Candle) (table : Dict BarKey ρ) (s : Series ρ)
    (minute : ℤ) : Prop :=
  s.Writes table (candlesFrom candles windowStart) minute ∧
    (unasked ∨ ∃ newest ∈ latestBar table s.key, minute < newest)

/-- The incremental pass writes the minute, and the full one raises. -/
def Spared (unasked : Prop) (windowStart : ℤ) (candles : List Candle) (table : Dict BarKey ρ) (s : Series ρ)
    (minute : ℤ) : Prop :=
  ¬ unasked ∧ s.commits table (candlesFrom candles windowStart) = false ∧
    s.Writes table (candlesFrom candles (effectiveStartTimes false table windowStart s.key)) minute

theorem firstUsable_candlesFrom (minute start : ℤ) (candles : List Candle) :
    firstUsable usable minute (candlesFrom candles start) =
      if start ≤ minute then firstUsable usable minute candles else none := by
  rw [firstUsable, candlesFrom, List.find?_filter]
  split
  · next requested =>
    apply congrArg (List.find? · candles)
    funext candle
    by_cases at_ : candle.time = some minute
    · simp [at_, requested]
    · simp [at_]
  · next early =>
    rw [List.find?_eq_none]
    intro candle _
    by_cases at_ : candle.time = some minute
    · simp [at_, early]
    · simp [at_]

theorem effectiveStart_le {key : String} {minute : ℤ} :
    effectiveStartTimes false table windowStart key ≤ minute ↔
      windowStart ≤ minute ∧ ∀ newest ∈ latestBar table key, newest ≤ minute := by
  rw [effectiveStartTimes, if_neg (by simp)]
  cases latestBar table key <;> simp

theorem mem_pass {answer : List Candle} {minute : ℤ} : (s.key, minute) ∈ s.pass table answer ↔
    (s.key, minute) ∈ table ∨ s.Writes table answer minute := by
  unfold Series.pass Series.Writes
  by_cases stored : (s.key, minute) ∈ table
  · refine iff_of_true ?_ (.inl stored)
    split
    · obtain ⟨row, found⟩ := (Dict.mem_iff _ _).mp stored
      exact (Dict.mem_iff _ _).mpr ⟨row, by rw [writeAll_lookup, found, Option.some_or]⟩
    · exact stored
  · split
    · next commits =>
      rw [← AList.lookup_isSome, writeAll_lookup, Option.isSome_or, Bool.or_eq_true, AList.lookup_isSome,
        Option.isSome_map]
      simp [commits, stored]
    · next raises => simp [raises, stored]

theorem pass_keeps {answer : List Candle} {key : BarKey} {row : ρ} (stored : table.lookup key = some row) :
    (s.pass table answer).lookup key = some row := by
  obtain ⟨identifier, minute⟩ := key
  unfold Series.pass
  split
  · by_cases own : identifier = s.key
    · subst own
      rw [writeAll_lookup, stored, Option.some_or]
    · rw [writeAll_other own, stored]
  · exact stored

theorem pass_other {answer : List Candle} {other : String} (different : other ≠ s.key) (minute : ℤ) :
    (s.pass table answer).lookup (other, minute) = table.lookup (other, minute) := by
  unfold Series.pass
  split
  · exact writeAll_other different ..
  · rfl

theorem commits_congr {table table' : Dict BarKey ρ}
    (same : ∀ minute, (s.key, minute) ∈ table ↔ (s.key, minute) ∈ table') (answer : List Candle) :
    s.commits table answer = s.commits table' answer := by
  simp only [Series.commits, WriteLoop.commits, same]

theorem pass_congr {table table' : Dict BarKey ρ} {answer : List Candle} {minute : ℤ}
    (same : ∀ minute, table.lookup (s.key, minute) = table'.lookup (s.key, minute)) :
    (s.pass table answer).lookup (s.key, minute) = (s.pass table' answer).lookup (s.key, minute) := by
  have members (minute : ℤ) : (s.key, minute) ∈ table ↔ (s.key, minute) ∈ table' := by
    rw [← AList.lookup_isSome, ← AList.lookup_isSome, same]
  unfold Series.pass
  rw [commits_congr members]
  split
  · rw [writeAll_lookup, writeAll_lookup, same]
  · exact same minute

def writeSeries (answer : String → List Candle) (series : List (Series ρ)) (table : Dict BarKey ρ) : Dict BarKey ρ :=
  series.foldl (fun table s => s.pass table (answer s.key)) table

theorem writeSeries_other {answer : String → List Candle} {series : List (Series ρ)} {key : String}
    (unlisted : key ∉ series.map Series.key) (table : Dict BarKey ρ) (minute : ℤ) :
    (writeSeries answer series table).lookup (key, minute) = table.lookup (key, minute) := by
  induction series generalizing table with
  | nil => rfl
  | cons s series ih =>
    rw [List.map_cons, List.mem_cons, not_or] at unlisted
    rw [writeSeries, List.foldl_cons, ← writeSeries, ih unlisted.2, pass_other unlisted.1]

theorem writeSeries_own {answer : String → List Candle} {series : List (Series ρ)}
    (distinct : (series.map Series.key).Nodup) (member : s ∈ series) (table : Dict BarKey ρ) (minute : ℤ) :
    (writeSeries answer series table).lookup (s.key, minute) =
      (s.pass table (answer s.key)).lookup (s.key, minute) := by
  induction series generalizing table with
  | nil => cases member
  | cons first series ih =>
    rw [List.map_cons, List.nodup_cons] at distinct
    rw [writeSeries, List.foldl_cons, ← writeSeries]
    rcases List.mem_cons.mp member with rfl | later
    · rw [writeSeries_other distinct.1]
    · have different : s.key ≠ first.key := fun same => distinct.1 (same ▸ List.mem_map_of_mem later)
      rw [ih distinct.2 later]
      exact pass_congr fun minute => pass_other different minute

theorem mem_writeSeries {answer : String → List Candle} {series : List (Series ρ)}
    (distinct : (series.map Series.key).Nodup) {key : String} {minute : ℤ} :
    (key, minute) ∈ writeSeries answer series table ↔ (key, minute) ∈ table ∨
      ∃ s ∈ series, s.key = key ∧ s.Writes table (answer key) minute := by
  rw [← AList.lookup_isSome]
  by_cases listed : key ∈ series.map Series.key
  · obtain ⟨s, member, rfl⟩ := List.mem_map.mp listed
    rw [writeSeries_own distinct member, AList.lookup_isSome, mem_pass]
    refine or_congr_right ⟨fun writes => ⟨s, member, rfl, writes⟩, fun premise => ?_⟩
    obtain ⟨other, member', same, writes⟩ := premise
    exact List.inj_on_of_nodup_map distinct member' member same ▸ writes
  · rw [writeSeries_other listed, AList.lookup_isSome]
    refine (or_iff_left fun premise => ?_).symm
    obtain ⟨s, member, rfl, -⟩ := premise
    exact listed (List.mem_map_of_mem member)

def answerTo (fullRescan : Bool) (windowStart : ℤ) (feed : String → List Candle) (table : Dict BarKey ρ)
    (key : String) : List Candle :=
  candlesFrom (feed key) (effectiveStartTimes fullRescan table windowStart key)

theorem windowStart_le (fullRescan : Bool) (key : String) :
    windowStart ≤ effectiveStartTimes fullRescan table windowStart key := by
  unfold effectiveStartTimes
  split
  · exact le_rfl
  · cases latestBar table key with
    | none => exact le_rfl
    | some newest => exact le_max_left _ _

theorem firstUsable_narrow {start minute : ℤ} {candles : List Candle} (wider : windowStart ≤ start)
    (asked : start ≤ minute) : firstUsable usable minute (candlesFrom candles start) =
      firstUsable usable minute (candlesFrom candles windowStart) := by
  rw [firstUsable_candlesFrom, firstUsable_candlesFrom, if_pos asked, if_pos (wider.trans asked)]

theorem commits_narrow {start : ℤ} {candles : List Candle} (wider : windowStart ≤ start)
    (commits : s.commits table (candlesFrom candles windowStart) = true) :
    s.commits table (candlesFrom candles start) = true := by
  refine WriteLoop.commits_iff.mpr fun candle member time at_ => ?_
  obtain ⟨listed, asked⟩ := List.mem_filter.mp member
  have later : start ≤ time := by simpa [at_] using asked
  have early : candle ∈ candlesFrom candles windowStart :=
    List.mem_filter.mpr ⟨listed, by simpa [at_] using wider.trans later⟩
  rw [firstUsable_narrow wider later]
  exact WriteLoop.commits_iff.mp commits candle early time at_

theorem requested {start minute : ℤ} {candles : List Candle}
    (found : (firstUsable usable minute (candlesFrom candles start)).isSome) : start ≤ minute := by
  by_contra early
  rw [firstUsable_candlesFrom, if_neg early] at found
  cases found

theorem pass_none {answer : List Candle} {minute : ℤ} (absent : (s.key, minute) ∉ table)
    (idle : ¬ s.Writes table answer minute) : (s.pass table answer).lookup (s.key, minute) = none := by
  rw [AList.lookup_eq_none, mem_pass]
  exact not_or.mpr ⟨absent, idle⟩

/-- The two passes over one key leave it alike exactly if neither writes a minute that the other does not. -/
theorem pass_same_iff (unasked : Prop) [Decidable unasked] (windowStart : ℤ) (candles : List Candle)
    (table : Dict BarKey ρ) (s : Series ρ) :
    (∀ minute, (if unasked then table else s.pass table
        (candlesFrom candles (effectiveStartTimes false table windowStart s.key))).lookup (s.key, minute) =
      (s.pass table (candlesFrom candles windowStart)).lookup (s.key, minute)) ↔
    ∀ minute, ¬ Overlooked unasked windowStart candles table s minute ∧
      ¬ Spared unasked windowStart candles table s minute := by
  have wider : windowStart ≤ effectiveStartTimes false table windowStart s.key := windowStart_le false s.key
  refine forall_congr' fun minute => ⟨fun same => ⟨fun overlooked => ?_, fun spared => ?_⟩, fun neither => ?_⟩
  · obtain ⟨full, newer⟩ := overlooked
    have written := mem_pass.mpr (.inr full)
    rw [← AList.lookup_isSome, ← same, AList.lookup_isSome] at written
    split at written
    · exact full.2.2 written
    · next asked =>
      rcases mem_pass.mp written with stored | ⟨-, found, -⟩
      · exact full.2.2 stored
      · obtain ⟨newest, listed, older⟩ := newer.resolve_left asked
        exact absurd ((effectiveStart_le.mp (requested found)).2 newest listed) (not_le.mpr older)
  · obtain ⟨asked, raises, writes⟩ := spared
    have written := mem_pass.mpr (.inr writes)
    rw [if_neg asked] at same
    rw [← AList.lookup_isSome, same, AList.lookup_isSome, Series.pass, raises] at written
    exact writes.2.2 written
  · by_cases stored : (s.key, minute) ∈ table
    · obtain ⟨row, found⟩ := (Dict.mem_iff _ _).mp stored
      rw [pass_keeps found]
      split
      · exact found
      · exact pass_keeps found
    · by_cases full : s.Writes table (candlesFrom candles windowStart) minute
      · have covered := not_and.mp neither.1 full
        rw [not_or] at covered
        have asked : effectiveStartTimes false table windowStart s.key ≤ minute := by
          refine effectiveStart_le.mpr ⟨requested full.2.1, fun newest listed => ?_⟩
          by_contra older
          exact covered.2 ⟨newest, listed, not_le.mp older⟩
        rw [if_neg covered.1, Series.pass, Series.pass, if_pos full.1, if_pos (commits_narrow wider full.1),
          writeAll_lookup, writeAll_lookup, firstUsable_narrow wider asked]
      · rw [pass_none stored full]
        split
        · exact AList.lookup_eq_none.mpr stored
        · next asked =>
          refine pass_none stored fun writes => ?_
          cases commits : s.commits table (candlesFrom candles windowStart) with
          | false => exact neither.2 ⟨asked, commits, writes⟩
          | true =>
            have found := writes.2.1
            rw [firstUsable_narrow wider (requested found)] at found
            exact full ⟨commits, found, stored⟩

theorem writeSeries_same_iff (unasked : Prop) [Decidable unasked] (windowStart : ℤ) (feed : String → List Candle)
    (table : Dict BarKey ρ) {series : List (Series ρ)} (distinct : (series.map Series.key).Nodup) :
    (∀ key, (if unasked then table else writeSeries (answerTo false windowStart feed table) series table).lookup key =
      (writeSeries (answerTo true windowStart feed table) series table).lookup key) ↔
    ∀ s ∈ series, ∀ minute, ¬ Overlooked unasked windowStart (feed s.key) table s minute ∧
      ¬ Spared unasked windowStart (feed s.key) table s minute := by
  have own (s : Series ρ) (member : s ∈ series) (minute : ℤ) :
      (if unasked then table else writeSeries (answerTo false windowStart feed table) series table).lookup
        (s.key, minute) = (if unasked then table else s.pass table
          (candlesFrom (feed s.key) (effectiveStartTimes false table windowStart s.key))).lookup (s.key, minute) := by
    split
    · rfl
    · exact writeSeries_own distinct member table minute
  constructor
  · intro same s member
    refine (pass_same_iff unasked windowStart (feed s.key) table s).mp fun minute => ?_
    rw [← own s member, same, writeSeries_own distinct member]
    rfl
  · intro neither bar
    obtain ⟨key, minute⟩ := bar
    by_cases listed : key ∈ series.map Series.key
    · obtain ⟨s, member, rfl⟩ := List.mem_map.mp listed
      rw [own s member, (pass_same_iff unasked windowStart (feed s.key) table s).mpr (neither s member),
        writeSeries_own distinct member]
      rfl
    · rw [writeSeries_other listed]
      split
      · rfl
      · exact writeSeries_other listed table minute

/-- The later run begins later, and a minute that is new in its feed is newer than all that were there. -/
structure Follows (earlier later : BackfillRun) : Prop where
  windowStart : earlier.windowStart ≤ later.windowStart
  minutes : ∀ key, ∀ minute ∈ times (later.feed key), minute ∈ times (earlier.feed key) ∨
    ∀ other ∈ times (earlier.feed key), other < minute

def afterAll (history : List BackfillRun) : BarTables := history.foldl (fun tables r => r.run tables) {}

/-- Some run of the history has found only unusable candles for the minute. -/
def Skipped (usable : Candle → Bool) (history : List BackfillRun) (key : String) (minute : ℤ) : Prop :=
  ∃ r ∈ history, minute ∈ times (r.feed key) ∧ firstUsable usable minute (r.feed key) = none

/-- Below each stored bar the run that stored it has left out no minute of its feed but those that some run skipped. -/
def Filled (usable : Candle → Bool) (history : List BackfillRun) (table : Dict BarKey ρ) : Prop :=
  ∀ key newest, (key, newest) ∈ table → ∃ r ∈ history, newest ∈ times (r.feed key) ∧
    ∀ minute ∈ times (r.feed key), r.windowStart ≤ minute → minute ≤ newest →
      (key, minute) ∈ table ∨ Skipped usable history key minute

variable {history : List BackfillRun} {r : BackfillRun}

theorem Skipped.mono {key : String} {minute : ℤ} (skipped : Skipped usable history key minute) :
    Skipped usable (history ++ [r]) key minute := by
  obtain ⟨past, member, found⟩ := skipped
  exact ⟨past, List.mem_append_left _ member, found⟩

theorem mem_times {minute : ℤ} {candles : List Candle} (found : (firstUsable usable minute candles).isSome) :
    minute ∈ times candles := by
  obtain ⟨candle, first⟩ := Option.isSome_iff_exists.mp found
  have meets := List.find?_some first
  simp only [Bool.and_eq_true, decide_eq_true_eq] at meets
  exact List.mem_filterMap.mpr ⟨candle, List.mem_of_find?_eq_some first, meets.1⟩

theorem firstUsable_all {minute : ℤ} {candles : List Candle} (listed : minute ∈ times candles) :
    firstUsable (fun _ => true) minute candles ≠ none := by
  obtain ⟨candle, member, at_⟩ := List.mem_filterMap.mp listed
  intro none_
  exact List.find?_eq_none.mp none_ candle member (by simp [at_])

theorem Filled.covers {key : String} {minute newest : ℤ} (filled : Filled usable history table)
    (steady : (history ++ [r]).Pairwise Follows) (requested : r.windowStart ≤ minute)
    (listed : minute ∈ times (r.feed key)) (stored : (key, newest) ∈ table) (older : minute ≤ newest) :
    (key, minute) ∈ table ∨ Skipped usable history key minute := by
  obtain ⟨past, member, there, below⟩ := filled key newest stored
  have follows : Follows past r := (List.pairwise_append.mp steady).2.2 past member r (List.mem_singleton_self r)
  rcases follows.minutes key minute listed with known | newer
  · exact below minute known (follows.windowStart.trans requested) older
  · exact absurd (newer newest there) (not_lt.mpr older)

theorem Filled.mono (filled : Filled usable history table) : Filled usable (history ++ [r]) table := by
  intro key newest stored
  obtain ⟨past, member, there, below⟩ := filled key newest stored
  refine ⟨past, List.mem_append_left _ member, there, fun minute listed requested older => ?_⟩
  exact (below minute listed requested older).imp_right Skipped.mono

theorem Filled.write {series : List (Series ρ)} (filled : Filled usable history table)
    (steady : (history ++ [r]).Pairwise Follows) (distinct : (series.map Series.key).Nodup)
    (alike : ∀ s ∈ series, s.usable = usable) :
    Filled usable (history ++ [r])
      (writeSeries (answerTo r.fullRescan r.windowStart r.feed table) series table) := by
  intro key newest stored
  have kept {minute : ℤ} (before : (key, minute) ∈ table) :
      (key, minute) ∈ writeSeries (answerTo r.fullRescan r.windowStart r.feed table) series table :=
    (mem_writeSeries distinct).mpr (.inl before)
  rcases (mem_writeSeries distinct).mp stored with before | ⟨s, member, rfl, commits, written, -⟩
  · obtain ⟨past, member, there, below⟩ := filled.mono (r := r) key newest before
    exact ⟨past, member, there, fun minute listed requested older =>
      (below minute listed requested older).imp_left kept⟩
  · rw [alike s member, answerTo, firstUsable_candlesFrom] at written
    refine ⟨r, by simp, ?_, fun minute listed requested older => ?_⟩
    · split at written
      · exact mem_times written
      · cases written
    · by_cases skipped : firstUsable usable minute (r.feed s.key) = none
      · exact .inr ⟨r, by simp, listed, skipped⟩
      · by_cases before : (s.key, minute) ∈ table
        · exact .inl (kept before)
        · by_cases asked : effectiveStartTimes r.fullRescan table r.windowStart s.key ≤ minute
          · refine .inl ((mem_writeSeries distinct).mpr (.inr ⟨s, member, rfl, commits, ?_, before⟩))
            rw [alike s member, answerTo, firstUsable_candlesFrom, if_pos asked]
            exact Option.isSome_iff_ne_none.mpr skipped
          · cases full : r.fullRescan with
            | true => exact absurd requested (by rwa [full] at asked)
            | false =>
              rw [full, effectiveStart_le, not_and] at asked
              have newer := asked requested
              push Not at newer
              obtain ⟨latest, found, later⟩ := newer
              rcases filled.covers steady requested listed (mem_latestBar.mp found).1 later.le with held | skipped
              · exact .inl ((mem_writeSeries distinct).mpr (.inl held))
              · exact .inr skipped.mono

def optionsOf (r : BackfillRun) : List (Series OptionBar1m) :=
  r.candidates.items.map fun entry => optionSeries entry.1 entry.2

def underlyingsOf (r : BackfillRun) : List (Series UnderlyingBar1m) := r.underlyingTickers.map underlyingSeries

theorem optionsOf_distinct (r : BackfillRun) : ((optionsOf r).map Series.key).Nodup := by
  rw [optionsOf, List.map_map]
  exact r.candidates.items_nodup

theorem underlyingsOf_distinct (r : BackfillRun) : ((underlyingsOf r).map Series.key).Nodup := by
  have keys : (underlyingsOf r).map Series.key = r.underlyingTickers := by
    rw [underlyingsOf, List.map_map]
    exact List.map_id _
  exact keys ▸ r.distinct

theorem pass_option (contractId : String) (resolved : ResolvedContract) (table : OptionTable) (answer : List Candle) :
    ((tryBackfillOptionContract contractId resolved table answer).map Prod.fst).getD table =
      (optionSeries contractId resolved).pass table answer := by
  show _ = if WriteLoop.commits contractId (fun _ => true) (optionCandleRow resolved) OptionBar1m.fits table answer then
    (writeAll contractId (fun _ => true) (optionCandleRow resolved) table answer).table else table
  rw [← backfillOptionContract_table, tryBackfillOptionContract]
  split <;> rfl

theorem pass_underlying (ticker : String) (table : UnderlyingTable) (answer : List Candle) :
    ((tryBackfillUnderlying ticker table answer).map Prod.fst).getD table =
      (underlyingSeries ticker).pass table answer := by
  show _ = if WriteLoop.commits ticker usableCandle underlyingCandleRow UnderlyingBar1m.fits table answer then
    (writeAll ticker usableCandle underlyingCandleRow table answer).table else table
  rw [← backfillUnderlying_table, tryBackfillUnderlying]
  split <;> rfl

theorem run_options (r : BackfillRun) (tables : BarTables) : (r.run tables).options =
    if r.startsRaise r.candidates.keys then tables.options
    else writeSeries (answerTo r.fullRescan r.windowStart r.feed tables.options) (optionsOf r) tables.options := by
  unfold BackfillRun.run
  split
  · rfl
  · rw [writeSeries, optionsOf, List.foldl_map]
    simp only [pass_option, answerTo]
    rfl

theorem run_underlyings (r : BackfillRun) (tables : BarTables) : (r.run tables).underlyings =
    if r.startsRaise r.candidates.keys || r.startsRaise r.underlyingTickers then tables.underlyings
    else writeSeries (answerTo r.fullRescan r.windowStart r.feed tables.underlyings) (underlyingsOf r)
      tables.underlyings := by
  unfold BackfillRun.run
  cases r.startsRaise r.candidates.keys with
  | true => rfl
  | false =>
    cases r.startsRaise r.underlyingTickers with
    | true => rfl
    | false =>
      rw [writeSeries, underlyingsOf, List.foldl_map]
      simp only [Bool.false_eq_true, if_false, Bool.or_self, pass_underlying, answerTo]
      rfl

theorem filled_afterAll (steady : history.Pairwise Follows) :
    Filled (fun _ => true) history (afterAll history).options ∧
      Filled usableCandle history (afterAll history).underlyings := by
  induction history using List.reverseRecOn with
  | nil => exact ⟨fun _ _ stored => absurd stored (AList.notMem_empty _),
      fun _ _ stored => absurd stored (AList.notMem_empty _)⟩
  | append_singleton history r ih =>
    obtain ⟨options, underlyings⟩ := ih (List.pairwise_append.mp steady).1
    have last : afterAll (history ++ [r]) = r.run (afterAll history) := List.foldl_append ..
    rw [last, run_options, run_underlyings]
    constructor
    · split
      · exact options.mono
      · refine options.write steady (optionsOf_distinct r) fun s member => ?_
        obtain ⟨entry, -, rfl⟩ := List.mem_map.mp member
        rfl
    · split
      · exact underlyings.mono
      · refine underlyings.write steady (underlyingsOf_distinct r) fun s member => ?_
        obtain ⟨ticker, -, rfl⟩ := List.mem_map.mp member
        rfl

def Same (one other : BarTables) : Prop :=
  (∀ key, one.options.lookup key = other.options.lookup key) ∧
    ∀ key, one.underlyings.lookup key = other.underlyings.lookup key

/-- An incremental run ends at the SELECT of the contracts' start times, before anything is written. -/
def OptionsUnasked (r : BackfillRun) : Prop := MAX_STATEMENT_ARGUMENTS < r.candidates.keys.length

/-- It has ended at that SELECT or at the one of the underlyings' start times. -/
def UnderlyingsUnasked (r : BackfillRun) : Prop :=
  OptionsUnasked r ∨ MAX_STATEMENT_ARGUMENTS < r.underlyingTickers.length

instance (r : BackfillRun) : Decidable (OptionsUnasked r) := inferInstanceAs (Decidable (_ < _))

instance (r : BackfillRun) : Decidable (UnderlyingsUnasked r) := inferInstanceAs (Decidable (_ ∨ _))


/-- After any runs, an incremental run and a full one leave the same tables exactly if no minute is overlooked or spared;
in runs whose feeds only grow at their ends a minute is overlooked only by a run that ends at a SELECT, or, of an
underlying, where an earlier run skipped it. -/
theorem incremental_same_iff (history : List BackfillRun) (r : BackfillRun) :
    (Same ({ r with fullRescan := false }.run (afterAll history))
        ({ r with fullRescan := true }.run (afterAll history)) ↔
      (∀ s ∈ optionsOf r, ∀ minute,
        ¬ Overlooked (OptionsUnasked r) r.windowStart (r.feed s.key) (afterAll history).options s minute ∧
        ¬ Spared (OptionsUnasked r) r.windowStart (r.feed s.key) (afterAll history).options s minute) ∧
      ∀ s ∈ underlyingsOf r, ∀ minute,
        ¬ Overlooked (UnderlyingsUnasked r) r.windowStart (r.feed s.key) (afterAll history).underlyings s minute ∧
        ¬ Spared (UnderlyingsUnasked r) r.windowStart (r.feed s.key) (afterAll history).underlyings s minute) ∧
    ((history ++ [r]).Pairwise Follows →
      (∀ s ∈ optionsOf r, ∀ minute,
        Overlooked (OptionsUnasked r) r.windowStart (r.feed s.key) (afterAll history).options s minute →
        OptionsUnasked r) ∧
      ∀ s ∈ underlyingsOf r, ∀ minute,
        Overlooked (UnderlyingsUnasked r) r.windowStart (r.feed s.key) (afterAll history).underlyings s minute →
        UnderlyingsUnasked r ∨ Skipped usableCandle history s.key minute) := by
  constructor
  · have options := writeSeries_same_iff (OptionsUnasked r) r.windowStart r.feed (afterAll history).options
      (optionsOf_distinct r)
    have underlyings := writeSeries_same_iff (UnderlyingsUnasked r) r.windowStart r.feed (afterAll history).underlyings
      (underlyingsOf_distinct r)
    rw [← options, ← underlyings, Same, run_options, run_options, run_underlyings, run_underlyings]
    simp only [BackfillRun.startsRaise, Bool.not_false, Bool.not_true, Bool.true_and, Bool.false_and, Bool.or_self,
      Bool.or_eq_true, decide_eq_true_eq, Bool.false_eq_true, if_false]
    rfl
  · intro steady
    obtain ⟨options, underlyings⟩ := filled_afterAll (List.pairwise_append.mp steady).1
    refine ⟨fun s member minute overlooked => ?_, fun s member minute overlooked => ?_⟩
    · obtain ⟨entry, -, rfl⟩ := List.mem_map.mp member
      obtain ⟨⟨-, usable, absent⟩, unasked | ⟨newest, found, newer⟩⟩ := overlooked
      · exact unasked
      · have asked := requested usable
        rw [firstUsable_candlesFrom, if_pos asked] at usable
        rcases options.covers steady asked (mem_times usable) (mem_latestBar.mp found).1 newer.le with kept | skipped
        · exact absurd kept absent
        · obtain ⟨past, -, listed, unusable⟩ := skipped
          exact absurd unusable (firstUsable_all listed)
    · obtain ⟨ticker, -, rfl⟩ := List.mem_map.mp member
      obtain ⟨⟨-, usable, absent⟩, unasked | ⟨newest, found, newer⟩⟩ := overlooked
      · exact .inl unasked
      · have asked := requested usable
        rw [firstUsable_candlesFrom, if_pos asked] at usable
        have covered := underlyings.covers steady asked (mem_times usable) (mem_latestBar.mp found).1 newer.le
        exact .inr (covered.resolve_left absent)

def zeroedFeed (_ : String) : List Candle :=
  [{ time := some 0, close := some (.val 0) }, { time := some 60000, close := some (.val 6000) }]

def healedFeed (_ : String) : List Candle :=
  [{ time := some 0, close := some (.val 5990) }, { time := some 60000, close := some (.val 6000) }]

def zeroedRun : BackfillRun where
  windowStart := 0
  candidates := ∅
  underlyingTickers := ["SPX"]
  distinct := List.nodup_singleton "SPX"
  feed := zeroedFeed

def healedRun : BackfillRun := { zeroedRun with feed := healedFeed }

theorem healed_follows : [zeroedRun, healedRun].Pairwise Follows := by
  have follows : Follows zeroedRun healedRun := ⟨le_rfl, fun _ _ listed => .inl listed⟩
  simpa using follows

theorem healed_minute_overlooked : ¬ ∀ (history : List BackfillRun) (r : BackfillRun),
    (history ++ [r]).Pairwise Follows →
      Same ({ r with fullRescan := false }.run (afterAll history))
        ({ r with fullRescan := true }.run (afterAll history)) := by
  intro same
  have lookups := (same [zeroedRun] healedRun healed_follows).2 ("SPX", 0)
  exact absurd lookups (by decide +kernel)

end OptionsProof.BackfillRuns
