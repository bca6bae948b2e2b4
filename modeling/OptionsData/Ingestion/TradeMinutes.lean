import OptionsData.Kit.Run
import OptionsData.Ingestion.TradeAggregator

namespace OptionsModel

open Kit

structure TradeBar where
  ticker : String
  time : UtcDateTime
  bucket : TradeBucket
deriving DecidableEq, Repr

def TradeBar.slot (bar : TradeBar) : BarKey := (bar.ticker, bar.time.timestampMs)

/-- The `_buckets` of `_TradeBarAggregator`: ticker, minute start, bucket. -/
abbrev MinuteBuckets := Dict String (Dict ℤ TradeBucket)

namespace MinuteBuckets

def held (buckets : MinuteBuckets) (slot : BarKey) : Option TradeBucket :=
  (buckets.lookup slot.1).bind fun minutes => minutes.lookup slot.2

def feed (buckets : MinuteBuckets) (ticker : String) (ev : TradeEvent) : MinuteBuckets :=
  match readTick ev with
  | none => buckets
  | some tick =>
    let minutes := (buckets.lookup ticker).getD ∅
    buckets.insert ticker (minutes.insert tick.minute (TradeBucket.add (minutes.lookup tick.minute) tick))

def completed (buckets : MinuteBuckets) (nowMs : ℤ) : List (BarKey × TradeBucket) :=
  buckets.items.flatMap fun entry =>
    (entry.2.items.filter fun minute => minute.1 + 60000 ≤ nowMs).map fun minute => ((entry.1, minute.1), minute.2)

/-- `none` where `fromtimestamp` raises. -/
def readyBars (buckets : MinuteBuckets) (nowMs : ℤ) : Option (List TradeBar) :=
  (buckets.completed nowMs).mapM fun bar =>
    (UtcDateTime.fromTimestamp bar.1.2).map fun time => ⟨bar.1.1, time, bar.2⟩

/-- The bar's minute is popped, and with the last of its minutes the ticker. -/
def drop (buckets : MinuteBuckets) (bar : TradeBar) : MinuteBuckets :=
  let minutes := ((buckets.lookup bar.ticker).getD ∅).erase bar.time.timestampMs
  if minutes.entries.isEmpty then buckets.erase bar.ticker else buckets.insert bar.ticker minutes

def dropReady (buckets : MinuteBuckets) (nowMs : ℤ) : Option (List TradeBar × MinuteBuckets) :=
  (buckets.readyBars nowMs).map fun bars => (bars, bars.foldl drop buckets)

theorem held_feed (buckets : MinuteBuckets) (ticker : String) (ev : TradeEvent) (slot : BarKey) :
    (buckets.feed ticker ev).held slot =
      (readTick ev).elim (buckets.held slot) fun tick =>
        if slot = (ticker, tick.minute) then some (TradeBucket.add (buckets.held slot) tick)
        else buckets.held slot := by
  unfold feed
  cases readTick ev with
  | none => rfl
  | some tick =>
    obtain ⟨name, minute⟩ := slot
    dsimp only [Option.elim_some, held]
    rw [Dict.lookup_insert]
    by_cases same : name = ticker
    · subst same
      rw [if_pos rfl, Option.bind_some, Dict.lookup_insert]
      by_cases here : minute = tick.minute
      · subst here
        rw [if_pos rfl, if_pos rfl]
        cases buckets.lookup name <;> rfl
      · rw [if_neg here, if_neg fun both => here (Prod.mk.inj both).2]
        cases buckets.lookup name <;> rfl
    · rw [if_neg same, if_neg fun both => same (Prod.mk.inj both).1]

theorem held_getD (buckets : MinuteBuckets) (slot : BarKey) :
    buckets.held slot = ((buckets.lookup slot.1).getD ∅).lookup slot.2 := by
  unfold held
  cases buckets.lookup slot.1 <;> rfl

theorem held_drop (buckets : MinuteBuckets) (bar : TradeBar) (slot : BarKey) :
    (buckets.drop bar).held slot = if slot = bar.slot then none else buckets.held slot := by
  obtain ⟨name, minute⟩ := slot
  have rest : (((buckets.lookup bar.ticker).getD ∅).erase bar.time.timestampMs).lookup minute =
      if minute = bar.time.timestampMs then none else buckets.held (bar.ticker, minute) := by
    rw [Dict.lookup_erase, held_getD]
  by_cases same : name = bar.ticker
  · subst same
    have slots : (bar.ticker, minute) = bar.slot ↔ minute = bar.time.timestampMs := by simp [TradeBar.slot]
    simp only [slots]
    rw [← rest]
    unfold drop held
    dsimp only
    split
    · next empty =>
      have nothing : ((buckets.lookup bar.ticker).getD ∅).erase bar.time.timestampMs = ∅ :=
        AList.ext (List.isEmpty_iff.mp empty)
      rw [nothing, AList.lookup_empty, Dict.lookup_erase, if_pos rfl, Option.bind_none]
    · rw [Dict.lookup_insert, if_pos rfl, Option.bind_some]
  · rw [if_neg fun both => same (congrArg Prod.fst both)]
    unfold drop held
    dsimp only
    split
    · rw [Dict.lookup_erase, if_neg same]
    · rw [Dict.lookup_insert, if_neg same]

theorem held_drops (buckets : MinuteBuckets) (bars : List TradeBar) (slot : BarKey) :
    (bars.foldl drop buckets).held slot = if slot ∈ bars.map TradeBar.slot then none else buckets.held slot := by
  induction bars generalizing buckets with
  | nil => simp
  | cons bar bars ih =>
    rw [List.foldl_cons, ih, held_drop]
    by_cases here : slot = bar.slot <;> simp [here]

theorem mem_completed {buckets : MinuteBuckets} {nowMs : ℤ} {slot : BarKey} {b : TradeBucket} :
    (slot, b) ∈ buckets.completed nowMs ↔ buckets.held slot = some b ∧ slot.2 + 60000 ≤ nowMs := by
  obtain ⟨name, minute⟩ := slot
  simp only [completed, List.mem_flatMap, List.mem_map, List.mem_filter, Prod.exists, Dict.mem_items,
    decide_eq_true_eq, Prod.mk.injEq, held, Option.bind_eq_some_iff]
  constructor
  · intro premise
    obtain ⟨ticker, minutes, found, start, bucket, ⟨stored, ready⟩, ⟨rfl, rfl⟩, rfl⟩ := premise
    exact ⟨⟨minutes, found, stored⟩, ready⟩
  · intro premise
    obtain ⟨⟨minutes, found, stored⟩, ready⟩ := premise
    exact ⟨name, minutes, found, minute, b, ⟨stored, ready⟩, ⟨rfl, rfl⟩, rfl⟩

theorem completed_nodup (buckets : MinuteBuckets) (nowMs : ℤ) : ((buckets.completed nowMs).map Prod.fst).Nodup := by
  rw [completed, List.map_flatMap, List.nodup_flatMap]
  constructor
  · intro entry _
    rw [List.map_map]
    have unique : ((entry.2.items.filter fun minute => minute.1 + 60000 ≤ nowMs).map Prod.fst).Nodup :=
      (List.filter_sublist.map Prod.fst).nodup entry.2.items_nodup
    have renamed := unique.map (Prod.mk_right_injective entry.1)
    rwa [List.map_map] at renamed
  · have apart := List.pairwise_map.mp buckets.items_nodup
    refine apart.imp fun different => ?_
    intro slot first second
    simp only [List.map_map, List.mem_map, Function.comp_apply] at first second
    obtain ⟨_, -, rfl⟩ := first
    obtain ⟨_, -, same⟩ := second
    exact different (Prod.mk.inj same).1.symm

theorem map_of_mapM {α β : Type} {f : α → Option β} {g : β → α} (back : ∀ x y, f x = some y → g y = x) {xs : List α}
    {ys : List β} (made : xs.mapM f = some ys) : ys.map g = xs := by
  induction xs generalizing ys with
  | nil =>
    cases made
    rfl
  | cons x xs ih =>
    rw [List.mapM_cons] at made
    obtain ⟨y, first, made⟩ := Option.bind_eq_some_iff.mp made
    obtain ⟨rest, later, made⟩ := Option.bind_eq_some_iff.mp made
    cases made
    rw [List.map_cons, back x y first, ih later]

theorem mapM_isSome {α β : Type} {f : α → Option β} {xs : List α} :
    (xs.mapM f).isSome ↔ ∀ x ∈ xs, (f x).isSome := by
  induction xs with
  | nil => simp
  | cons x xs ih =>
    rw [List.mapM_cons, List.forall_mem_cons, ← ih]
    cases f x <;> cases xs.mapM f <;> simp

theorem readyBars_completed {buckets : MinuteBuckets} {nowMs : ℤ} {bars : List TradeBar}
    (made : buckets.readyBars nowMs = some bars) :
    bars.map (fun bar => (bar.slot, bar.bucket)) = buckets.completed nowMs := by
  refine map_of_mapM (fun bar ready same => ?_) made
  obtain ⟨time, made, rfl⟩ := Option.map_eq_some_iff.mp same
  rw [TradeBar.slot, UtcDateTime.timestampMs_fromTimestamp made]

end MinuteBuckets

inductive TradeCall where
  | feed (ticker : String) (ev : TradeEvent)
  | dropReady (nowMs : ℤ)

structure TradeHistory where
  buckets : MinuteBuckets := ∅
  /-- All the bars that `drop_ready` has returned. -/
  returned : List TradeBar := []

namespace TradeHistory

def call (s : TradeHistory) : TradeCall → TradeHistory
  | .feed ticker ev => { s with buckets := s.buckets.feed ticker ev }
  | .dropReady nowMs => match s.buckets.dropReady nowMs with
    | some (bars, buckets) => ⟨buckets, s.returned ++ bars⟩
    -- it raises in `ready_bars`, before anything is removed
    | none => s

def after (calls : List TradeCall) : TradeHistory := calls.foldl call {}

end TradeHistory

end OptionsModel

namespace OptionsProof.TradeMinutes

open Kit OptionsModel OptionsModel.MinuteBuckets OptionsModel.TradeHistory

/-- The ticks that `feed` accepts, each with its ticker and minute. -/
def accepted (calls : List TradeCall) : List (BarKey × Tick) :=
  calls.filterMap fun
    | .feed ticker ev => (readTick ev).map fun tick => ((ticker, tick.minute), tick)
    | .dropReady _ => none

structure Summarizes (ticks : List Tick) (b : TradeBucket) : Prop where
  opening : (ticks.map Tick.price).head? = some b.opening
  high : (ticks.map Tick.price).max? = some b.high
  low : (ticks.map Tick.price).min? = some b.low
  close : (ticks.map Tick.price).getLast? = some b.close
  volume : b.volume = if ticks.filterMap Tick.count = [] then none else some (ticks.filterMap Tick.count).sum

theorem summarizes_of_summary {ticks : List Tick} {b : TradeBucket} (made : TradeBucket.summary ticks = some b) :
    Summarizes ticks b := by
  have prices := TradeBucket.summary_ohlc ticks
  have volume := TradeBucket.summary_volume ticks
  rw [made] at prices volume
  obtain ⟨opening, high, low, close⟩ := Ohlc.summary_fields (ticks.map Tick.price)
  rw [← prices] at opening high low close
  exact ⟨opening.symm, high.symm, low.symm, close.symm, volume⟩

def labelled (places : List ((BarKey × Tick) × Option ℕ)) (label : Option ℕ) (slot : BarKey) : List Tick :=
  (places.filter fun place => place.2 = label ∧ place.1.1 = slot).map fun place => place.1.2

structure Partitions (ticks : List (BarKey × Tick)) (returned : List TradeBar) (held : BarKey → Option TradeBucket)
    (places : List ((BarKey × Tick) × Option ℕ)) : Prop where
  ticks : places.map Prod.fst = ticks
  place : ∀ place ∈ places, ∀ i, place.2 = some i → ∃ bar, returned[i]? = some bar ∧ bar.slot = place.1.1
  returned : ∀ i bar, returned[i]? = some bar →
    TradeBucket.summary (labelled places (some i) bar.slot) = some bar.bucket
  held : ∀ slot, held slot = TradeBucket.summary (labelled places none slot)

variable {ticks : List (BarKey × Tick)} {returned bars : List TradeBar} {held : BarKey → Option TradeBucket}
  {places : List ((BarKey × Tick) × Option ℕ)}

theorem labelled_concat (places : List ((BarKey × Tick) × Option ℕ)) (entry : BarKey × Tick) (label : Option ℕ)
    (slot : BarKey) : labelled (places ++ [(entry, none)]) label slot =
      labelled places label slot ++ if none = label ∧ entry.1 = slot then [entry.2] else [] := by
  unfold labelled
  rw [List.filter_append, List.map_append, List.filter_singleton]
  by_cases here : none = label ∧ entry.1 = slot <;> simp [here]

theorem Partitions.feeds (partitions : Partitions ticks returned held places) (entry : BarKey × Tick) :
    Partitions (ticks ++ [entry]) returned
      (fun slot => if slot = entry.1 then some (TradeBucket.add (held slot) entry.2) else held slot)
      (places ++ [(entry, none)]) := by
  refine ⟨?_, fun place member i label => ?_, fun i bar found => ?_, fun slot => ?_⟩
  · rw [List.map_append, partitions.ticks]
    rfl
  · rcases List.mem_append.mp member with before | last
    · exact partitions.place place before i label
    · rw [List.mem_singleton.mp last] at label
      cases label
  · rw [labelled_concat, if_neg (by simp), List.append_nil]
    exact partitions.returned i bar found
  · rw [labelled_concat]
    by_cases here : slot = entry.1
    · rw [if_pos here, if_pos ⟨rfl, here.symm⟩, TradeBucket.summary_concat, partitions.held slot]
    · rw [if_neg here, if_neg fun both => here both.2.symm, List.append_nil]
      exact partitions.held slot

def relabel (returned bars : List TradeBar) (place : (BarKey × Tick) × Option ℕ) : (BarKey × Tick) × Option ℕ :=
  (place.1, if place.2 = none ∧ place.1.1 ∈ bars.map TradeBar.slot
    then some (returned.length + (bars.map TradeBar.slot).idxOf place.1.1) else place.2)

theorem labelled_relabel {label label' : Option ℕ} {slot : BarKey}
    (same : ∀ place ∈ places, place.1.1 = slot → ((relabel returned bars place).2 = label ↔ place.2 = label')) :
    labelled (places.map (relabel returned bars)) label slot = labelled places label' slot := by
  unfold labelled
  rw [List.filter_map, List.map_map]
  apply congrArg (List.map fun place : (BarKey × Tick) × Option ℕ => place.1.2)
  apply List.filter_congr
  intro place member
  show decide ((relabel returned bars place).2 = label ∧ place.1.1 = slot) =
    decide (place.2 = label' ∧ place.1.1 = slot)
  rw [decide_eq_decide]
  exact and_congr_left (same place member)

theorem relabel_moved (unique : (bars.map TradeBar.slot).Nodup) {j : ℕ} {bar : TradeBar} (found : bars[j]? = some bar)
    {place : (BarKey × Tick) × Option ℕ} (waiting : place.2 = none) (same : place.1.1 = bar.slot) :
    (relabel returned bars place).2 = some (returned.length + j) := by
  have slots : (bars.map TradeBar.slot)[j]? = some place.1.1 := by
    rw [List.getElem?_map, found, Option.map_some, same]
  obtain ⟨within, at_⟩ := List.getElem?_eq_some_iff.mp slots
  have position : (bars.map TradeBar.slot).idxOf place.1.1 = j := by
    rw [← at_]
    exact unique.idxOf_getElem j within
  rw [relabel, if_pos ⟨waiting, List.mem_of_getElem? slots⟩, position]

theorem relabel_moves (unique : (bars.map TradeBar.slot).Nodup) {place : (BarKey × Tick) × Option ℕ}
    (waiting : place.2 = none) (listed : place.1.1 ∈ bars.map TradeBar.slot) :
    ∃ j bar, bars[j]? = some bar ∧ bar.slot = place.1.1 ∧
      (relabel returned bars place).2 = some (returned.length + j) := by
  obtain ⟨bar, member, same⟩ := List.mem_map.mp listed
  obtain ⟨j, found⟩ := List.mem_iff_getElem?.mp member
  exact ⟨j, bar, found, same, relabel_moved unique found waiting same.symm⟩

theorem relabel_kept {place : (BarKey × Tick) × Option ℕ}
    (kept : place.2 = none → place.1.1 ∉ bars.map TradeBar.slot) :
    (relabel returned bars place).2 = place.2 := if_neg fun both => kept both.1 both.2

theorem relabel_of_some {place : (BarKey × Tick) × Option ℕ} {i : ℕ} (label : place.2 = some i) :
    (relabel returned bars place).2 = some i := by
  rw [← label]
  refine relabel_kept fun waiting => ?_
  rw [label] at waiting
  cases waiting

theorem labelled_before (unique : (bars.map TradeBar.slot).Nodup) {i : ℕ} (early : i < returned.length)
    (slot : BarKey) :
    labelled (places.map (relabel returned bars)) (some i) slot = labelled places (some i) slot := by
  refine labelled_relabel fun place _ _ => ?_
  cases label : place.2 with
  | some j => rw [relabel_of_some label]
  | none =>
    refine iff_of_false (fun now => ?_) nofun
    by_cases listed : place.1.1 ∈ bars.map TradeBar.slot
    · obtain ⟨j, _, -, -, there⟩ := relabel_moves unique label listed
      rw [now, Option.some.injEq] at there
      omega
    · rw [relabel_kept fun _ => listed, label] at now
      cases now

theorem Partitions.early (partitions : Partitions ticks returned held places) {place : (BarKey × Tick) × Option ℕ}
    (member : place ∈ places) {i : ℕ} (label : place.2 = some i) : i < returned.length := by
  obtain ⟨bar, found, -⟩ := partitions.place place member i label
  exact (List.getElem?_eq_some_iff.mp found).1

theorem Partitions.labelled_moved (partitions : Partitions ticks returned held places)
    (unique : (bars.map TradeBar.slot).Nodup) {j : ℕ} {bar : TradeBar} (found : bars[j]? = some bar) :
    labelled (places.map (relabel returned bars)) (some (returned.length + j)) bar.slot =
      labelled places none bar.slot := by
  refine labelled_relabel fun place member here => ?_
  cases label : place.2 with
  | none => exact iff_of_true (relabel_moved unique found label here) rfl
  | some i =>
    refine iff_of_false (fun now => ?_) nofun
    have early := partitions.early member label
    rw [relabel_of_some label, Option.some.injEq] at now
    omega

theorem labelled_waiting (unique : (bars.map TradeBar.slot).Nodup) (slot : BarKey) :
    labelled (places.map (relabel returned bars)) none slot =
      if slot ∈ bars.map TradeBar.slot then [] else labelled places none slot := by
  split
  · next listed =>
    rw [labelled, List.map_eq_nil_iff, List.filter_eq_nil_iff]
    intro moved member
    obtain ⟨place, -, rfl⟩ := List.mem_map.mp member
    rw [decide_eq_true_eq]
    intro both
    cases label : place.2 with
    | some i =>
      rw [relabel_of_some label] at both
      cases both.1
    | none =>
      have here : place.1.1 ∈ bars.map TradeBar.slot := both.2 ▸ listed
      obtain ⟨j, _, -, -, there⟩ := relabel_moves unique label here
      rw [there] at both
      cases both.1
  · next absent =>
    refine labelled_relabel fun place _ here => ?_
    rw [relabel_kept fun _ there => absent (here ▸ there)]

theorem Partitions.drops (partitions : Partitions ticks returned held places)
    (unique : (bars.map TradeBar.slot).Nodup) (completed : ∀ bar ∈ bars, held bar.slot = some bar.bucket) :
    Partitions ticks (returned ++ bars) (fun slot => if slot ∈ bars.map TradeBar.slot then none else held slot)
      (places.map (relabel returned bars)) := by
  refine ⟨?_, fun moved listed i now => ?_, fun i bar found => ?_, fun slot => ?_⟩
  · rw [List.map_map]
    exact partitions.ticks
  · obtain ⟨place, member, rfl⟩ := List.mem_map.mp listed
    by_cases goes : place.2 = none ∧ place.1.1 ∈ bars.map TradeBar.slot
    · obtain ⟨j, bar, found, same, there⟩ := relabel_moves unique goes.1 goes.2
      obtain rfl : returned.length + j = i := Option.some.inj (there.symm.trans now)
      refine ⟨bar, ?_, same⟩
      rw [List.getElem?_append_right (Nat.le_add_right _ _), Nat.add_sub_cancel_left]
      exact found
    · rw [relabel_kept fun waiting there => goes ⟨waiting, there⟩] at now
      obtain ⟨bar, found, same⟩ := partitions.place place member i now
      refine ⟨bar, ?_, same⟩
      rw [List.getElem?_append_left (partitions.early member now)]
      exact found
  · rcases lt_or_ge i returned.length with early | late
    · rw [List.getElem?_append_left early] at found
      rw [labelled_before unique early]
      exact partitions.returned i bar found
    · obtain ⟨j, rfl⟩ := Nat.exists_eq_add_of_le late
      rw [List.getElem?_append_right late, Nat.add_sub_cancel_left] at found
      rw [partitions.labelled_moved unique found, ← partitions.held]
      exact completed bar (List.mem_of_getElem? found)
  · rw [labelled_waiting unique]
    split
    · rfl
    · exact partitions.held slot

theorem accepted_concat (calls : List TradeCall) (call : TradeCall) :
    accepted (calls ++ [call]) = accepted calls ++ accepted [call] := List.filterMap_append

theorem after_concat (calls : List TradeCall) (call : TradeCall) :
    after (calls ++ [call]) = (after calls).call call := by
  rw [after, List.foldl_append]
  rfl

theorem dropReady_spec {buckets rest : MinuteBuckets} {nowMs : ℤ}
    (dropped : buckets.dropReady nowMs = some (bars, rest)) :
    (bars.map TradeBar.slot).Nodup ∧
    (∀ slot b, (∃ bar ∈ bars, bar.slot = slot ∧ bar.bucket = b) ↔
      buckets.held slot = some b ∧ slot.2 + 60000 ≤ nowMs) ∧
    ∀ slot, rest.held slot = if slot ∈ bars.map TradeBar.slot then none else buckets.held slot := by
  obtain ⟨ready, made, same⟩ := Option.map_eq_some_iff.mp dropped
  cases same
  have completed := readyBars_completed made
  refine ⟨?_, fun slot b => ?_, held_drops buckets bars⟩
  · have unique := completed_nodup buckets nowMs
    rw [← completed, List.map_map] at unique
    exact unique
  · rw [← mem_completed, ← completed, List.mem_map]
    simp only [Prod.mk.injEq]

theorem partitions_after (calls : List TradeCall) :
    ∃ places, Partitions (accepted calls) (after calls).returned (after calls).buckets.held places := by
  induction calls using List.reverseRecOn with
  | nil => exact ⟨[], rfl, fun _ member => absurd member List.not_mem_nil, fun _ _ found => by simp [after] at found,
      fun _ => rfl⟩
  | append_singleton calls call ih =>
    obtain ⟨places, partitions⟩ := ih
    rw [after_concat, accepted_concat]
    cases call with
    | feed ticker ev =>
      have now : ((after calls).buckets.feed ticker ev).held = _ := funext (held_feed (after calls).buckets ticker ev)
      show ∃ places, Partitions _ (after calls).returned ((after calls).buckets.feed ticker ev).held places
      rw [now]
      cases read : readTick ev with
      | none =>
        refine ⟨places, ?_⟩
        simpa [accepted, read] using partitions
      | some tick =>
        refine ⟨places ++ [(((ticker, tick.minute), tick), none)], ?_⟩
        simpa [accepted, read] using partitions.feeds ((ticker, tick.minute), tick)
    | dropReady nowMs =>
      have nothing : accepted [.dropReady nowMs] = [] := rfl
      rw [nothing, List.append_nil, TradeHistory.call]
      cases dropped : (after calls).buckets.dropReady nowMs with
      | none => exact ⟨places, partitions⟩
      | some outcome =>
        obtain ⟨bars, rest⟩ := outcome
        obtain ⟨unique, exactly_, left⟩ := dropReady_spec dropped
        refine ⟨places.map (relabel (after calls).returned bars), ?_⟩
        rw [funext left]
        exact partitions.drops unique fun bar member => ((exactly_ bar.slot bar.bucket).mp ⟨bar, member, rfl, rfl⟩).1

/-- Each accepted tick is in exactly one bucket, returned or held, that of its own ticker and minute. -/
structure EachInOne (calls : List TradeCall) (places : List ((BarKey × Tick) × Option ℕ)) : Prop where
  ticks : places.map Prod.fst = accepted calls
  inReturned : ∀ place ∈ places, ∀ i, place.2 = some i →
    ∃ bar, (after calls).returned[i]? = some bar ∧ bar.slot = place.1.1
  inHeld : ∀ place ∈ places, place.2 = none → ((after calls).buckets.held place.1.1).isSome
  returned : ∀ i bar, (after calls).returned[i]? = some bar → Summarizes (labelled places (some i) bar.slot) bar.bucket
  held : ∀ slot b, (after calls).buckets.held slot = some b → Summarizes (labelled places none slot) b

theorem EachInOne.waiting {calls : List TradeCall} {places : List ((BarKey × Tick) × Option ℕ)}
    (each : EachInOne calls places) (nothing : (after calls).returned = []) :
    places = (accepted calls).map fun tick => (tick, none) := by
  rw [← each.ticks, List.map_map]
  refine (List.map_id places).symm.trans (List.map_congr_left fun place listed => ?_)
  cases label : place.2 with
  | none => exact Prod.ext rfl label
  | some i =>
    obtain ⟨bar, found, -⟩ := each.inReturned place listed i label
    rw [nothing] at found
    cases found

def DropsExactly (buckets : MinuteBuckets) (nowMs : ℤ) : Prop :=
  ∃ bars rest, buckets.dropReady nowMs = some (bars, rest) ∧ (bars.map TradeBar.slot).Nodup ∧
    (∀ slot b, (∃ bar ∈ bars, bar.slot = slot ∧ bar.bucket = b) ↔
      buckets.held slot = some b ∧ slot.2 + 60000 ≤ nowMs) ∧
    ∀ slot, rest.held slot = if slot.2 + 60000 ≤ nowMs then none else buckets.held slot

/-- From the first minute of the year 1 to the last of the year 9999. -/
def OnCalendar (minute : ℤ) : Prop := -62135596800000 ≤ minute ∧ minute < 253402300800000

theorem fromTimestamp_isSome (ms : ℤ) : (UtcDateTime.fromTimestamp ms).isSome ↔ OnCalendar ms := by
  unfold UtcDateTime.fromTimestamp OnCalendar
  split
  · next within => exact iff_of_true rfl (by omega)
  · next outside => exact iff_of_false (by simp) (by omega)

theorem readyBars_isSome (buckets : MinuteBuckets) (nowMs : ℤ) : (buckets.readyBars nowMs).isSome ↔
    ∀ slot b, buckets.held slot = some b → slot.2 + 60000 ≤ nowMs → OnCalendar slot.2 := by
  rw [readyBars, mapM_isSome]
  simp only [Option.isSome_map, fromTimestamp_isSome, Prod.forall, mem_completed, and_imp]

theorem dropsExactly_of_some {buckets rest : MinuteBuckets} {nowMs : ℤ}
    (dropped : buckets.dropReady nowMs = some (bars, rest)) : DropsExactly buckets nowMs := by
  obtain ⟨unique, ready, left⟩ := dropReady_spec dropped
  refine ⟨bars, rest, dropped, unique, ready, fun slot => ?_⟩
  rw [left]
  by_cases listed : slot ∈ bars.map TradeBar.slot
  · obtain ⟨bar, member, same⟩ := List.mem_map.mp listed
    have due := ((ready slot bar.bucket).mp ⟨bar, member, same, rfl⟩).2
    rw [if_pos listed, if_pos due]
  · rw [if_neg listed]
    split
    · next due =>
      by_contra kept
      obtain ⟨b, found⟩ := Option.ne_none_iff_exists'.mp kept
      obtain ⟨bar, member, same, -⟩ := (ready slot b).mpr ⟨found, due⟩
      exact listed (List.mem_map.mpr ⟨bar, member, same⟩)
    · rfl

theorem dropsExactly_iff (buckets : MinuteBuckets) (nowMs : ℤ) : DropsExactly buckets nowMs ↔
    ∀ slot b, buckets.held slot = some b → slot.2 + 60000 ≤ nowMs → OnCalendar slot.2 := by
  rw [← readyBars_isSome]
  constructor
  · intro drops
    obtain ⟨bars, rest, dropped, -⟩ := drops
    have returns : (buckets.dropReady nowMs).isSome := by
      rw [dropped]
      rfl
    rwa [dropReady, Option.isSome_map] at returns
  · intro returns
    obtain ⟨bars, made⟩ := Option.isSome_iff_exists.mp returns
    exact dropsExactly_of_some (by rw [dropReady, made, Option.map_some])

theorem eachInOne_after (calls : List TradeCall) : ∃ places, EachInOne calls places := by
  obtain ⟨places, partitions⟩ := partitions_after calls
  refine ⟨places, partitions.ticks, partitions.place, fun place member waiting => ?_, fun i bar found => ?_,
    fun slot b found => ?_⟩
  · rw [partitions.held]
    have own : place.1.2 ∈ labelled places none place.1.1 :=
      List.mem_map.mpr ⟨place, List.mem_filter.mpr ⟨member, by simp [waiting]⟩, rfl⟩
    obtain ⟨ticks, last, same⟩ := (List.eq_nil_or_concat _).resolve_left (List.ne_nil_of_mem own)
    rw [same, List.concat_eq_append, TradeBucket.summary_concat]
    rfl
  · exact summarizes_of_summary (partitions.returned i bar found)
  · rw [partitions.held] at found
    exact summarizes_of_summary found

/-- The returned and the held buckets partition the accepted ticks; `drop_ready` returns the completed ones exactly if a
`datetime` can hold their minutes, and otherwise raises and keeps all. -/
theorem tradeBars_partition (calls : List TradeCall) :
    (∃ places, EachInOne calls places) ∧
    ∀ nowMs, (DropsExactly (after calls).buckets nowMs ↔
        ∀ slot b, (after calls).buckets.held slot = some b → slot.2 + 60000 ≤ nowMs → OnCalendar slot.2) ∧
      (¬ DropsExactly (after calls).buckets nowMs → (after calls).buckets.dropReady nowMs = none ∧
        (after calls).call (.dropReady nowMs) = after calls) := by
  refine ⟨eachInOne_after calls, fun nowMs => ⟨dropsExactly_iff _ nowMs, fun inexact => ?_⟩⟩
  have raises : (after calls).buckets.dropReady nowMs = none := by
    by_contra returns
    obtain ⟨⟨bars, rest⟩, dropped⟩ := Option.ne_none_iff_exists'.mp returns
    exact inexact (dropsExactly_of_some dropped)
  refine ⟨raises, ?_⟩
  rw [TradeHistory.call, raises]

def earlyTick : TradeCall :=
  .feed "VIX" { eventSymbol := "VIX", price := some (.val 15), time := some (-62135596860000) }

def fractionalTicks : List TradeCall :=
  List.replicate 2
    (.feed "VIX" { eventSymbol := "VIX", price := some (.val 15), time := some 0, size := some (.val (29 / 10)) })

/-- The volume is the sum of the sizes themselves. -/
def SumsSizes (ticks : List Tick) (b : TradeBucket) : Prop :=
  b.volume.map (fun n : ℤ => (n : ℚ)) =
    if ticks.filterMap Tick.amount = [] then none else some (ticks.filterMap Tick.amount).sum

/-- A tick of the minute before the year 1 keeps `drop_ready` from returning, and sizes are cut before they are
added: two of 2.9 make a volume of 4. -/
theorem earlyTick_raises :
    (¬ ∀ (calls : List TradeCall) (nowMs : ℤ), DropsExactly (after calls).buckets nowMs) ∧
    ¬ ∀ calls : List TradeCall, ∃ places, EachInOne calls places ∧
      ∀ slot b, (after calls).buckets.held slot = some b → SumsSizes (labelled places none slot) b := by
  constructor
  · intro drops
    obtain ⟨bars, rest, dropped, -⟩ := drops [earlyTick] 0
    have raises : (after [earlyTick]).buckets.dropReady 0 = none := by decide +kernel
    rw [raises] at dropped
    cases dropped
  · intro sums
    obtain ⟨places, each, sized⟩ := sums fractionalTicks
    have nothing : (after fractionalTicks).returned = [] := by decide +kernel
    have shown : ((after fractionalTicks).buckets.held ("VIX", 0)).map TradeBucket.volume = some (some 4) := by
      decide +kernel
    obtain ⟨b, held, volume⟩ := Option.map_eq_some_iff.mp shown
    have wrong := sized ("VIX", 0) b held
    rw [SumsSizes, volume, each.waiting nothing] at wrong
    revert wrong
    decide +kernel

/-- The two levels hold what the dictionary keyed by ticker and minute holds. -/
def Refines (buckets : MinuteBuckets) (agg : TradeBarAggregator) : Prop :=
  ∀ slot, buckets.held slot = agg.buckets.lookup slot

theorem feed_refines {buckets : MinuteBuckets} {agg : TradeBarAggregator} (refines : Refines buckets agg)
    (ticker : String) (ev : TradeEvent) : Refines (buckets.feed ticker ev) (agg.feed ticker ev) := by
  intro slot
  rw [held_feed, TradeBarAggregator.feed_lookup, refines slot]

theorem dropReady_refines {buckets rest : MinuteBuckets} {agg : TradeBarAggregator} (refines : Refines buckets agg)
    {nowMs : ℤ} (dropped : buckets.dropReady nowMs = some (bars, rest)) :
    (bars.map fun bar => (bar.slot, bar.bucket)).Perm (agg.dropReady nowMs).1 ∧
      Refines rest (agg.dropReady nowMs).2 := by
  obtain ⟨_, _, again, unique, ready, left⟩ := dropsExactly_of_some dropped
  cases dropped.symm.trans again
  constructor
  · have slots : ((bars.map fun bar => (bar.slot, bar.bucket)).map Prod.fst).Nodup := by
      rw [List.map_map]
      exact unique
    refine (List.perm_ext_iff_of_nodup (.of_map _ slots) (.of_map _ (agg.readyBars_nodup nowMs))).mpr fun entry => ?_
    obtain ⟨slot, b⟩ := entry
    show _ ↔ (slot, b) ∈ agg.readyBars nowMs
    rw [TradeBarAggregator.mem_readyBars, ← refines slot, ← ready slot b, List.mem_map]
    simp only [Prod.mk.injEq]
  · intro slot
    rw [left, TradeBarAggregator.dropReady_lookup, refines slot]

end OptionsProof.TradeMinutes
