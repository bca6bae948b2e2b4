import OptionsData.Api.Pages

namespace OptionsProof.CoarseBars

open Kit OptionsModel OptionsProof.Pages

variable (timeBucket : String → ℤ → ℤ) (interval : String)

def slotOf {ρ : Type} (row : BarKey × ρ) : BarKey := (row.1.1, timeBucket interval row.1.2)

def noVolume (row : OptionBar1m) : OptionBar1m := { row with volume := none }

def noVolume' (row : UnderlyingBar1m) : UnderlyingBar1m := { row with volume := none }

def SameBut {ρ : Type} (forget : ρ → ρ) (table table' : Dict BarKey ρ) : Prop :=
  ∀ key, (table.lookup key).map forget = (table'.lookup key).map forget

/-- Coarse bars that two requests both show are one bar, that of all stored rows of the contract in the bucket. -/
def OptionBarsAgree (table : OptionTable) (one two : OptionBarsRequest) : Prop :=
  Agrees Prod.fst (optionBarsView timeBucket interval table) (matchingOptionBars timeBucket table one)
    (matchingOptionBars timeBucket table two)

def UnderlyingBarsAgree (table : UnderlyingTable) (one two : UnderlyingBarsRequest) : Prop :=
  Agrees Prod.fst (underlyingBars timeBucket interval table.items) (matchingUnderlyingBars timeBucket table one)
    (matchingUnderlyingBars timeBucket table two)

variable {timeBucket interval}

theorem SameBut.twins {ρ : Type} {forget : ρ → ρ} {table table' : Dict BarKey ρ}
    (same : SameBut forget table table') :
    ∀ x' ∈ table'.items, ∃ x ∈ table.items, x.1 = x'.1 ∧ forget x.2 = forget x'.2 := by
  intro x' stored
  have found := same x'.1
  rw [Dict.mem_items.mp stored, Option.map_some] at found
  obtain ⟨row, held, equal⟩ := Option.map_eq_some_iff.mp found
  exact ⟨(x'.1, row), Dict.mem_items.mpr held, rfl, equal⟩

theorem SameBut.symm {ρ : Type} {forget : ρ → ρ} {table table' : Dict BarKey ρ}
    (same : SameBut forget table table') : SameBut forget table' table := fun key => (same key).symm

theorem sameBut_mapRows {ρ : Type} {forget change : ρ → ρ} (forgets : ∀ row, forget (change row) = forget row)
    (table : Dict BarKey ρ) : SameBut forget table (table.mapRows change) := by
  intro key
  rw [Dict.lookup_mapRows, Option.map_map]
  have same : forget ∘ change = forget := funext forgets
  rw [same]

theorem coarse_not_minute {agg : String} (coarse : bucketInterval agg = some interval) : agg ≠ "1m" := by
  intro same
  subst same
  cases coarse

theorem matchingOptionBars_coarse {request : OptionBarsRequest} (coarse : bucketInterval request.agg = some interval)
    (table : OptionTable) :
    matchingOptionBars timeBucket table request =
      grouped (optionGroup timeBucket interval) optionAggregate (table.items.filter request.conditions) := by
  rw [matchingOptionBars, buildOptionBarsQuery]
  simp only [coarse_not_minute coarse, if_false, coarse]
  rfl

theorem matchingUnderlyingBars_coarse {request : UnderlyingBarsRequest}
    (coarse : bucketInterval request.agg = some interval) (table : UnderlyingTable) :
    matchingUnderlyingBars timeBucket table request =
      grouped (underlyingGroup timeBucket interval) underlyingAggregate (table.items.filter request.conditions) := by
  rw [matchingUnderlyingBars, buildUnderlyingBarsQuery]
  simp only [coarse_not_minute coarse, if_false, coarse]
  rfl

theorem foldl_add_ones (n : ℕ) (q : ℚ) :
    (List.replicate n (Number.val 1)).foldl Number.add (.val q) = .val (q + n) := by
  induction n generalizing q with
  | zero => simp
  | succ n ih =>
    rw [List.replicate_succ, List.foldl_cons, Number.add, ih]
    congr 1
    push_cast
    ring

theorem sqlSum_ones {ρ : Type} {volume : ρ → Option Number} {rows : List ρ}
    (ones : ∀ row ∈ rows, volume row = some (.val 1)) {row : ρ} (member : row ∈ rows) :
    sqlSum (rows.map volume) = some (.val rows.length) := by
  have values : (rows.map volume).filterMap id = List.replicate rows.length (.val 1) := by
    have same : ∀ row ∈ rows, (id ∘ volume) row = some (.val 1) := fun row member => ones row member
    rw [List.filterMap_map, List.filterMap_congr same, ← List.map_const, ← List.filterMap_eq_map]
    rfl
  cases size : rows.length with
  | zero => exact absurd member (List.length_eq_zero_iff.mp size ▸ List.not_mem_nil)
  | succ n =>
    rw [size, List.replicate_succ] at values
    rw [sqlSum, sqlAggregate, values]
    dsimp only
    rw [foldl_add_ones]
    push_cast
    rw [add_comm]

theorem rows_of_unit {ρ : Type} {change : ρ → ρ} {volume : ρ → Option Number}
    (unit : ∀ row, volume (change row) = some (.val 1)) (table : Dict BarKey ρ) :
    ∀ row ∈ (table.mapRows change).items, volume row.2 = some (.val 1) := by
  intro row stored
  have found := Dict.mem_items.mp stored
  rw [Dict.lookup_mapRows] at found
  obtain ⟨old, -, same⟩ := Option.map_eq_some_iff.mp found
  rw [← same]
  exact unit old

theorem whole_of_unit {ρ κ : Type} [DecidableEq κ] {key : BarKey × ρ → κ} {slot : BarKey × ρ → BarKey}
    {aggregate : κ → List (BarKey × ρ) → BarKey × ρ} {volume : ρ → Option Number} {rows : List (BarKey × ρ)}
    {one two : BarKey × ρ → Bool} (slots : ∀ row members, (aggregate (key row) members).1 = slot row)
    (sums : ∀ k members, volume (aggregate k members).2 = sqlSum (members.map fun row => volume row.2))
    (keyed : ∀ k k' members members', aggregate k members = aggregate k' members' → k = k')
    (ones : ∀ row ∈ rows, volume row.2 = some (.val 1))
    (agrees : Agrees Prod.fst (grouped key aggregate rows) (grouped key aggregate (rows.filter one))
      (grouped key aggregate (rows.filter two))) : Whole key slot rows one two := by
  apply whole_of_agrees slots _ agrees
  intro x _ y _ members members' inside part part' inside' equal
  have volumes := congrArg (fun bar => volume bar.2) equal
  simp only [sums] at volumes
  rw [sqlSum_ones (fun row member => ones row (part row member)) inside,
    sqlSum_ones (fun row member => ones row (part' row member)) inside'] at volumes
  refine ⟨keyed _ _ _ _ equal, ?_⟩
  exact_mod_cast Number.val.inj (Option.some.inj volumes)

/-- Whatever the volumes are, the bars that two requests both show agree exactly if the rows of each such contract and
bucket are of one group and meet the conditions of both. -/
theorem optionBars_agree_iff {one two : OptionBarsRequest} (coarse : bucketInterval one.agg = some interval)
    (coarse' : bucketInterval two.agg = some interval) (table : OptionTable) :
    (∀ table', SameBut noVolume table table' → OptionBarsAgree timeBucket interval table' one two) ↔
      Whole (optionGroup timeBucket interval) (slotOf timeBucket interval) table.items one.conditions
        two.conditions := by
  have slots (row : OptionRow) (members : List OptionRow) :
      (optionAggregate (optionGroup timeBucket interval row) members).1 = slotOf timeBucket interval row := rfl
  have plain (request : OptionBarsRequest) (x : OptionRow) :
      request.conditions x = request.conditions (x.1, noVolume x.2) := rfl
  have group (x : OptionRow) :
      optionGroup timeBucket interval x = optionGroup timeBucket interval (x.1, noVolume x.2) := rfl
  have seen (x x' : OptionRow) (twin : x.1 = x'.1 ∧ noVolume x.2 = noVolume x'.2) :
      one.conditions x = one.conditions x' ∧ two.conditions x = two.conditions x' ∧
        optionGroup timeBucket interval x = optionGroup timeBucket interval x' ∧
        slotOf timeBucket interval x = slotOf timeBucket interval x' := by
    rw [plain one x, plain one x', plain two x, plain two x', group x, group x', twin.1, twin.2, slotOf, slotOf,
      twin.1]
    exact ⟨rfl, rfl, rfl, rfl⟩
  constructor
  · intro agree
    let change (row : OptionBar1m) : OptionBar1m := { row with volume := some (.val 1) }
    have forgets (row : OptionBar1m) : noVolume (change row) = noVolume row := rfl
    have unit (row : OptionBar1m) : (change row).volume = some (.val 1) := rfl
    have same := sameBut_mapRows forgets table
    have ones := rows_of_unit unit table
    have keyed (g g' : OptionGroup) (members members' : List OptionRow)
        (equal : optionAggregate g members = optionAggregate g' members') : g = g' := congrArg groupOf equal
    have agrees := agree _ same
    rw [OptionBarsAgree, matchingOptionBars_coarse coarse, matchingOptionBars_coarse coarse'] at agrees
    exact (whole_of_unit slots (fun _ _ => rfl) keyed ones agrees).transfer same.symm.twins seen
  · intro whole table' same
    rw [OptionBarsAgree, matchingOptionBars_coarse coarse, matchingOptionBars_coarse coarse']
    refine agrees_of_whole slots (fun x y equal => ?_) (whole.transfer same.twins seen)
    exact congrArg (fun g : OptionGroup => (g.contractId, g.time)) equal

theorem underlyingBars_agree_iff {one two : UnderlyingBarsRequest} (coarse : bucketInterval one.agg = some interval)
    (coarse' : bucketInterval two.agg = some interval) (table : UnderlyingTable) :
    (∀ table', SameBut noVolume' table table' → UnderlyingBarsAgree timeBucket interval table' one two) ↔
      Whole (underlyingGroup timeBucket interval) (slotOf timeBucket interval) table.items one.conditions
        two.conditions := by
  have slots (row : UnderlyingRow) (members : List UnderlyingRow) :
      (underlyingAggregate (underlyingGroup timeBucket interval row) members).1 = slotOf timeBucket interval row := rfl
  have seen (x x' : UnderlyingRow) (twin : x.1 = x'.1 ∧ noVolume' x.2 = noVolume' x'.2) :
      one.conditions x = one.conditions x' ∧ two.conditions x = two.conditions x' ∧
        underlyingGroup timeBucket interval x = underlyingGroup timeBucket interval x' ∧
        slotOf timeBucket interval x = slotOf timeBucket interval x' := by
    simp only [UnderlyingBarsRequest.conditions, underlyingGroup, slotOf, twin.1, and_self]
  constructor
  · intro agree
    let change (row : UnderlyingBar1m) : UnderlyingBar1m := { row with volume := some (.val 1) }
    have forgets (row : UnderlyingBar1m) : noVolume' (change row) = noVolume' row := rfl
    have unit (row : UnderlyingBar1m) : (change row).volume = some (.val 1) := rfl
    have same := sameBut_mapRows forgets table
    have ones := rows_of_unit unit table
    have keyed (g g' : BarKey) (members members' : List UnderlyingRow)
        (equal : underlyingAggregate g members = underlyingAggregate g' members') : g = g' := congrArg Prod.fst equal
    have agrees := agree _ same
    rw [UnderlyingBarsAgree, matchingUnderlyingBars_coarse coarse, matchingUnderlyingBars_coarse coarse'] at agrees
    exact (whole_of_unit slots (fun _ _ => rfl) keyed ones agrees).transfer same.symm.twins seen
  · intro whole table' same
    rw [UnderlyingBarsAgree, matchingUnderlyingBars_coarse coarse, matchingUnderlyingBars_coarse coarse']
    exact agrees_of_whole slots (fun x y equal => equal) (whole.transfer same.twins seen)

/-- Two requests with one coarse period, on either endpoint. -/
theorem coarse_bars_agree_iff {agg : String} (coarse : bucketInterval agg = some interval)
    (options : OptionTable) (one two : OptionBarsRequest) (underlyings : UnderlyingTable)
    (three four : UnderlyingBarsRequest) :
    ((∀ options', SameBut noVolume options options' →
        OptionBarsAgree timeBucket interval options' { one with agg := agg } { two with agg := agg }) ↔
      Whole (optionGroup timeBucket interval) (slotOf timeBucket interval) options.items one.conditions
        two.conditions) ∧
    ((∀ underlyings', SameBut noVolume' underlyings underlyings' →
        UnderlyingBarsAgree timeBucket interval underlyings' { three with agg := agg } { four with agg := agg }) ↔
      Whole (underlyingGroup timeBucket interval) (slotOf timeBucket interval) underlyings.items three.conditions
        four.conditions) := by
  have one_coarse : bucketInterval ({ one with agg := agg }).agg = some interval := coarse
  have two_coarse : bucketInterval ({ two with agg := agg }).agg = some interval := coarse
  have three_coarse : bucketInterval ({ three with agg := agg }).agg = some interval := coarse
  have four_coarse : bucketInterval ({ four with agg := agg }).agg = some interval := coarse
  exact ⟨optionBars_agree_iff one_coarse two_coarse options,
    underlyingBars_agree_iff three_coarse four_coarse underlyings⟩

def minuteBar (close : ℚ) : OptionBar1m :=
  { callAt 450 with opening := some (.val close), close := some (.val close), volume := some (.val 10) }

def oneBucket : OptionTable := Dict.assign ∅ [(("C450", 0), minuteBar 4), (("C450", 60000), minuteBar 5)]

def fiveMinutes (_ : String) (time : ℤ) : ℤ := time / 300000 * 300000

def fromMinute (start : ℤ) : OptionBarsRequest := { ticker := "SPY", start := start, end_ := 240000, agg := "5m" }

theorem cut_bucket_differs :
    ¬ ∀ timeBucket interval table one two, bucketInterval one.agg = some interval → two.agg = one.agg →
      OptionBarsAgree timeBucket interval table one two := by
  intro all
  have agrees : Agrees Prod.fst (optionBarsView fiveMinutes "5 minutes" oneBucket)
      (matchingOptionBars fiveMinutes oneBucket (fromMinute 0))
      (matchingOptionBars fiveMinutes oneBucket (fromMinute 60000)) :=
    all fiveMinutes "5 minutes" oneBucket (fromMinute 0) (fromMinute 60000) rfl rfl
  revert agrees
  decide +kernel

theorem coarse_bars_agree_iff_whole :
    OptionBarsAgree fiveMinutes "5 minutes" oneBucket (fromMinute 0) (fromMinute (-300000)) :=
  have fiveMinute : bucketInterval "5m" = some "5 minutes" := rfl
  have agrees_iff := coarse_bars_agree_iff fiveMinute oneBucket (fromMinute 0) (fromMinute (-300000)) ∅
    ⟨"SPY", 0, 0, "5m", 1, 0⟩ ⟨"SPY", 0, 0, "5m", 1, 0⟩
  agrees_iff.1.mpr (by decide +kernel) oneBucket fun _ => rfl

end OptionsProof.CoarseBars
