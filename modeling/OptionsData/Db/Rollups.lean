import OptionsData.Kit.Rollup
import OptionsData.Db.VolumeWeighted

namespace OptionsProof.Rollups

open Kit OptionsModel OptionsProof.Pages OptionsProof.CoarseBars OptionsProof.VolumeWeighted

instance : Std.Associative Number.add where
  assoc a b c := by
    cases a <;> cases b <;> cases c <;> simp only [Number.add]
    rw [add_assoc]

instance : Std.Commutative Number.add where
  comm a b := by
    cases a <;> cases b <;> simp only [Number.add]
    rw [add_comm]

theorem sqlMax_val (a b : ℚ) : Number.sqlMax (.val a) (.val b) = .val (max a b) := by
  rw [Number.sqlMax, Number.sqlLe, max_def]
  split <;> simp_all

theorem sqlMin_val (a b : ℚ) : Number.sqlMin (.val a) (.val b) = .val (min a b) := by
  rw [Number.sqlMin, Number.sqlLe, min_def]
  split <;> simp_all

theorem sqlMax_nan (a : Number) : Number.sqlMax a .nan = .nan ∧ Number.sqlMax .nan a = .nan := by
  cases a <;> exact ⟨rfl, rfl⟩

theorem sqlMin_nan (a : Number) : Number.sqlMin a .nan = a ∧ Number.sqlMin .nan a = a := by
  cases a <;> exact ⟨rfl, rfl⟩

instance : Std.Associative Number.sqlMax where
  assoc a b c := by
    cases a with
    | nan => rw [(sqlMax_nan b).2, (sqlMax_nan c).2, (sqlMax_nan _).2]
    | val a =>
      cases b with
      | nan => rw [(sqlMax_nan _).1, (sqlMax_nan c).2, (sqlMax_nan _).1]
      | val b =>
        cases c with
        | nan => rw [(sqlMax_nan _).1, (sqlMax_nan _).1, (sqlMax_nan _).1]
        | val c => rw [sqlMax_val, sqlMax_val, sqlMax_val, sqlMax_val, max_assoc]

instance : Std.Commutative Number.sqlMax where
  comm a b := by
    cases a with
    | nan => rw [(sqlMax_nan b).1, (sqlMax_nan b).2]
    | val a =>
      cases b with
      | nan => rw [(sqlMax_nan _).1, (sqlMax_nan _).2]
      | val b => rw [sqlMax_val, sqlMax_val, max_comm]

instance : Std.Associative Number.sqlMin where
  assoc a b c := by
    cases a with
    | nan => rw [(sqlMin_nan b).2, (sqlMin_nan _).2]
    | val a =>
      cases b with
      | nan => rw [(sqlMin_nan _).1, (sqlMin_nan c).2]
      | val b =>
        cases c with
        | nan => rw [(sqlMin_nan _).1, (sqlMin_nan _).1]
        | val c => rw [sqlMin_val, sqlMin_val, sqlMin_val, sqlMin_val, min_assoc]

instance : Std.Commutative Number.sqlMin where
  comm a b := by
    cases a with
    | nan => rw [(sqlMin_nan b).1, (sqlMin_nan b).2]
    | val a =>
      cases b with
      | nan => rw [(sqlMin_nan _).1, (sqlMin_nan _).2]
      | val b => rw [sqlMin_val, sqlMin_val, min_comm]

theorem mergeAll_known (op : Number → Number → Number) (values : List (Option Number)) :
    mergeAll op values = mergeAll op ((values.filterMap id).map some) := by
  induction values with
  | nil => rfl
  | cons value values ih =>
    cases value with
    | none => exact Option.merge_none_left.trans ih
    | some value => exact congrArg (Option.merge op (some value)) ih

theorem mergeAll_cons (op : Number → Number → Number) [Std.Associative op] (value : Number) (values : List Number) :
    mergeAll op ((value :: values).map some) = some (values.foldl op value) := by
  induction values generalizing value with
  | nil => rfl
  | cons next values ih =>
    have step : mergeAll op ((value :: next :: values).map some) =
        Option.merge op (some value) (mergeAll op ((next :: values).map some)) := rfl
    rw [step, ih, Option.merge_some_some, List.foldl_cons, List.foldl_assoc]

theorem sqlAggregate_eq (op : Number → Number → Number) [Std.Associative op] (values : List (Option Number)) :
    sqlAggregate op values = mergeAll op values := by
  rw [mergeAll_known, sqlAggregate]
  cases known : values.filterMap id with
  | nil => rfl
  | cons value rest => exact (mergeAll_cons op value rest).symm

section

variable {ρ κ : Type} [DecidableEq κ] {key : ρ → κ} {bar : κ → List ρ → ρ} {rows : List ρ}

theorem sqlAggregate_grouped (op : Number → Number → Number) [Std.Associative op] [Std.Commutative op]
    (value : ρ → Option Number)
    (column : ∀ g ∈ groups key rows, value (bar g.1 g.2) = sqlAggregate op (g.2.map value)) :
    sqlAggregate op ((grouped key bar rows).map value) = sqlAggregate op (rows.map value) := by
  have parts : (grouped key bar rows).map value =
      ((groups key rows).map fun g => g.2.map value).map (mergeAll op) := by
    rw [grouped, List.map_map, List.map_map]
    apply List.map_congr_left
    intro g listed
    exact (column g listed).trans (sqlAggregate_eq op _)
  have whole : ((groups key rows).map fun g => g.2.map value).flatten =
      ((groups key rows).flatMap Prod.snd).map value := by
    rw [List.map_flatMap, List.flatMap_def]
  rw [sqlAggregate_eq, sqlAggregate_eq, parts, mergeAll_flatten, whole]
  exact mergeAll_perm op ((groups_perm key rows).map value)

structure Strict (before : ℤ → ℤ → Bool) : Prop where
  asymm : ∀ a b, before a b = true → before b a = false
  total : ∀ a b, a ≠ b → before a b = true ∨ before b a = true
  trans : ∀ a b c, before a b = true → before b c = true → before a c = true

theorem strict_lt : Strict fun a b => decide (a < b) where
  asymm a b := by simp only [decide_eq_true_eq, decide_eq_false_iff_not]; omega
  total a b := by simp only [decide_eq_true_eq]; omega
  trans a b c := by simp only [decide_eq_true_eq]; omega

theorem strict_gt : Strict fun a b => decide (b < a) where
  asymm a b := by simp only [decide_eq_true_eq, decide_eq_false_iff_not]; omega
  total a b := by simp only [decide_eq_true_eq]; omega
  trans a b c := by simp only [decide_eq_true_eq]; omega

variable {before : ℤ → ℤ → Bool} {time : ρ → ℤ}

def Least (before : ℤ → ℤ → Bool) (time : ρ → ℤ) (rows : List ρ) (r : ρ) : Prop :=
  r ∈ rows ∧ ∀ other ∈ rows, other ≠ r → before (time r) (time other) = true

theorem pickRow_concat (rows : List ρ) (row : ρ) :
    pickRow before time (rows ++ [row]) = (pickRow before time rows).elim (some row) fun old =>
      if before (time row) (time old) then some row else some old := by
  rw [pickRow, List.foldl_append, List.foldl_cons, List.foldl_nil, ← pickRow]
  cases pickRow before time rows <;> rfl

theorem pickRow_none (none : pickRow before time rows = none) : rows = [] := by
  rcases List.eq_nil_or_concat rows with empty | ⟨front, row, rfl⟩
  · exact empty
  · rw [List.concat_eq_append, pickRow_concat] at none
    cases held : pickRow before time front with
    | none =>
      rw [held] at none
      cases none
    | some old =>
      rw [held, Option.elim_some] at none
      split at none <;> cases none

theorem pickRow_least (strict : Strict before) (distinct : ∀ a ∈ rows, ∀ b ∈ rows, time a = time b → a = b) :
    ∀ r, pickRow before time rows = some r ↔ Least before time rows r := by
  induction rows using List.reverseRecOn with
  | nil => exact fun r => iff_of_false (fun none => by cases none) fun least => List.not_mem_nil least.1
  | append_singleton rows row ih =>
    have ih := ih fun a memA b memB => distinct a (List.mem_append_left _ memA) b (List.mem_append_left _ memB)
    have last : row ∈ rows ++ [row] := List.mem_append_right _ (List.mem_singleton_self row)
    have picked : ∃ r, pickRow before time (rows ++ [row]) = some r ∧ Least before time (rows ++ [row]) r := by
      rw [pickRow_concat]
      cases held : pickRow before time rows with
      | none =>
        refine ⟨row, rfl, last, fun other member differs => ?_⟩
        rw [pickRow_none held] at member
        exact absurd (List.mem_singleton.mp member) differs
      | some old =>
        obtain ⟨member, least⟩ := (ih old).mp held
        have stays : old ∈ rows ++ [row] := List.mem_append_left _ member
        rw [Option.elim_some]
        cases earlier : before (time row) (time old) with
        | true =>
          refine ⟨row, if_pos rfl, last, fun other listed differs => ?_⟩
          rcases List.mem_append.mp listed with front | end_
          · by_cases same : other = old
            · exact same ▸ earlier
            · exact strict.trans _ _ _ earlier (least other front same)
          · exact absurd (List.mem_singleton.mp end_) differs
        | false =>
          refine ⟨old, if_neg Bool.false_ne_true, stays, fun other listed differs => ?_⟩
          rcases List.mem_append.mp listed with front | end_
          · exact least other front differs
          · obtain rfl := List.mem_singleton.mp end_
            have apart : time old ≠ time other := fun same => differs (distinct other last old stays same.symm)
            rcases strict.total _ _ apart with ahead | behind
            · exact ahead
            · exact absurd (earlier.symm.trans behind) Bool.false_ne_true
    obtain ⟨r, shown, least⟩ := picked
    intro r'
    rw [shown]
    constructor
    · intro same
      exact Option.some.inj same ▸ least
    · intro other
      by_contra differs
      have unequal : r' ≠ r := fun same => differs (congrArg some same.symm)
      have ahead := least.2 r' other.1 unequal
      exact absurd ((strict.asymm _ _ ahead).symm.trans (other.2 r least.1 unequal.symm)) Bool.false_ne_true

theorem pickRow_grouped {β : Type} {slot : κ → ℤ} {value : ρ → Option β} (strict : Strict before)
    (distinct : ∀ a ∈ rows, ∀ b ∈ rows, time a = time b → a = b)
    (placed : ∀ k members, time (bar k members) = slot k)
    (told : ∀ a ∈ rows, ∀ b ∈ rows, slot (key a) = slot (key b) → key a = key b)
    (monotone : ∀ a ∈ rows, ∀ b ∈ rows,
      before (time a) (time b) = true → before (slot (key b)) (slot (key a)) = false)
    (column : ∀ k members, value (bar k members) = (pickRow before time members).bind value) :
    (pickRow before time (grouped key bar rows)).bind value = (pickRow before time rows).bind value := by
  have barsDistinct : ∀ a ∈ grouped key bar rows, ∀ b ∈ grouped key bar rows, time a = time b → a = b := by
    intro a memA b memB same
    obtain ⟨row, stored, rfl⟩ := mem_grouped.mp memA
    obtain ⟨row', stored', rfl⟩ := mem_grouped.mp memB
    rw [placed, placed] at same
    rw [told row stored row' stored' same]
  cases first : pickRow before time rows with
  | none =>
    rw [pickRow_none first]
    rfl
  | some r =>
    obtain ⟨member, least⟩ := (pickRow_least strict distinct r).mp first
    have inGroup : r ∈ rows.filter fun other => key other = key r :=
      List.mem_filter.mpr ⟨member, decide_eq_true rfl⟩
    have firstBar : Least before time (grouped key bar rows)
        (bar (key r) (rows.filter fun other => key other = key r)) := by
      refine ⟨mem_grouped.mpr ⟨r, member, rfl⟩, fun other listed differs => ?_⟩
      obtain ⟨row, stored, rfl⟩ := mem_grouped.mp listed
      rw [placed, placed]
      have apart : slot (key r) ≠ slot (key row) := fun same => differs (by rw [told r member row stored same])
      have unequal : row ≠ r := fun same => apart (by rw [same])
      rcases strict.total _ _ apart with ahead | behind
      · exact ahead
      · exact absurd ((monotone r member row stored (least row stored unequal)).symm.trans behind) Bool.false_ne_true
    have within : pickRow before time (rows.filter fun other => key other = key r) = some r := by
      refine (pickRow_least strict (fun a memA b memB => ?_) r).mpr ⟨inGroup, fun other listed differs => ?_⟩
      · exact distinct a (List.mem_of_mem_filter memA) b (List.mem_of_mem_filter memB)
      · exact least other (List.mem_of_mem_filter listed) differs
    rw [(pickRow_least strict barsDistinct _).mpr firstBar, Option.bind_some, Option.bind_some, column, within,
      Option.bind_some]

end

/-- Every bucket of the coarse period is made of whole buckets of the fine one. -/
structure Nested (timeBucket : String → ℤ → ℤ) (fine coarse : String) : Prop where
  monotone : ∀ s t, s ≤ t → timeBucket fine s ≤ timeBucket fine t
  nested : ∀ t, timeBucket coarse (timeBucket fine t) = timeBucket coarse t

variable {timeBucket : String → ℤ → ℤ} {fine coarse : String}

theorem Nested.before_lt (nested : Nested timeBucket fine coarse) {s t : ℤ} (earlier : decide (s < t) = true) :
    decide (timeBucket fine t < timeBucket fine s) = false :=
  decide_eq_false (not_lt.mpr (nested.monotone s t (of_decide_eq_true earlier).le))

structure OneSeries {ρ κ : Type} (timeBucket : String → ℤ → ℤ) (fine : String) (key : BarKey × ρ → κ) (slot : κ → ℤ)
    (rows : List (BarKey × ρ)) : Prop where
  distinct : ∀ a ∈ rows, ∀ b ∈ rows, barTime a = barTime b → a = b
  slotted : ∀ row, slot (key row) = timeBucket fine (barTime row)
  told : ∀ a ∈ rows, ∀ b ∈ rows, slot (key a) = slot (key b) → key a = key b

theorem distinct_of_table {ρ : Type} {table : Dict BarKey ρ} {rows : List (BarKey × ρ)}
    (stored : ∀ row ∈ rows, row ∈ table.items) (series : ∀ a ∈ rows, ∀ b ∈ rows, a.1.1 = b.1.1) :
    ∀ a ∈ rows, ∀ b ∈ rows, barTime a = barTime b → a = b := by
  intro a memA b memB same
  have key : a.1 = b.1 := Prod.ext (series a memA b memB) same
  have foundA := Dict.mem_items.mp (stored a memA)
  have foundB := Dict.mem_items.mp (stored b memB)
  rw [key, foundB] at foundA
  exact Prod.ext key (Option.some.inj foundA).symm

section

variable {ρ κ β : Type} [DecidableEq κ] {key : BarKey × ρ → κ} {slot : κ → ℤ} {rows : List (BarKey × ρ)}
  {bar : κ → List (BarKey × ρ) → BarKey × ρ}

theorem OneSeries.first (series : OneSeries timeBucket fine key slot rows) (nested : Nested timeBucket fine coarse)
    (placed : ∀ k members, barTime (bar k members) = slot k) (value : BarKey × ρ → Option β)
    (column : ∀ k members, value (bar k members) = firstBy barTime value members) :
    firstBy barTime value (grouped key bar rows) = firstBy barTime value rows := by
  refine pickRow_grouped strict_lt series.distinct placed series.told (fun a _ b _ earlier => ?_) column
  rw [series.slotted, series.slotted]
  exact nested.before_lt earlier

theorem OneSeries.last (series : OneSeries timeBucket fine key slot rows) (nested : Nested timeBucket fine coarse)
    (placed : ∀ k members, barTime (bar k members) = slot k) (value : BarKey × ρ → Option β)
    (column : ∀ k members, value (bar k members) = lastBy barTime value members) :
    lastBy barTime value (grouped key bar rows) = lastBy barTime value rows := by
  refine pickRow_grouped strict_gt series.distinct placed series.told (fun a _ b _ later => ?_) column
  rw [series.slotted, series.slotted]
  exact nested.before_lt later

end

theorem underlying_rolls (nested : Nested timeBucket fine coarse) {table : UnderlyingTable} {k : BarKey}
    {rows : List UnderlyingRow} (stored : ∀ row ∈ rows, row ∈ table.items)
    (group : ∀ row ∈ rows, underlyingGroup timeBucket coarse row = k) :
    underlyingAggregate k (grouped (underlyingGroup timeBucket fine) underlyingAggregate rows) =
      underlyingAggregate k rows := by
  have ticker : ∀ a ∈ rows, ∀ b ∈ rows, a.1.1 = b.1.1 := by
    intro a memA b memB
    have same := (group a memA).trans (group b memB).symm
    exact (Prod.mk.inj same).1
  have series : OneSeries timeBucket fine (underlyingGroup timeBucket fine) Prod.snd rows :=
    ⟨distinct_of_table stored ticker, fun _ => rfl, fun a memA b memB same => Prod.ext (ticker a memA b memB) same⟩
  have placed (k : BarKey) (members : List UnderlyingRow) : barTime (underlyingAggregate k members) = k.2 := rfl
  have all (op : Number → Number → Number) [Std.Associative op] [Std.Commutative op]
      (value : UnderlyingRow → Option Number)
      (column : ∀ k members, value (underlyingAggregate k members) = sqlAggregate op (members.map value)) :
      sqlAggregate op ((grouped (underlyingGroup timeBucket fine) underlyingAggregate rows).map value) =
        sqlAggregate op (rows.map value) :=
    sqlAggregate_grouped op value fun g _ => column g.1 g.2
  rw [underlyingAggregate, underlyingAggregate, series.first nested placed (fun row => row.2.opening) fun _ _ => rfl,
    all Number.sqlMax (fun row => row.2.high) fun _ _ => rfl, all Number.sqlMin (fun row => row.2.low) fun _ _ => rfl,
    series.last nested placed (fun row => row.2.close) fun _ _ => rfl, sqlSum,
    all Number.add (fun row => row.2.volume) fun _ _ => rfl, sqlSum]

def noVwap (row : OptionRow) : OptionRow := (row.1, { row.2 with vwap := none })

def product (row : OptionRow) : Option Number := row.2.vwap.bind fun vwap => row.2.volume.map vwap.mul

theorem option_rolls (nested : Nested timeBucket fine coarse) {table : OptionTable} {k : OptionGroup}
    {rows : List OptionRow} (stored : ∀ row ∈ rows, row ∈ table.items)
    (group : ∀ row ∈ rows, optionGroup timeBucket coarse row = k) :
    noVwap (optionAggregate k (grouped (optionGroup timeBucket fine) optionAggregate rows)) =
      noVwap (optionAggregate k rows) := by
  have same : ∀ a ∈ rows, ∀ b ∈ rows, a.1.1 = b.1.1 ∧ a.2.underlyingTicker = b.2.underlyingTicker ∧
      a.2.expirationDate = b.2.expirationDate ∧ a.2.strike = b.2.strike ∧ a.2.right = b.2.right := by
    intro a memA b memB
    have same := (group a memA).trans (group b memB).symm
    exact (OptionGroup.mk.inj same).2
  have series : OneSeries timeBucket fine (optionGroup timeBucket fine) OptionGroup.time rows := by
    refine ⟨distinct_of_table stored fun a memA b memB => (same a memA b memB).1, fun _ => rfl, ?_⟩
    intro a memA b memB time
    obtain ⟨contract, ticker, expiration, strike, right⟩ := same a memA b memB
    exact OptionGroup.mk.injEq .. ▸ ⟨time, contract, ticker, expiration, strike, right⟩
  have placed (k : OptionGroup) (members : List OptionRow) : barTime (optionAggregate k members) = k.time := rfl
  have all (op : Number → Number → Number) [Std.Associative op] [Std.Commutative op]
      (value : OptionRow → Option Number)
      (column : ∀ k members, value (optionAggregate k members) = sqlAggregate op (members.map value)) :
      sqlAggregate op ((grouped (optionGroup timeBucket fine) optionAggregate rows).map value) =
        sqlAggregate op (rows.map value) :=
    sqlAggregate_grouped op value fun g _ => column g.1 g.2
  rw [noVwap, noVwap, optionAggregate, optionAggregate,
    series.first nested placed (fun row => row.2.opening) fun _ _ => rfl,
    all Number.sqlMax (fun row => row.2.high) fun _ _ => rfl,
    all Number.sqlMin (fun row => row.2.low) fun _ _ => rfl,
    series.last nested placed (fun row => row.2.close) fun _ _ => rfl,
    series.last nested placed (fun row => row.2.bid) fun _ _ => rfl,
    series.last nested placed (fun row => row.2.ask) fun _ _ => rfl,
    series.last nested placed (fun row => row.2.delta) fun _ _ => rfl,
    series.last nested placed (fun row => row.2.gamma) fun _ _ => rfl,
    series.last nested placed (fun row => row.2.theta) fun _ _ => rfl,
    series.last nested placed (fun row => row.2.vega) fun _ _ => rfl,
    series.last nested placed (fun row => row.2.rho) fun _ _ => rfl,
    series.last nested placed (fun row => row.2.iv) fun _ _ => rfl,
    series.last nested placed (fun row => row.2.greeksSource) fun _ _ => rfl,
    series.last nested placed (fun row => row.2.openInterest) fun _ _ => rfl]
  simp only [sqlSum]
  rw [all Number.add (fun row => row.2.volume) fun _ _ => rfl,
    all Number.add (fun row => row.2.bidVolume) fun _ _ => rfl,
    all Number.add (fun row => row.2.askVolume) fun _ _ => rfl]

/-- No vwap is stored beside a volume of zero, which a sum over volumes would lose. -/
def Weighted (row : OptionRow) : Prop :=
  VolumeOk row ∧ (row.2.vwap ≠ none → row.2.volume ≠ none → Traded row)

theorem product_none {row : OptionRow} (weighted : Weighted row) (untraded : ¬ Traded row) : product row = none := by
  rw [product]
  cases priced : row.2.vwap with
  | none => rfl
  | some vwap =>
    cases counted : row.2.volume with
    | none => rfl
    | some volume =>
      have traded := weighted.2 (priced ▸ Option.some_ne_none _) (counted ▸ Option.some_ne_none _)
      exact absurd traded untraded

theorem div_mul (total : Number) {volume : ℚ} (positive : 0 < volume) :
    (total.div (.val volume)).mul (.val volume) = total := by
  cases total with
  | nan => rfl
  | val total => exact congrArg Number.val (div_mul_cancel₀ total positive.ne')

theorem product_aggregate {rows : List OptionRow} (weighted : ∀ row ∈ rows, Weighted row) (k : OptionGroup) :
    product (optionAggregate k rows) = sqlSum (rows.map product) := by
  have ok : ∀ row ∈ rows, VolumeOk row := fun row member => (weighted row member).1
  have shape : product (optionAggregate k rows) =
      (vwapOf rows).bind fun vwap => (sqlSum (rows.map fun row => row.2.volume)).map vwap.mul := rfl
  rw [shape, vwapOf_eq ok]
  by_cases traded : 0 < totalVolume rows
  · have known : rows.filterMap volumeOf ≠ [] := by
      intro empty
      rw [totalVolume, empty] at traded
      exact lt_irrefl _ traded
    rw [if_pos traded, sqlSum_val (volumes_known ok), if_neg known]
    show Option.bind (Option.map _ (sqlSum (rows.map product))) _ = _
    cases sqlSum (rows.map product) with
    | none => rfl
    | some total => exact congrArg some (div_mul total traded)
  · rw [if_neg traded, Option.bind_none, eq_comm, sqlSum_none]
    intro value member
    obtain ⟨row, listed, rfl⟩ := List.mem_map.mp member
    exact product_none (weighted row listed) fun here => traded ((totalVolume_pos ok).mpr ⟨row, listed, here⟩)

theorem vwap_rolls {rows : List OptionRow} (weighted : ∀ row ∈ rows, Weighted row) :
    vwapOf (grouped (optionGroup timeBucket fine) optionAggregate rows) = vwapOf rows := by
  have volumes : sqlSum ((grouped (optionGroup timeBucket fine) optionAggregate rows).map fun row => row.2.volume) =
      sqlSum (rows.map fun row => row.2.volume) :=
    sqlAggregate_grouped Number.add (fun row : OptionRow => row.2.volume) fun _ _ => rfl
  have products : sqlSum ((grouped (optionGroup timeBucket fine) optionAggregate rows).map product) =
      sqlSum (rows.map product) := by
    apply sqlAggregate_grouped Number.add product
    intro g listed
    apply product_aggregate
    intro row member
    rw [(mem_groups.mp listed).2] at member
    exact weighted row (List.mem_of_mem_filter member)
  have shape (rows : List OptionRow) : vwapOf rows =
      (sqlSum (rows.map fun row => row.2.volume)).bind fun volume =>
        if volume.sqlPositive then (sqlSum (rows.map product)).map fun total => total.div volume else none := rfl
  rw [shape, shape, volumes, products]

theorem eq_of_noVwap {bar bar' : OptionRow} (same : noVwap bar = noVwap bar') (vwap : bar.2.vwap = bar'.2.vwap) :
    bar = bar' := by
  have restored (row : OptionRow) : row = ((noVwap row).1, { (noVwap row).2 with vwap := row.2.vwap }) := rfl
  rw [restored bar, restored bar', same, vwap]

theorem option_rolls_whole (nested : Nested timeBucket fine coarse) {table : OptionTable} {k : OptionGroup}
    {rows : List OptionRow} (stored : ∀ row ∈ rows, row ∈ table.items)
    (group : ∀ row ∈ rows, optionGroup timeBucket coarse row = k) (weighted : ∀ row ∈ rows, Weighted row) :
    optionAggregate k (grouped (optionGroup timeBucket fine) optionAggregate rows) = optionAggregate k rows :=
  eq_of_noVwap (option_rolls nested stored group) (vwap_rolls weighted)

section Requests

variable (timeBucket) (table : OptionTable) (underlyings : UnderlyingTable) (request : OptionBarsRequest)

def OptionBarsRollUp {γ : Type} (see : OptionRow → γ) (fineAgg coarseAgg coarse : String) : Prop :=
  ∀ shown, shown ∈ (optionBars timeBucket coarse
      (matchingOptionBars timeBucket table { request with agg := fineAgg })).map see ↔
    shown ∈ (matchingOptionBars timeBucket table { request with agg := coarseAgg }).map see

def UnderlyingBarsRollUp (request : UnderlyingBarsRequest) (fineAgg coarseAgg coarse : String) : Prop :=
  ∀ bar, bar ∈ underlyingBars timeBucket coarse
      (matchingUnderlyingBars timeBucket underlyings { request with agg := fineAgg }) ↔
    bar ∈ matchingUnderlyingBars timeBucket underlyings { request with agg := coarseAgg }

end Requests

theorem option_bars_roll_up {γ : Type} {see : OptionRow → γ} {fineAgg coarseAgg : String}
    {table : OptionTable} {request : OptionBarsRequest} (nested : Nested timeBucket fine coarse)
    (finer : bucketInterval fineAgg = some fine) (coarser : bucketInterval coarseAgg = some coarse)
    (rolls : ∀ k rows, (∀ row ∈ rows, row ∈ table.items) → (∀ row ∈ rows, optionGroup timeBucket coarse row = k) →
      see (optionAggregate k (grouped (optionGroup timeBucket fine) optionAggregate rows)) =
        see (optionAggregate k rows)) : OptionBarsRollUp timeBucket table request see fineAgg coarseAgg coarse := by
  have fineBars : matchingOptionBars timeBucket table { request with agg := fineAgg } =
      grouped (optionGroup timeBucket fine) optionAggregate (table.items.filter request.conditions) :=
    matchingOptionBars_coarse finer table
  have coarseBars : matchingOptionBars timeBucket table { request with agg := coarseAgg } =
      grouped (optionGroup timeBucket coarse) optionAggregate (table.items.filter request.conditions) :=
    matchingOptionBars_coarse coarser table
  rw [OptionBarsRollUp, fineBars, coarseBars]
  apply grouped_grouped fun k => { k with time := timeBucket coarse k.time }
  · exact fun k members => rfl
  · intro row
    rw [optionGroup, optionGroup, nested.nested]
  · intro k
    apply rolls
    · exact fun row member => List.mem_of_mem_filter (List.mem_of_mem_filter member)
    · exact fun row member => of_decide_eq_true (List.mem_filter.mp member).2

theorem underlying_bars_roll_up {fineAgg coarseAgg : String} {table : UnderlyingTable}
    {request : UnderlyingBarsRequest} (nested : Nested timeBucket fine coarse)
    (finer : bucketInterval fineAgg = some fine) (coarser : bucketInterval coarseAgg = some coarse) :
    UnderlyingBarsRollUp timeBucket table request fineAgg coarseAgg coarse := by
  have fineBars : matchingUnderlyingBars timeBucket table { request with agg := fineAgg } =
      grouped (underlyingGroup timeBucket fine) underlyingAggregate (table.items.filter request.conditions) :=
    matchingUnderlyingBars_coarse finer table
  have coarseBars : matchingUnderlyingBars timeBucket table { request with agg := coarseAgg } =
      grouped (underlyingGroup timeBucket coarse) underlyingAggregate (table.items.filter request.conditions) :=
    matchingUnderlyingBars_coarse coarser table
  rw [UnderlyingBarsRollUp, fineBars, coarseBars]
  intro bar
  rw [← List.map_id (underlyingBars _ _ _), ← List.map_id (grouped (underlyingGroup timeBucket coarse) _ _)]
  apply grouped_grouped fun k => (k.1, timeBucket coarse k.2)
  · exact fun k members => rfl
  · intro row
    exact congrArg (Prod.mk row.1.1) (nested.nested _)
  · intro k
    apply underlying_rolls nested
    · exact fun row member => List.mem_of_mem_filter (List.mem_of_mem_filter member)
    · exact fun row member => of_decide_eq_true (List.mem_filter.mp member).2

/-- Bars of a period rolled up into a coarser one are the bars of that, but for vwaps beside a volume of zero. -/
theorem periods_roll_up (nested : BUCKET_INTERVALS.Pairwise fun fine coarse => Nested timeBucket fine.2 coarse.2)
    (options : OptionTable) (underlyings : UnderlyingTable) :
    BUCKET_INTERVALS.Pairwise fun fine coarse =>
      (∀ request, UnderlyingBarsRollUp timeBucket underlyings request fine.1 coarse.1 coarse.2) ∧
        (∀ request, OptionBarsRollUp timeBucket options request noVwap fine.1 coarse.1 coarse.2) ∧
        ((∀ row ∈ options.items, Weighted row) →
          ∀ request, OptionBarsRollUp timeBucket options request id fine.1 coarse.1 coarse.2) := by
  have named : BUCKET_INTERVALS.Pairwise fun fine coarse =>
      bucketInterval fine.1 = some fine.2 ∧ bucketInterval coarse.1 = some coarse.2 := by decide +kernel
  refine (nested.and named).imp fun both => ?_
  obtain ⟨nested, finer, coarser⟩ := both
  refine ⟨fun request => ?_, fun request => ?_, fun weighted request => ?_⟩
  · exact underlying_bars_roll_up nested finer coarser
  · exact option_bars_roll_up nested finer coarser fun k rows stored group => option_rolls nested stored group
  · exact option_bars_roll_up nested finer coarser fun k rows stored group =>
      option_rolls_whole nested stored group fun row member => weighted row (stored row member)

def BUCKET_WIDTHS : List (String × ℤ) :=
  [("5 minutes", 300000), ("15 minutes", 900000), ("30 minutes", 1800000), ("1 hour", 3600000), ("1 day", 86400000),
    ("1 week", 604800000)]

def bucketWidth (interval : String) : ℤ := (BUCKET_WIDTHS.lookup interval).getD 1

/-- Monday, 3 January 2000, where TimescaleDB's buckets of a fixed width start. -/
def BUCKET_ORIGIN : ℤ := 946857600000

def fixedWidthBucket (interval : String) (t : ℤ) : ℤ :=
  BUCKET_ORIGIN + bucketWidth interval * ((t - BUCKET_ORIGIN) / bucketWidth interval)

theorem fixedWidth_nested {fine coarse : String} (positive : 0 < bucketWidth fine)
    (divides : bucketWidth fine ∣ bucketWidth coarse) :
    Nested fixedWidthBucket fine coarse where
  monotone s t earlier := by
    have quotient := Int.ediv_le_ediv positive (sub_le_sub_right earlier BUCKET_ORIGIN)
    exact add_le_add_right (mul_le_mul_of_nonneg_left quotient positive.le) BUCKET_ORIGIN
  nested t := by
    obtain ⟨times, whole⟩ := divides
    rw [fixedWidthBucket, fixedWidthBucket, fixedWidthBucket, add_sub_cancel_left, whole,
      Int.mul_ediv_mul_of_pos _ _ positive, Int.ediv_ediv_of_nonneg positive.le]

theorem fixedWidth_periods :
    BUCKET_INTERVALS.Pairwise fun fine coarse => Nested fixedWidthBucket fine.2 coarse.2 := by
  have widths : BUCKET_INTERVALS.Pairwise fun fine coarse =>
      0 < bucketWidth fine.2 ∧ bucketWidth fine.2 ∣ bucketWidth coarse.2 := by decide +kernel
  exact widths.imp fun both => fixedWidth_nested both.1 both.2

theorem periods_roll_up_hour : OptionBarsRollUp fixedWidthBucket wholePriced (fromMinute 0) id "5m" "1h" "1 hour" ∧
    ∃ bar ∈ matchingOptionBars fixedWidthBucket wholePriced { fromMinute 0 with agg := "1h" },
      bar.2.vwap = some (.val 11) := by
  have weighted : ∀ row ∈ wholePriced.items, Weighted row := by
    intro row member
    have volume : ∀ row ∈ wholePriced.items, row.2.volume = some (.val 1) := by decide +kernel
    exact ⟨tradedBar_ok volume row member, fun _ _ => ⟨1, volume row member, zero_lt_one⟩⟩
  have rolled := periods_roll_up fixedWidth_periods wholePriced ∅
  have listed := List.pairwise_iff_getElem.mp rolled 0 3 (by decide) (by decide) (by decide)
  exact ⟨listed.2.2 weighted (fromMinute 0), by decide +kernel⟩

def apart : OptionTable :=
  Dict.assign ∅ [(("C450", 0), { callAt 450 with vwap := some (.val 10), volume := some (.val 0) }),
    (("C450", 300000), tradedBar none)]

theorem unweighted_vwap_lost :
    ¬ ∀ options request, OptionBarsRollUp fixedWidthBucket options request id "5m" "15m" "15 minutes" := by
  intro all
  have shown : ∃ bar ∈ matchingOptionBars fixedWidthBucket apart
      { ticker := "SPY", start := 0, end_ := 900000, agg := "15m" }, bar ∉ optionBars fixedWidthBucket "15 minutes"
        (matchingOptionBars fixedWidthBucket apart { ticker := "SPY", start := 0, end_ := 900000, agg := "5m" }) := by
    decide +kernel
  obtain ⟨bar, listed, lost⟩ := shown
  have same := all apart { ticker := "SPY", start := 0, end_ := 900000 } bar
  rw [List.map_id, List.map_id] at same
  exact lost (same.mpr listed)

end OptionsProof.Rollups
