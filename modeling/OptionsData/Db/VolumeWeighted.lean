import OptionsData.Kit.WeightedMean
import OptionsData.Api.CoarseBars

namespace OptionsProof.VolumeWeighted

open Kit OptionsModel OptionsProof.Pages OptionsProof.CoarseBars

variable {rows : List OptionRow} {row : OptionRow} {timeBucket : String → ℤ → ℤ} {interval : String}

def volumeOf (row : OptionRow) : Option ℚ :=
  match row.2.volume with
  | some (.val volume) => some volume
  | _ => none

def sampleOf (row : OptionRow) : Option (ℚ × ℚ) :=
  match row.2.vwap, row.2.volume with
  | some (.val vwap), some (.val volume) => some (vwap, volume)
  | _, _ => none

def samples (rows : List OptionRow) : List (ℚ × ℚ) := rows.filterMap sampleOf

def totalVolume (rows : List OptionRow) : ℚ := (rows.filterMap volumeOf).sum

def unpricedVolume (rows : List OptionRow) : ℚ := totalVolume (rows.filter fun row => (sampleOf row).isNone)

def VolumeOk (row : OptionRow) : Prop := ∀ volume, row.2.volume = some volume → ∃ q, 0 ≤ q ∧ volume = .val q

def Traded (row : OptionRow) : Prop := ∃ volume, row.2.volume = some (.val volume) ∧ 0 < volume

structure IsMean (rows : List OptionRow) (vwap : ℚ) : Prop where
  traded : 0 < weight (samples rows)
  mean : vwap = moment (samples rows) / weight (samples rows)
  low : ∃ low ∈ samples rows, 0 < low.2 ∧ low.1 ≤ vwap
  high : ∃ high ∈ samples rows, 0 < high.2 ∧ vwap ≤ high.1

def TrueMean (rows : List OptionRow) (vwap : Option Number) : Prop :=
  ∀ value, vwap = some value → ∃ q, value = .val q ∧ IsMean rows q

/-- No volume stands in the denominator without its vwap in the numerator, or else that makes no difference. -/
def PricedWhereTraded (rows : List OptionRow) : Prop :=
  (∀ row ∈ rows, ¬ Traded row) ∨ (∀ row ∈ rows, row.2.vwap = none ∨ row.2.volume = none) ∨
    (∀ row ∈ rows, row.2.vwap = some .nan → row.2.volume = none) ∧
      ((∀ row ∈ rows, Traded row → row.2.vwap ≠ none) ∨
        moment (samples rows) = 0 ∧ ∃ row ∈ rows, Traded row ∧ row.2.vwap ≠ none)

theorem foldl_add_val (known : List ℚ) (q : ℚ) :
    (known.map Number.val).foldl Number.add (.val q) = .val (q + known.sum) := by
  induction known generalizing q with
  | nil => simp
  | cons value known ih => rw [List.map_cons, List.foldl_cons, Number.add, ih, List.sum_cons, add_assoc]

theorem foldl_add_nan (values : List Number) : values.foldl Number.add .nan = .nan := by
  induction values with
  | nil => rfl
  | cons value values ih => exact ih

theorem foldl_add_mem {values : List Number} (member : Number.nan ∈ values) (value : Number) :
    values.foldl Number.add value = .nan := by
  induction values generalizing value with
  | nil => cases member
  | cons head values ih =>
    rw [List.foldl_cons]
    rcases List.mem_cons.mp member with rfl | later
    · cases value <;> exact foldl_add_nan values
    · exact ih later _

theorem sqlSum_val {values : List (Option Number)} {known : List ℚ}
    (numbers : values.filterMap id = known.map Number.val) :
    sqlSum values = if known = [] then none else some (.val known.sum) := by
  rw [sqlSum, sqlAggregate, numbers]
  cases known with
  | nil => rfl
  | cons value known =>
    rw [List.map_cons, if_neg (List.cons_ne_nil _ _)]
    dsimp only
    rw [foldl_add_val, List.sum_cons]

theorem sqlSum_nan {values : List (Option Number)} (member : some .nan ∈ values) : sqlSum values = some .nan := by
  have listed : Number.nan ∈ values.filterMap id := List.mem_filterMap.mpr ⟨some .nan, member, rfl⟩
  rw [sqlSum, sqlAggregate]
  cases known : values.filterMap id with
  | nil => exact absurd (known ▸ listed) List.not_mem_nil
  | cons value rest =>
    rw [known] at listed
    rcases List.mem_cons.mp listed with rfl | later
    · exact congrArg some (foldl_add_nan rest)
    · exact congrArg some (foldl_add_mem later value)

theorem sqlSum_none {values : List (Option Number)} : sqlSum values = none ↔ ∀ value ∈ values, value = none := by
  rw [sqlSum, sqlAggregate]
  cases known : values.filterMap id with
  | nil => simpa using List.filterMap_eq_nil_iff.mp known
  | cons value rest =>
    have listed : value ∈ values.filterMap id := known ▸ List.mem_cons_self
    obtain ⟨held, member, rfl⟩ := List.mem_filterMap.mp listed
    constructor
    · intro impossible
      cases impossible
    · intro all
      cases all _ member

theorem volumeOf_eq_some {q : ℚ} : volumeOf row = some q ↔ row.2.volume = some (.val q) := by
  unfold volumeOf
  split
  · next held => rw [held, Option.some.injEq, Option.some.injEq, Number.val.injEq]
  · next other => exact iff_of_false (fun impossible => by cases impossible) (other q)

theorem sampleOf_eq_some {sample : ℚ × ℚ} : sampleOf row = some sample ↔
    row.2.vwap = some (.val sample.1) ∧ row.2.volume = some (.val sample.2) := by
  unfold sampleOf
  split
  · next priced counted =>
    simp only [priced, counted, Option.some.injEq, Number.val.injEq]
    exact Prod.ext_iff
  · next other =>
    exact iff_of_false (fun impossible => by cases impossible) fun both => other _ _ both.1 both.2

theorem mem_samples {sample : ℚ × ℚ} : sample ∈ samples rows ↔
    ∃ row ∈ rows, row.2.vwap = some (.val sample.1) ∧ row.2.volume = some (.val sample.2) := by
  simp only [samples, List.mem_filterMap, sampleOf_eq_some]

theorem VolumeOk.nonneg (ok : VolumeOk row) {q : ℚ} (held : row.2.volume = some (.val q)) : 0 ≤ q := by
  obtain ⟨q', nonneg, same⟩ := ok _ held
  cases same
  exact nonneg

theorem vwapOf_unpriced (unpriced : ∀ row ∈ rows, row.2.vwap = none ∨ row.2.volume = none) : vwapOf rows = none := by
  have products : sqlSum (rows.map fun row => row.2.vwap.bind fun vwap => row.2.volume.map vwap.mul) = none := by
    rw [sqlSum_none]
    intro value member
    obtain ⟨row, listed, rfl⟩ := List.mem_map.mp member
    rcases unpriced row listed with vwap | volume
    · rw [vwap, Option.bind_none]
    · rw [volume]
      cases row.2.vwap <;> rfl
  rw [vwapOf, products]
  cases sqlSum (rows.map fun row => row.2.volume) with
  | none => rfl
  | some volume => exact ite_self _

section Volumes

variable (ok : ∀ row ∈ rows, VolumeOk row)

include ok

theorem volumes_known : (rows.map fun row => row.2.volume).filterMap id = (rows.filterMap volumeOf).map Number.val := by
  rw [List.filterMap_map, List.map_filterMap]
  refine List.filterMap_congr fun row member => ?_
  cases known : row.2.volume with
  | none => simp [known, volumeOf]
  | some volume =>
    obtain ⟨q, -, rfl⟩ := ok row member volume known
    simp [known, volumeOf]

theorem volumes_nonneg : ∀ volume ∈ rows.filterMap volumeOf, 0 ≤ volume := by
  intro volume member
  obtain ⟨row, listed, known⟩ := List.mem_filterMap.mp member
  exact (ok row listed).nonneg (volumeOf_eq_some.mp known)

theorem nonneg_samples : ∀ sample ∈ samples rows, 0 ≤ sample.2 := by
  intro sample member
  obtain ⟨row, listed, -, held⟩ := mem_samples.mp member
  exact (ok row listed).nonneg held

theorem totalVolume_pos : 0 < totalVolume rows ↔ ∃ row ∈ rows, Traded row := by
  rw [totalVolume, sum_pos_iff (volumes_nonneg ok)]
  constructor
  · intro premise
    obtain ⟨volume, member, positive⟩ := premise
    obtain ⟨row, listed, known⟩ := List.mem_filterMap.mp member
    exact ⟨row, listed, volume, volumeOf_eq_some.mp known, positive⟩
  · intro premise
    obtain ⟨row, listed, volume, held, positive⟩ := premise
    exact ⟨volume, List.mem_filterMap.mpr ⟨row, listed, volumeOf_eq_some.mpr held⟩, positive⟩

theorem vwapOf_eq : vwapOf rows = if 0 < totalVolume rows then
    (sqlSum (rows.map fun row => row.2.vwap.bind fun vwap => row.2.volume.map vwap.mul)).map fun total =>
      total.div (.val (totalVolume rows)) else none := by
  rw [vwapOf, sqlSum_val (volumes_known ok)]
  by_cases empty : rows.filterMap volumeOf = []
  · rw [if_pos empty, Option.bind_none, totalVolume, empty]
    rfl
  · rw [if_neg empty, Option.bind_some]
    simp only [Number.sqlPositive, decide_eq_true_eq]
    rfl

theorem vwapOf_nan {row : OptionRow} (member : row ∈ rows) (unset : row.2.vwap = some .nan)
    (counted : row.2.volume ≠ none) (traded : 0 < totalVolume rows) : vwapOf rows = some .nan := by
  have listed : some Number.nan ∈
      rows.map fun row => row.2.vwap.bind fun vwap => row.2.volume.map vwap.mul := by
    obtain ⟨volume, held⟩ := Option.ne_none_iff_exists'.mp counted
    exact List.mem_map.mpr ⟨row, member, by simp [unset, held, Number.mul]⟩
  rw [vwapOf_eq ok, if_pos traded, sqlSum_nan listed]
  rfl

section Clean

variable (clean : ∀ row ∈ rows, row.2.vwap = some .nan → row.2.volume = none)

include clean

theorem row_cases {row : OptionRow} (member : row ∈ rows) : row.2.vwap = none ∨ row.2.volume = none ∨
    ∃ vwap volume, row.2.vwap = some (.val vwap) ∧ row.2.volume = some (.val volume) := by
  cases priced : row.2.vwap with
  | none => exact Or.inl rfl
  | some vwap =>
    cases counted : row.2.volume with
    | none => exact Or.inr (Or.inl rfl)
    | some volume =>
      obtain ⟨q, -, rfl⟩ := ok row member volume counted
      cases vwap with
      | nan => exact absurd (clean row member priced) (counted ▸ Option.some_ne_none _)
      | val vwap => exact Or.inr (Or.inr ⟨vwap, q, rfl, rfl⟩)

theorem products_known : (rows.map fun row => row.2.vwap.bind fun vwap => row.2.volume.map vwap.mul).filterMap id =
    ((samples rows).map fun sample => sample.1 * sample.2).map Number.val := by
  rw [List.filterMap_map, samples, List.map_filterMap, List.map_filterMap]
  refine List.filterMap_congr fun row member => ?_
  rcases row_cases ok clean member with unpriced | uncounted | ⟨vwap, volume, priced, counted⟩
  · simp [unpriced, sampleOf]
  · simp [uncounted, sampleOf]
  · simp [priced, counted, sampleOf, Number.mul]

theorem sampleOf_none {row : OptionRow} (member : row ∈ rows) :
    sampleOf row = none ↔ row.2.vwap = none ∨ row.2.volume = none := by
  rcases row_cases ok clean member with unpriced | uncounted | ⟨vwap, volume, priced, counted⟩
  · simp [unpriced, sampleOf]
  · simp [uncounted, sampleOf]
  · simp [priced, counted, sampleOf]

theorem vwapOf_val (known : ∃ row ∈ rows, row.2.vwap ≠ none ∧ row.2.volume ≠ none) (traded : 0 < totalVolume rows) :
    vwapOf rows = some (.val (moment (samples rows) / totalVolume rows)) := by
  have nonempty : (samples rows).map (fun sample => sample.1 * sample.2) ≠ [] := by
    obtain ⟨row, member, priced, counted⟩ := known
    intro empty
    have all := List.filterMap_eq_nil_iff.mp (List.map_eq_nil_iff.mp empty) row member
    rcases (sampleOf_none ok clean member).mp all with unpriced | uncounted
    · exact priced unpriced
    · exact counted uncounted
  rw [vwapOf_eq ok, if_pos traded, sqlSum_val (products_known ok clean), if_neg nonempty]
  rfl

theorem weight_pos_iff : 0 < weight (samples rows) ↔ ∃ row ∈ rows, Traded row ∧ row.2.vwap ≠ none := by
  have nonneg : ∀ volume ∈ (samples rows).map Prod.snd, 0 ≤ volume := by
    intro volume member
    obtain ⟨sample, inside, rfl⟩ := List.mem_map.mp member
    exact nonneg_samples ok sample inside
  rw [weight, sum_pos_iff nonneg]
  constructor
  · intro premise
    obtain ⟨volume, member, positive⟩ := premise
    obtain ⟨sample, inside, rfl⟩ := List.mem_map.mp member
    obtain ⟨row, listed, priced, held⟩ := mem_samples.mp inside
    exact ⟨row, listed, ⟨_, held, positive⟩, priced ▸ Option.some_ne_none _⟩
  · intro premise
    obtain ⟨row, listed, ⟨volume, held, positive⟩, known⟩ := premise
    rcases row_cases ok clean listed with unpriced | uncounted | ⟨vwap, volume', priced, counted⟩
    · exact absurd unpriced known
    · cases uncounted.symm.trans held
    · cases counted.symm.trans held
      exact ⟨volume, List.mem_map.mpr ⟨(vwap, volume), mem_samples.mpr ⟨row, listed, priced, held⟩, rfl⟩, positive⟩

end Clean

end Volumes

theorem totalVolume_split (rows : List OptionRow) :
    totalVolume rows = weight (samples rows) + unpricedVolume rows := by
  unfold unpricedVolume totalVolume weight samples
  induction rows with
  | nil => exact (add_zero 0).symm
  | cons row rows ih =>
    cases known : sampleOf row with
    | none =>
      rw [List.filterMap_cons_none known, List.filter_cons_of_pos (by rw [known]; rfl)]
      cases counted : volumeOf row with
      | none => rw [List.filterMap_cons_none counted, List.filterMap_cons_none counted, ih]
      | some volume =>
        rw [List.filterMap_cons_some counted, List.filterMap_cons_some counted, List.sum_cons, List.sum_cons, ih]
        ring
    | some sample =>
      have counted : volumeOf row = some sample.2 := volumeOf_eq_some.mpr (sampleOf_eq_some.mp known).2
      rw [List.filterMap_cons_some known, List.filter_cons_of_neg (by rw [known]; exact Bool.false_ne_true),
        List.filterMap_cons_some counted, List.map_cons, List.sum_cons, List.sum_cons, ih]
      ring

theorem weight_eq_iff (ok : ∀ row ∈ rows, VolumeOk row)
    (clean : ∀ row ∈ rows, row.2.vwap = some .nan → row.2.volume = none) :
    weight (samples rows) = totalVolume rows ↔ ∀ row ∈ rows, Traded row → row.2.vwap ≠ none := by
  have unpriced_ok : ∀ row ∈ rows.filter (fun row => (sampleOf row).isNone), VolumeOk row :=
    fun row member => ok row (List.mem_of_mem_filter member)
  have nonneg : 0 ≤ unpricedVolume rows := List.sum_nonneg (volumes_nonneg unpriced_ok)
  rw [totalVolume_split, left_eq_add]
  constructor
  · intro zero row member traded unpriced
    have listed : row ∈ rows.filter fun row => (sampleOf row).isNone := by
      have none := (sampleOf_none ok clean member).mpr (Or.inl unpriced)
      exact List.mem_filter.mpr ⟨member, by rw [none]; rfl⟩
    exact ((totalVolume_pos unpriced_ok).mpr ⟨row, listed, traded⟩).ne' zero
  · intro priced
    by_contra volume
    obtain ⟨row, listed, traded⟩ := (totalVolume_pos unpriced_ok).mp (nonneg.lt_of_ne' volume)
    obtain ⟨member, none⟩ := List.mem_filter.mp listed
    rcases (sampleOf_none ok clean member).mp (Option.isNone_iff_eq_none.mp none) with unpriced | uncounted
    · exact priced row member traded unpriced
    · obtain ⟨volume, held, -⟩ := traded
      rw [uncounted] at held
      cases held

theorem isMean_iff (ok : ∀ row ∈ rows, VolumeOk row)
    (clean : ∀ row ∈ rows, row.2.vwap = some .nan → row.2.volume = none) (traded : 0 < totalVolume rows) :
    IsMean rows (moment (samples rows) / totalVolume rows) ↔
      (∀ row ∈ rows, Traded row → row.2.vwap ≠ none) ∨
        moment (samples rows) = 0 ∧ ∃ row ∈ rows, Traded row ∧ row.2.vwap ≠ none := by
  rw [← weight_eq_iff ok clean, ← weight_pos_iff ok clean]
  have between := mean_between (nonneg_samples ok)
  constructor
  · intro isMean
    rcases eq_or_ne (moment (samples rows)) 0 with zero | nonzero
    · exact Or.inr ⟨zero, isMean.traded⟩
    · have same := isMean.mean
      rw [div_eq_div_iff traded.ne' isMean.traded.ne'] at same
      exact Or.inl (mul_left_cancel₀ nonzero same)
  · intro premise
    rcases premise with same | ⟨zero, positive⟩
    · rw [← same] at traded ⊢
      exact ⟨traded, rfl, (between traded).1, (between traded).2⟩
    · have mean : moment (samples rows) / totalVolume rows = moment (samples rows) / weight (samples rows) := by
        rw [zero, zero_div, zero_div]
      rw [mean]
      exact ⟨positive, rfl, (between positive).1, (between positive).2⟩

theorem trueMean_none : TrueMean rows none := by
  intro value impossible
  cases impossible

theorem trueMean_val {q : ℚ} : TrueMean rows (some (.val q)) ↔ IsMean rows q := by
  constructor
  · intro true_mean
    obtain ⟨q', same, isMean⟩ := true_mean _ rfl
    cases same
    exact isMean
  · intro isMean value shown
    cases shown
    exact ⟨q, rfl, isMean⟩

theorem not_trueMean_nan : ¬ TrueMean rows (some .nan) := by
  intro true_mean
  obtain ⟨q, impossible, -⟩ := true_mean _ rfl
  cases impossible

theorem trueMean_iff (ok : ∀ row ∈ rows, VolumeOk row) : TrueMean rows (vwapOf rows) ↔ PricedWhereTraded rows := by
  by_cases untraded : ∀ row ∈ rows, ¬ Traded row
  · have volume : ¬ 0 < totalVolume rows := by
      intro positive
      obtain ⟨row, member, traded⟩ := (totalVolume_pos ok).mp positive
      exact untraded row member traded
    rw [vwapOf_eq ok, if_neg volume]
    exact iff_of_true trueMean_none (Or.inl untraded)
  by_cases unpriced : ∀ row ∈ rows, row.2.vwap = none ∨ row.2.volume = none
  · rw [vwapOf_unpriced unpriced]
    exact iff_of_true trueMean_none (Or.inr (Or.inl unpriced))
  rw [PricedWhereTraded, or_iff_right untraded, or_iff_right unpriced]
  push Not at untraded unpriced
  have volume := (totalVolume_pos ok).mpr untraded
  by_cases clean : ∀ row ∈ rows, row.2.vwap = some .nan → row.2.volume = none
  · rw [vwapOf_val ok clean unpriced volume, trueMean_val, isMean_iff ok clean volume]
    exact (and_iff_right clean).symm
  · push Not at clean
    obtain ⟨row, member, unset, counted⟩ := clean
    rw [vwapOf_nan ok member unset counted volume]
    exact iff_of_false not_trueMean_nan fun premise => counted (premise.1 row member unset)

def membersOf (timeBucket : String → ℤ → ℤ) (interval : String) (table : OptionTable) (request : OptionBarsRequest)
    (bar : OptionRow) : List OptionRow :=
  (table.items.filter request.conditions).filter fun row => optionGroup timeBucket interval row = groupOf bar

theorem coarse_vwap_iff {request : OptionBarsRequest} (coarse : bucketInterval request.agg = some interval)
    (table : OptionTable) : ∀ bar ∈ matchingOptionBars timeBucket table request,
      (∀ row ∈ membersOf timeBucket interval table request bar, VolumeOk row) →
        (TrueMean (membersOf timeBucket interval table request bar) bar.2.vwap ↔
          PricedWhereTraded (membersOf timeBucket interval table request bar)) := by
  intro bar shown ok
  rw [matchingOptionBars_coarse coarse] at shown
  obtain ⟨row, -, rfl⟩ := mem_grouped.mp shown
  exact trueMean_iff ok

def tradedBar (vwap : Option Number) : OptionBar1m := { callAt 450 with vwap := vwap, volume := some (.val 1) }

def halfPriced : OptionTable :=
  Dict.assign ∅ [(("C450", 0), tradedBar (some (.val 10))), (("C450", 60000), tradedBar none)]

def wholePriced : OptionTable :=
  Dict.assign ∅ [(("C450", 0), tradedBar (some (.val 10))), (("C450", 60000), tradedBar (some (.val 12)))]

theorem tradedBar_ok {rows : List OptionRow} (bars : ∀ row ∈ rows, row.2.volume = some (.val 1)) :
    ∀ row ∈ rows, VolumeOk row := by
  intro row member volume held
  rw [bars row member] at held
  exact ⟨1, zero_le_one, (Option.some.inj held).symm⟩

/-- The bar of the bucket shows 5, where the only vwap that is known is 10. -/
theorem unpriced_volume_dilutes :
    ¬ ∀ timeBucket interval request table, bucketInterval request.agg = some interval →
      ∀ bar ∈ matchingOptionBars timeBucket table request,
        (∀ row ∈ membersOf timeBucket interval table request bar, VolumeOk row) →
          TrueMean (membersOf timeBucket interval table request bar) bar.2.vwap := by
  intro all
  have shown : ∃ bar ∈ matchingOptionBars fiveMinutes halfPriced (fromMinute 0), bar.2.vwap = some (.val 5) ∧
      membersOf fiveMinutes "5 minutes" halfPriced (fromMinute 0) bar = halfPriced.items := by decide +kernel
  obtain ⟨bar, listed, five, members⟩ := shown
  have right := all fiveMinutes "5 minutes" (fromMinute 0) halfPriced rfl bar listed
  rw [five, members] at right
  obtain ⟨q, same, isMean⟩ := right (tradedBar_ok (by decide +kernel)) _ rfl
  cases same
  obtain ⟨low, member, -, below⟩ := isMean.low
  have only : ∀ sample ∈ samples halfPriced.items, ¬ sample.1 ≤ 5 := by decide +kernel
  exact only low member below

theorem coarse_vwap_iff_whole : ∃ bar ∈ matchingOptionBars fiveMinutes wholePriced (fromMinute 0),
    bar.2.vwap = some (.val 11) ∧
      TrueMean (membersOf fiveMinutes "5 minutes" wholePriced (fromMinute 0) bar) bar.2.vwap := by
  have shown : ∃ bar ∈ matchingOptionBars fiveMinutes wholePriced (fromMinute 0), bar.2.vwap = some (.val 11) ∧
      membersOf fiveMinutes "5 minutes" wholePriced (fromMinute 0) bar = wholePriced.items := by decide +kernel
  obtain ⟨bar, listed, eleven, members⟩ := shown
  have coarse : bucketInterval (fromMinute 0).agg = some "5 minutes" := rfl
  have right := coarse_vwap_iff coarse wholePriced bar listed
  have priced : ∀ row ∈ wholePriced.items, row.2.vwap ≠ none ∧ row.2.vwap ≠ some .nan := by decide +kernel
  refine ⟨bar, listed, eleven, ?_⟩
  rw [members] at right ⊢
  refine (right (tradedBar_ok (by decide +kernel))).mpr (Or.inr (Or.inr ⟨?_, Or.inl ?_⟩))
  · exact fun row member unset => absurd unset (priced row member).2
  · exact fun row member _ => (priced row member).1

end OptionsProof.VolumeWeighted
