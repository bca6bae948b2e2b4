import OptionsData.Greeks.Batches

namespace OptionsProof.Greeks

open Kit OptionsModel OptionsModel.GreeksBackfillJob

variable {job : GreeksBackfillJob} {underlyings : UnderlyingTable} {options : OptionTable} {now : ℤ}

def batch (job : GreeksBackfillJob) (underlyings : UnderlyingTable) (now : ℤ) (options : OptionTable) (i : ℕ) :
    List OptionRow :=
  ((served underlyings now options).drop (i * job.batchSize)).take job.batchSize

/-- No statement of the run has more arguments than the driver accepts, no computation raises and no value overflows
its column. -/
structure Fits (job : GreeksBackfillJob) (underlyings : UnderlyingTable) (now : ℤ) (options : OptionTable) :
    Prop where
  queries : batchQueryArguments (underlyingCoverage underlyings)
    ((served underlyings now options).getLast?.map sortKey) ≤ MAX_STATEMENT_ARGUMENTS
  batches : ∀ i, fetchArguments (batch job underlyings now options i) ≤ MAX_STATEMENT_ARGUMENTS
  computes : ∀ row ∈ served underlyings now options, storable job underlyings row = true

theorem drop_min (rows : List OptionRow) (n : ℕ) : rows.drop (min n rows.length) = rows.drop n := by
  rcases le_total n rows.length with within | beyond
  · rw [min_eq_left within]
  · rw [min_eq_right beyond, List.drop_length, List.drop_eq_nil_of_le beyond]

theorem Reached.arguments {p : ℕ} {s : Progress} (reached : Reached job underlyings now options p s) :
    batchQueryArguments (underlyingCoverage underlyings) s.last ≤ batchQueryArguments (underlyingCoverage underlyings)
      ((served underlyings now options).getLast?.map sortKey) := by
  rw [reached.last]
  unfold batchQueryArguments
  cases rows : served underlyings now options with
  | nil => simp
  | cons row rest =>
    rw [List.getLast?_cons]
    simp only [Option.map_some, Option.isSome_some, if_true]
    split <;> omega

theorem batchFits_nil : BatchFits job underlyings [] := by
  have none : fetchArguments [] ≤ MAX_STATEMENT_ARGUMENTS := Nat.zero_le _
  exact ⟨none, fun _ member => absurd member List.not_mem_nil⟩

/-- By induction on the fuel: from the start of batch `i` the loop returns exactly if all that is left fits. -/
theorem loop_returns_iff {fuel p i : ℕ} {s : Progress} (reached : Reached job underlyings now options p s)
    (starts : p = min (i * job.batchSize) (served underlyings now options).length)
    (positive : 0 < job.batchSize) (enough : (served underlyings now options).length < fuel + p) :
    ∃ r ended, job.loop underlyings (retentionCutoff now) (underlyingCoverage underlyings) none fuel s =
        some (r, ended) ∧
      (ended = .returned → Reached job underlyings now options (served underlyings now options).length r) ∧
      (ended = .returned ↔ batchQueryArguments (underlyingCoverage underlyings)
          ((served underlyings now options).getLast?.map sortKey) ≤ MAX_STATEMENT_ARGUMENTS ∧
        ∀ j, i ≤ j → BatchFits job underlyings (batch job underlyings now options j)) := by
  induction fuel generalizing s p i with
  | zero => exact absurd reached.within (by omega)
  | succ fuel ih =>
    have here : nextBatch job underlyings now options none p = batch job underlyings now options i := by
      rw [nextBatch, batch, starts, drop_min]
      rfl
    have arguments := reached.arguments
    unfold loop
    generalize chosen : job.iteration underlyings (retentionCutoff now) (underlyingCoverage underlyings) none s =
      iteration
    have round := reached.round none
    rw [chosen] at round
    cases round with
    | stops nothing asked =>
      have dropped : (served underlyings now options).drop p = [] := by
        rcases List.take_eq_nil_iff.mp nothing with zero | empty
        · exact absurd zero positive.ne'
        · exact empty
      have all : p = (served underlyings now options).length :=
        le_antisymm reached.within (List.drop_eq_nil_iff.mp dropped)
      have last : s.last = (served underlyings now options).getLast?.map sortKey := by
        rw [reached.last, all, List.take_length]
      refine ⟨s, .returned, rfl, fun _ => all ▸ reached, iff_of_true rfl ⟨last ▸ asked rfl, fun j later => ?_⟩⟩
      have beyond : (served underlyings now options).length ≤ j * job.batchSize :=
        (by omega : _ ≤ i * job.batchSize).trans (Nat.mul_le_mul_right _ later)
      rw [batch, List.drop_eq_nil_of_le beyond, List.take_nil]
      exact batchFits_nil
    | raises blocked =>
      have unreturned : Ended.raised ≠ .returned := by decide
      refine ⟨s, .raised, rfl, fun returned => absurd returned unreturned,
        iff_of_false unreturned fun all => blocked ⟨arguments.trans all.1, ?_⟩⟩
      exact here ▸ all.2 i le_rfl
    | goesOn t more asked fits further =>
      have size : (nextBatch job underlyings now options none p).length =
          min job.batchSize ((served underlyings now options).length - p) := by
        rw [nextBatch, List.length_take, List.length_drop]
        rfl
      have nonempty := List.length_pos_iff.mpr more
      have next : p + (nextBatch job underlyings now options none p).length =
          min ((i + 1) * job.batchSize) (served underlyings now options).length := by
        rw [size, Nat.add_mul]
        omega
      obtain ⟨r, ended, result, whole, returns⟩ := ih further next (by omega)
      refine ⟨r, ended, result, whole, returns.trans (and_congr_right fun _ => ?_)⟩
      constructor
      · intro rest j later
        rcases later.eq_or_lt with rfl | after
        · exact here ▸ fits
        · exact rest j after
      · intro all j later
        exact all j (by omega)

/-- Row by row: a row without Greeks gets what `_compute_for_row` yields over all underlying bars. -/
def reconciled (job : GreeksBackfillJob) (underlyings : UnderlyingTable) (key : BarKey) (row : OptionBar1m) :
    OptionBar1m :=
  if row.greeksSource = none then examinedRow job underlyings key row else row

def Reconciles (job : GreeksBackfillJob) (underlyings : UnderlyingTable) (now : ℤ) (options : OptionTable) : Prop :=
  ∃ r, job.run underlyings now none options = some (r, .returned) ∧ r.examined.Nodup ∧
    (∀ key, r.table.lookup key = (options.lookup key).map (reconciled job underlyings key)) ∧
    r.summary.outcomes = r.summary.rowsProcessed ∧ r.summary.rowsProcessed = r.examined.length

theorem reconciled_of_served (now : ℤ) {key : BarKey} {row : OptionBar1m} (stored : options.lookup key = some row) :
    reconciled job underlyings key row =
      if key ∈ (served underlyings now options).map Prod.fst then examinedRow job underlyings key row else row := by
  unfold reconciled
  by_cases pending : row.greeksSource = none
  · rw [if_pos pending]
    split
    · rfl
    · next unserved =>
      have missing : underlyingKey (key, row) ∉ underlyings := by
        intro bar
        have waiting : awaiting underlyings now (key, row) = true := by
          rw [awaiting, worthExamining_of_bar bar, Bool.and_true, pending]
          rfl
        exact unserved (List.mem_map.mpr ⟨_, mem_served.mpr ⟨stored, waiting⟩, rfl⟩)
      rw [examinedRow, updateFor_bar missing]
      rfl
  · rw [if_neg pending]
    split
    · next listed =>
      obtain ⟨⟨_, other⟩, member, rfl⟩ := List.mem_map.mp listed
      obtain ⟨found, waiting⟩ := mem_served.mp member
      rw [stored, Option.some_inj] at found
      subst found
      rw [awaiting, Bool.and_eq_true] at waiting
      exact absurd (Option.isNone_iff_eq_none.mp waiting.1) pending
    · rfl

theorem Reached.complete {r : Progress}
    (reached : Reached job underlyings now options (served underlyings now options).length r) (key : BarKey) :
    r.table.lookup key = (options.lookup key).map (reconciled job underlyings key) := by
  rw [reached.table, List.take_length]
  cases stored : options.lookup key with
  | none => rfl
  | some row => rw [Option.map_some, Option.map_some, reconciled_of_served now stored]

theorem fits_of_batches (positive : 0 < job.batchSize)
    (queries : batchQueryArguments (underlyingCoverage underlyings)
      ((served underlyings now options).getLast?.map sortKey) ≤ MAX_STATEMENT_ARGUMENTS)
    (batches : ∀ i, BatchFits job underlyings (batch job underlyings now options i)) :
    Fits job underlyings now options := by
  refine ⟨queries, fun i => (batches i).1, fun row member => ?_⟩
  obtain ⟨n, inside, rfl⟩ := List.getElem_of_mem member
  have place := Nat.div_add_mod n job.batchSize
  have rest := Nat.mod_lt n positive
  rw [Nat.mul_comm] at place
  refine (batches (n / job.batchSize)).2 _ (List.mem_iff_getElem.mpr ⟨n % job.batchSize, ?_, ?_⟩)
  · rw [batch, List.length_take, List.length_drop]
    omega
  · simp only [batch, List.getElem_take, List.getElem_drop, place]

theorem run_returns_iff (underlyings : UnderlyingTable) (now : ℤ) (options : OptionTable)
    (positive : 0 < job.batchSize) :
    ∃ r ended, job.run underlyings now none options = some (r, ended) ∧
      (ended = .returned → Reached job underlyings now options (served underlyings now options).length r) ∧
      (ended = .returned ↔ Fits job underlyings now options) := by
  have enough : (served underlyings now options).length < options.keys.length + 1 + 0 :=
    Nat.lt_succ_of_le served_length
  have start : Reached job underlyings now options 0 { table := options } := .start
  obtain ⟨r, ended, result, whole, returns⟩ := loop_returns_iff start (i := 0) (by simp) positive enough
  refine ⟨r, ended, result, whole, returns.trans ⟨fun all => ?_, fun fits => ⟨fits.queries, fun i _ => ?_⟩⟩⟩
  · exact fits_of_batches positive all.1 fun i => all.2 i (Nat.zero_le i)
  · exact ⟨fits.batches i, fun row member => fits.computes row (List.mem_of_mem_drop (List.mem_of_mem_take member))⟩

theorem run_reconciles_iff (positive : 0 < job.batchSize) :
    Reconciles job underlyings now options ↔ Fits job underlyings now options := by
  obtain ⟨r, ended, result, whole, returns⟩ := run_returns_iff underlyings now options positive
  rw [← returns]
  constructor
  · intro premise
    rcases premise with ⟨r', finished, -⟩
    rw [result] at finished
    cases finished
    rfl
  · intro returned
    subst returned
    have reached := whole rfl
    refine ⟨r, result, ?_, reached.complete, reached.outcomes.trans reached.processed.symm, ?_⟩
    · rw [reached.examined, List.take_length]
      exact served_nodup
    · rw [reached.processed, reached.examined, List.take_length, List.length_map]

theorem fetchArguments_le (rows : List OptionRow) : fetchArguments rows ≤ 2 * rows.length := by
  have fewer := (List.dedup_sublist (rows.map underlyingKey)).length_le
  rw [List.length_map] at fewer
  exact Nat.mul_le_mul_left 2 fewer

theorem batches_fit (small : 2 * job.batchSize ≤ MAX_STATEMENT_ARGUMENTS) (i : ℕ) :
    fetchArguments (batch job underlyings now options i) ≤ MAX_STATEMENT_ARGUMENTS := by
  have size : (batch job underlyings now options i).length ≤ job.batchSize := List.length_take_le _ _
  exact (fetchArguments_le _).trans ((Nat.mul_le_mul_left 2 size).trans small)

def sampleRow : OptionBar1m := { underlyingTicker := "SPY", expirationDate := 1, strike := 450, right := .call }

def samplePricing : Pricing where
  marketClose date := date * 86400000
  computeGreeks _ _ _ _ _ iv price :=
    some ((iv.or price).map fun value => ⟨value, value, value, value, value, value⟩)

def sampleJob (batchSize : ℕ) : GreeksBackfillJob := ⟨samplePricing, .val 0, batchSize⟩

def minuteTable (count : ℕ) : OptionTable where
  entries := (List.range count).map fun i : ℕ => ⟨("SPY_C450", 60000 * (i : ℤ)), sampleRow⟩
  nodupKeys := by
    show (((List.range count).map _).map Sigma.fst).Nodup
    rw [List.map_map]
    apply List.nodup_range.map
    intro i j same
    have times := (Prod.mk.inj same).2
    omega

theorem minuteTable_items (count : ℕ) :
    (minuteTable count).items = (List.range count).map fun i : ℕ => (("SPY_C450", 60000 * (i : ℤ)), sampleRow) := by
  simp [Dict.items, minuteTable]

theorem minuteTable_served (count : ℕ) :
    (served ∅ 0 (minuteTable count)).length = count ∧ ((served ∅ 0 (minuteTable count)).map underlyingKey).Nodup := by
  have all : (minuteTable count).items.filter (awaiting ∅ 0) = (minuteTable count).items := by
    apply List.filter_eq_self.mpr
    intro row member
    rw [minuteTable_items] at member
    obtain ⟨i, -, rfl⟩ := List.mem_map.mp member
    have recent : retentionCutoff 0 ≤ 60000 * (i : ℤ) := by
      rw [retentionCutoff, RETENTION_DAYS]
      omega
    rw [awaiting, worthExamining, decide_eq_true recent]
    rfl
  have perm : (served ∅ 0 (minuteTable count)).Perm (minuteTable count).items := all ▸ served_perm
  constructor
  · rw [perm.length_eq, minuteTable_items, List.length_map, List.length_range]
  · rw [(perm.map underlyingKey).nodup_iff, minuteTable_items, List.map_map]
    apply List.nodup_range.map
    intro i j same
    have times := (Prod.mk.inj same).2
    dsimp only at times
    omega

theorem minuteTable_fetch :
    fetchArguments (batch (sampleJob 16384) ∅ 0 (minuteTable 16384) 0) = 2 * 16384 := by
  obtain ⟨size, distinct⟩ := minuteTable_served 16384
  have whole : batch (sampleJob 16384) ∅ 0 (minuteTable 16384) 0 = served ∅ 0 (minuteTable 16384) := by
    rw [batch, Nat.zero_mul, List.drop_zero]
    exact List.take_of_length_le (Nat.le_of_eq size)
  rw [whole, fetchArguments, underlyingKeys, distinct.dedup, List.length_map, size]

theorem oversized_batch_fails :
    ¬ ∀ (job : GreeksBackfillJob) (underlyings : UnderlyingTable) (now : ℤ) (options : OptionTable),
      0 < job.batchSize → Reconciles job underlyings now options := by
  intro always
  have positive : 0 < (sampleJob 16384).batchSize := Nat.succ_pos 16383
  obtain ⟨r, ended, result, -, returns⟩ := run_returns_iff ∅ 0 (minuteTable 16384) positive
  obtain ⟨r', finished, -⟩ := always (sampleJob 16384) ∅ 0 (minuteTable 16384) positive
  rw [result] at finished
  cases finished
  have fits := (returns.mp rfl).batches 0
  rw [minuteTable_fetch] at fits
  exact absurd fits (by decide)

theorem run_reconciles_two_rows :
    Reconciles (sampleJob 1) ((∅ : UnderlyingTable).insert ("SPY", 60000) { close := some (.val 452) }) 0
      (((∅ : OptionTable).insert ("SPY_C450", 0) sampleRow).insert ("SPY_C450", 60000)
        { sampleRow with close := some (.val 5) }) := by
  apply (run_reconciles_iff (by decide)).mpr
  exact ⟨by decide +kernel, batches_fit (by decide), by decide +kernel⟩

end OptionsProof.Greeks
