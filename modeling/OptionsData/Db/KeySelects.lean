import OptionsData.Greeks.FullRun
import OptionsData.Ingestion.LiveOptions

namespace OptionsModel

open Kit

def startTimesSelect (fullRescan : Bool) (keys : List String) : Option ℕ :=
  if fullRescan || keys.isEmpty then none else some keys.length

structure BackfillKeys where
  fullRescan : Bool
  tickers : List TickerConfig
  contracts : ContractTable
  liveResolved : Tracked
  startDate : ℤ

namespace BackfillKeys

def candidates (keys : BackfillKeys) : List String :=
  (getBackfillCandidates keys.tickers keys.contracts keys.liveResolved keys.startDate).keys

def underlyingTickers (keys : BackfillKeys) : List String :=
  ((keys.tickers.filter TickerConfig.captureUnderlyingBars).map TickerConfig.ticker).dedup

/-- A SELECT that the driver rejects ends the run. -/
def startSelects (keys : BackfillKeys) : List ℕ :=
  let options := startTimesSelect keys.fullRescan keys.candidates
  options.toList ++ if options.any (MAX_STATEMENT_ARGUMENTS < ·) then []
    else (startTimesSelect keys.fullRescan keys.underlyingTickers).toList

end BackfillKeys

namespace GreeksBackfillJob

/-- `--batch-size` takes any integer. PostgreSQL rejects a negative LIMIT, and under either no rows are fetched. -/
def ofCommandLine (pricing : Pricing) (riskFreeRate : Number) (batchSize : ℤ) : GreeksBackfillJob where
  pricing := pricing
  riskFreeRate := riskFreeRate
  batchSize := batchSize.toNat

def batchRows (job : GreeksBackfillJob) (cutoff : ℤ) (coverage : Dict String (ℤ × ℤ)) (maxRows : Option ℕ)
    (s : Progress) : List OptionRow :=
  if maxRows.any fun maxRows => maxRows ≤ s.summary.rowsProcessed then []
  else if MAX_STATEMENT_ARGUMENTS < batchQueryArguments coverage s.last then []
  else
    let batchLimit := maxRows.elim job.batchSize fun maxRows => min job.batchSize (maxRows - s.summary.rowsProcessed)
    buildBatchQuery batchLimit s.last cutoff coverage s.table

def fetchLoop (job : GreeksBackfillJob) (underlyings : UnderlyingTable) (cutoff : ℤ)
    (coverage : Dict String (ℤ × ℤ)) (maxRows : Option ℕ) : ℕ → Progress → List (List OptionRow)
  | 0, _ => []
  | fuel + 1, s =>
    if job.batchRows cutoff coverage maxRows s = [] then []
    else job.batchRows cutoff coverage maxRows s ::
      match job.iteration underlyings cutoff coverage maxRows s with
      | .goesOn t => job.fetchLoop underlyings cutoff coverage maxRows fuel t
      | _ => []

def fetchSelects (job : GreeksBackfillJob) (underlyings : UnderlyingTable) (now : ℤ) (maxRows : Option ℕ)
    (options : OptionTable) : List (List OptionRow) :=
  job.fetchLoop underlyings (retentionCutoff now) (underlyingCoverage underlyings) maxRows
    (options.keys.length + 1) { table := options }

end GreeksBackfillJob

end OptionsModel

namespace OptionsProof.KeySelects

open Kit OptionsModel OptionsModel.GreeksBackfillJob OptionsProof.Greeks

variable {job : GreeksBackfillJob} {underlyings : UnderlyingTable} {options : OptionTable} {now : ℤ}
  {maxRows : Option ℕ}

def StartTimesCapped (keys : BackfillKeys) : Prop := ∀ bound ∈ keys.startSelects, bound ≤ MAX_STATEMENT_ARGUMENTS

def FetchesCapped (job : GreeksBackfillJob) (underlyings : UnderlyingTable) (now : ℤ) (maxRows : Option ℕ)
    (options : OptionTable) : Prop :=
  ∀ rows ∈ job.fetchSelects underlyings now maxRows options, fetchArguments rows ≤ MAX_STATEMENT_ARGUMENTS

def FewKeys (keys : BackfillKeys) : Prop :=
  keys.fullRescan = true ∨ keys.candidates.length ≤ 32767 ∧ keys.underlyingTickers.length ≤ 32767

def QueryFits (underlyings : UnderlyingTable) (now : ℤ) (options : OptionTable) (p : ℕ) : Prop :=
  batchQueryArguments (underlyingCoverage underlyings)
    (((served underlyings now options).take p).getLast?.map sortKey) ≤ MAX_STATEMENT_ARGUMENTS

/-- The run that has examined the first `p` rows it is served gets to where it has examined `q`. -/
inductive Reads (job : GreeksBackfillJob) (underlyings : UnderlyingTable) (now : ℤ) (maxRows : Option ℕ)
    (options : OptionTable) : ℕ → ℕ → Prop
  | here (p : ℕ) : Reads job underlyings now maxRows options p p
  | later {p q : ℕ} (asked : QueryFits underlyings now options p)
      (more : nextBatch job underlyings now options maxRows p ≠ [])
      (fits : BatchFits job underlyings (nextBatch job underlyings now options maxRows p))
      (rest : Reads job underlyings now maxRows options
        (p + (nextBatch job underlyings now options maxRows p).length) q) :
      Reads job underlyings now maxRows options p q

def SparseBatches (job : GreeksBackfillJob) (underlyings : UnderlyingTable) (now : ℤ) (maxRows : Option ℕ)
    (options : OptionTable) : Prop :=
  ∀ p, Reads job underlyings now maxRows options 0 p → QueryFits underlyings now options p →
    (underlyingKeys (nextBatch job underlyings now options maxRows p)).length ≤ 16383

theorem startTimes_capped_iff (keys : BackfillKeys) : StartTimesCapped keys ↔ FewKeys keys := by
  unfold StartTimesCapped FewKeys BackfillKeys.startSelects startTimesSelect MAX_STATEMENT_ARGUMENTS
  cases keys.fullRescan with
  | true => simp
  | false =>
    cases keys.candidates with
    | nil => cases keys.underlyingTickers <;> simp
    | cons candidate candidates =>
      cases keys.underlyingTickers with
      | nil => simp
      | cons ticker tickers =>
        simp
        grind

theorem fetchArguments_le_iff {rows : List OptionRow} :
    fetchArguments rows ≤ MAX_STATEMENT_ARGUMENTS ↔ (underlyingKeys rows).length ≤ 16383 := by
  unfold fetchArguments MAX_STATEMENT_ARGUMENTS
  omega

theorem reached_batchRows {p : ℕ} {s : Progress} (reached : Reached job underlyings now options p s)
    (maxRows : Option ℕ) : job.batchRows (retentionCutoff now) (underlyingCoverage underlyings) maxRows s =
      if MAX_STATEMENT_ARGUMENTS < batchQueryArguments (underlyingCoverage underlyings) s.last then []
      else nextBatch job underlyings now options maxRows p := by
  rw [GreeksBackfillJob.batchRows, reached.processed]
  split
  · next capped =>
    obtain ⟨limit, rfl, full⟩ := (Option.any_eq_true _ _).mp capped
    have none_left : limit - p = 0 := Nat.sub_eq_zero_of_le (of_decide_eq_true full)
    rw [nextBatch, batchLimit, Option.elim_some, none_left, Nat.min_zero, List.take_zero, ite_self]
  · rw [reached.query]
    rfl

theorem reads_iff {p : ℕ} (holds : ℕ → Prop) : (∀ q, Reads job underlyings now maxRows options p q → holds q) ↔
    holds p ∧ (QueryFits underlyings now options p → nextBatch job underlyings now options maxRows p ≠ [] →
      BatchFits job underlyings (nextBatch job underlyings now options maxRows p) →
      ∀ q, Reads job underlyings now maxRows options
        (p + (nextBatch job underlyings now options maxRows p).length) q → holds q) := by
  constructor
  · intro all
    exact ⟨all p (.here p), fun asked more fits q rest => all q (.later asked more fits rest)⟩
  · intro premise q reads
    cases reads with
    | here => exact premise.1
    | later asked more fits rest => exact premise.2 asked more fits q rest

/-- By induction on the fuel: the loop has examined `p` rows and fetches for what it reads from there on. -/
theorem fetchLoop_iff {fuel p : ℕ} {s : Progress} (reached : Reached job underlyings now options p s)
    (enough : (served underlyings now options).length < fuel + p) :
    (∀ rows ∈ job.fetchLoop underlyings (retentionCutoff now) (underlyingCoverage underlyings) maxRows fuel s,
      fetchArguments rows ≤ MAX_STATEMENT_ARGUMENTS) ↔
    ∀ q, Reads job underlyings now maxRows options p q → QueryFits underlyings now options q →
      (underlyingKeys (nextBatch job underlyings now options maxRows q)).length ≤ 16383 := by
  induction fuel generalizing s p with
  | zero => exact absurd reached.within (by omega)
  | succ fuel ih =>
    have last := reached.last
    have rows := reached_batchRows reached maxRows
    have round := reached.round maxRows
    rw [reads_iff, GreeksBackfillJob.fetchLoop]
    by_cases asked : QueryFits underlyings now options p
    · rw [if_neg (not_lt.mpr (by rw [last]; exact asked))] at rows
      rw [rows]
      by_cases nothing : nextBatch job underlyings now options maxRows p = []
      · rw [if_pos nothing, nothing]
        simp [underlyingKeys]
      · rw [if_neg nothing, List.forall_mem_cons, fetchArguments_le_iff]
        generalize job.iteration underlyings (retentionCutoff now) (underlyingCoverage underlyings) maxRows s =
          iteration at round
        apply and_congr (by simp [asked])
        cases round with
        | stops none => exact absurd none nothing
        | raises blocked =>
          rw [last] at blocked
          constructor
          · intro _ _ _ fits
            exact absurd ⟨asked, fits⟩ blocked
          · intro _ other listed
            cases listed
        | goesOn t more _ fits next =>
          have longer := List.length_pos_iff.mpr more
          have rest := ih next (by omega)
          constructor
          · intro all _ _ _
            exact rest.mp all
          · intro all
            exact rest.mpr (all asked more fits)
    · rw [if_pos (not_le.mp (by rw [last]; exact asked))] at rows
      rw [if_pos rows]
      simp [asked]

theorem fetches_capped_iff : FetchesCapped job underlyings now maxRows options ↔
    SparseBatches job underlyings now maxRows options := by
  have enough : (served underlyings now options).length < options.keys.length + 1 + 0 :=
    Nat.lt_succ_of_le served_length
  exact fetchLoop_iff .start enough

theorem underlyingKeys_le (rows : List OptionRow) : (underlyingKeys rows).length ≤ rows.length := by
  have fewer := (List.dedup_sublist (rows.map underlyingKey)).length_le
  rwa [List.length_map] at fewer

theorem nextBatch_le (p : ℕ) : (nextBatch job underlyings now options maxRows p).length ≤ job.batchSize := by
  apply (List.length_take_le _ _).trans
  cases maxRows with
  | none => exact le_rfl
  | some maxRows => exact min_le_left _ _

theorem sparse_of_small (small : job.batchSize ≤ 16383) : SparseBatches job underlyings now maxRows options :=
  fun p _ _ => (underlyingKeys_le _).trans ((nextBatch_le p).trans small)

theorem large_batch_dense (large : 16384 ≤ job.batchSize) : ¬ SparseBatches job ∅ 0 none (minuteTable 16384) := by
  intro sparse
  obtain ⟨size, distinct⟩ := minuteTable_served 16384
  have first := sparse 0 (.here 0) (by rw [QueryFits, List.take_zero]; decide)
  have whole : nextBatch job ∅ 0 (minuteTable 16384) none 0 = served ∅ 0 (minuteTable 16384) := by
    rw [nextBatch, List.drop_zero]
    exact List.take_of_length_le (size.trans_le large)
  rw [whole, underlyingKeys, distinct.dedup, List.length_map, size] at first
  omega

theorem always_capped_iff : (∀ underlyings now maxRows options, FetchesCapped job underlyings now maxRows options) ↔
    job.batchSize ≤ 16383 := by
  constructor
  · intro always
    by_contra large
    exact large_batch_dense (by omega) (fetches_capped_iff.mp (always ∅ 0 none (minuteTable 16384)))
  · intro small underlyings now maxRows options
    exact fetches_capped_iff.mpr (sparse_of_small small)

/-- For a run of each job, and then for every run of the Greeks job with a given batch size. -/
theorem keySelects_capped_iff (keys : BackfillKeys) (pricing : Pricing) (riskFreeRate : Number) (batchSize : ℤ)
    (underlyings : UnderlyingTable) (now : ℤ) (maxRows : Option ℕ) (options : OptionTable) :
    (StartTimesCapped keys ∧
        FetchesCapped (ofCommandLine pricing riskFreeRate batchSize) underlyings now maxRows options ↔
      FewKeys keys ∧
        SparseBatches (ofCommandLine pricing riskFreeRate batchSize) underlyings now maxRows options) ∧
    ((∀ underlyings now maxRows options,
        FetchesCapped (ofCommandLine pricing riskFreeRate batchSize) underlyings now maxRows options) ↔
      batchSize ≤ 16383) := by
  refine ⟨and_congr (startTimes_capped_iff keys) fetches_capped_iff, always_capped_iff.trans ?_⟩
  show batchSize.toNat ≤ 16383 ↔ batchSize ≤ 16383
  omega

def callRow : ContractRow where
  underlyingTicker := "SPX"
  expirationDate := 20000
  strike := 6000
  right := .call
  settlementType := none
  firstSeen := 0
  lastSeen := 0

def contractIds (count : ℕ) : List String := (List.range count).map fun i => String.ofList (List.replicate i 'C')

theorem contractIds_nodup (count : ℕ) : (contractIds count).Nodup := by
  apply List.nodup_range.map
  intro i j same
  have lengths := congrArg String.length same
  simpa using lengths

def manyContracts (count : ℕ) : ContractTable where
  entries := (contractIds count).map fun contractId => ⟨contractId, callRow⟩
  nodupKeys := by
    rw [List.NodupKeys, List.keys, List.map_map]
    exact (List.map_id _).symm ▸ contractIds_nodup count

def manyKeys (count : ℕ) : BackfillKeys where
  fullRescan := false
  tickers := [{ ticker := "SPX" }]
  contracts := manyContracts count
  liveResolved := ∅
  startDate := 0

theorem manyKeys_candidates (count : ℕ) : count ≤ (manyKeys count).candidates.length := by
  have inside : contractIds count ⊆ (manyKeys count).candidates := by
    intro contractId listed
    have stored : (contractId, callRow) ∈ (manyContracts count).items :=
      List.mem_map.mpr ⟨⟨contractId, callRow⟩, List.mem_map_of_mem listed, rfl⟩
    have wanted : (contractId, callRow) ∈ (manyContracts count).items.filter fun row =>
        row.2.underlyingTicker ∈ (manyKeys count).tickers.map TickerConfig.ticker ∧
          (manyKeys count).startDate ≤ row.2.expirationDate :=
      List.mem_filter.mpr ⟨stored, by simp [manyKeys, callRow]⟩
    have some_ticker : (manyKeys count).tickers ≠ [] := List.cons_ne_nil _ _
    rw [BackfillKeys.candidates, getBackfillCandidates, if_neg some_ticker]
    apply AList.mem_keys.mp
    rw [Dict.mem_insertAll, List.map_map]
    exact Or.inr (List.mem_map.mpr ⟨_, wanted, rfl⟩)
  have fewer := (List.subperm_of_subset (contractIds_nodup count) inside).length_le
  rwa [contractIds, List.length_map, List.length_range] at fewer

theorem keySelects_exceed : ¬ StartTimesCapped (manyKeys 32768) ∧
    ¬ FetchesCapped (ofCommandLine samplePricing (.val 0) 16384) ∅ 0 none (minuteTable 16384) := by
  constructor
  · intro capped
    rcases (startTimes_capped_iff (manyKeys 32768)).mp capped with full | few
    · cases full
    · exact absurd ((manyKeys_candidates 32768).trans few.1) (by decide)
  · rw [fetches_capped_iff]
    exact large_batch_dense le_rfl

end OptionsProof.KeySelects
