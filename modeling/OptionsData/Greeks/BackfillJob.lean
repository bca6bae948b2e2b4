import OptionsData.Kit.Ordered
import OptionsData.Db.Models
import OptionsData.Ingestion.GapDetection

namespace OptionsModel

open Kit

structure GreeksResult where
  delta : Number
  gamma : Number
  theta : Number
  vega : Number
  rho : Number
  iv : Number
deriving DecidableEq, Repr

/-- What the job takes from the time zone database and from floating-point arithmetic. -/
structure Pricing where
  /-- 4:00 PM in New York on a date, in milliseconds since the epoch. -/
  marketClose : ℤ → ℤ
  /-- `compute_greeks(S, K, T, r, right, iv, option_price)`; `none` when it raises, as `math.exp` does on overflow. -/
  computeGreeks : Number → Number → ℚ → Number → OptionRight → Option Number → Option Number →
    Option (Option GreeksResult)

structure GreeksBackfillJob where
  pricing : Pricing
  riskFreeRate : Number
  batchSize : ℕ := 2000

inductive Outcome where
  | computed
  | skippedExpired
  | skippedNoUnderlyingBar
  | skippedNoIvOrPrice
  | skippedComputeFailed
deriving DecidableEq, Repr

/-- The parameters bound to one UPDATE, as their columns round them; `p_greeks_source` is always `COMPUTED`. -/
structure GreeksParams where
  key : BarKey
  delta : Number
  gamma : Number
  theta : Number
  vega : Number
  rho : Number
  iv : Number
deriving DecidableEq, Repr

def GreeksParams.apply (params : GreeksParams) (row : OptionBar1m) : OptionBar1m :=
  { row with
    delta := some params.delta
    gamma := some params.gamma
    theta := some params.theta
    vega := some params.vega
    rho := some params.rho
    iv := some params.iv
    greeksSource := some .computed }

def GreeksParams.fits (params : GreeksParams) : Bool :=
  [params.delta, params.gamma, params.rho, params.iv].all (Number.fitsNumeric 3) &&
    [params.theta, params.vega].all (Number.fitsNumeric 5)

abbrev OptionRow := BarKey × OptionBar1m

/-- ORDER BY time, contract_id; also the keyset cursor. -/
def sortKey (row : OptionRow) : ℤ ×ₗ String := toLex (row.1.2, row.1.1)

structure Summary where
  computed : ℕ := 0
  skippedExpired : ℕ := 0
  skippedNoUnderlyingBar : ℕ := 0
  skippedNoIvOrPrice : ℕ := 0
  skippedComputeFailed : ℕ := 0
  rowsProcessed : ℕ := 0
  batches : ℕ := 0
deriving DecidableEq, Repr

namespace Summary

def count (s : Summary) : Outcome → Summary
  | .computed => { s with computed := s.computed + 1 }
  | .skippedExpired => { s with skippedExpired := s.skippedExpired + 1 }
  | .skippedNoUnderlyingBar => { s with skippedNoUnderlyingBar := s.skippedNoUnderlyingBar + 1 }
  | .skippedNoIvOrPrice => { s with skippedNoIvOrPrice := s.skippedNoIvOrPrice + 1 }
  | .skippedComputeFailed => { s with skippedComputeFailed := s.skippedComputeFailed + 1 }

def outcomes (s : Summary) : ℕ :=
  s.computed + s.skippedExpired + s.skippedNoUnderlyingBar + s.skippedNoIvOrPrice + s.skippedComputeFailed

theorem outcomes_count (s : Summary) (outcome : Outcome) : (s.count outcome).outcomes = s.outcomes + 1 := by
  cases outcome <;> simp only [count, outcomes] <;> omega

theorem outcomes_counts (s : Summary) (outcomes : List Outcome) :
    (outcomes.foldl count s).outcomes = s.outcomes + outcomes.length := by
  induction outcomes generalizing s with
  | nil => rfl
  | cons outcome outcomes ih =>
    rw [List.foldl_cons, ih, outcomes_count, List.length_cons]
    omega

@[simp] theorem rowsProcessed_count (s : Summary) (outcome : Outcome) :
    (s.count outcome).rowsProcessed = s.rowsProcessed := by
  cases outcome <;> rfl

@[simp] theorem rowsProcessed_counts (s : Summary) (outcomes : List Outcome) :
    (outcomes.foldl count s).rowsProcessed = s.rowsProcessed := by
  induction outcomes generalizing s with
  | nil => rfl
  | cons outcome outcomes ih => rw [List.foldl_cons, ih, rowsProcessed_count]

end Summary

def retentionCutoff (now : ℤ) : ℤ := now - RETENTION_DAYS * 86400000

namespace GreeksBackfillJob

def underlyingCoverage (underlyings : UnderlyingTable) : Dict String (ℤ × ℤ) :=
  underlyings.keys.foldl (fun coverage key =>
    coverage.insert key.1 ((coverage.lookup key.1).elim (key.2, key.2) fun range =>
      (min range.1 key.2, max range.2 key.2))) ∅

def worthExamining (cutoff : ℤ) (coverage : Dict String (ℤ × ℤ)) (row : OptionRow) : Bool :=
  cutoff ≤ row.1.2 || coverage.items.any fun item =>
    row.2.underlyingTicker = item.1 && item.2.1 ≤ row.1.2 && row.1.2 ≤ item.2.2

def buildBatchQuery (batchLimit : ℕ) (last : Option (ℤ ×ₗ String)) (cutoff : ℤ)
    (coverage : Dict String (ℤ × ℤ)) (options : OptionTable) : List OptionRow :=
  (orderBy sortKey (options.items.filter fun row =>
    row.2.greeksSource.isNone && worthExamining cutoff coverage row &&
      last.all fun last => last < sortKey row)).take batchLimit

def batchQueryArguments (coverage : Dict String (ℤ × ℤ)) (last : Option (ℤ ×ₗ String)) : ℕ :=
  2 + 3 * coverage.keys.length + (if last.isSome then 2 else 0)

def underlyingKey (row : OptionRow) : BarKey := (row.2.underlyingTicker, row.1.2)

def underlyingKeys (rows : List OptionRow) : List BarKey := (rows.map underlyingKey).dedup

def fetchUnderlyings (underlyings : UnderlyingTable) (rows : List OptionRow) : UnderlyingTable :=
  underlyings.filter fun key _ => key ∈ underlyingKeys rows

/-- The IN list binds two values for each key. -/
def fetchArguments (rows : List OptionRow) : ℕ := 2 * (underlyingKeys rows).length

def timeToExpiryYears (pricing : Pricing) (barTime expirationDate : ℤ) : ℚ :=
  (pricing.marketClose expirationDate - barTime) / (36525 / 100 * 24 * 3600 * 1000)

/-- The outcome and the parameters to write; `none` when the computation raises. -/
def computeForRow (job : GreeksBackfillJob) (underlyings : UnderlyingTable) (row : OptionRow) :
    Option (Outcome × Option GreeksParams) :=
  let T := timeToExpiryYears job.pricing row.1.2 row.2.expirationDate
  if T ≤ 0 then some (.skippedExpired, none)
  else match (underlyings.lookup (underlyingKey row)).bind fun underlying => underlying.close with
    | none => some (.skippedNoUnderlyingBar, none)
    | some close =>
      if row.2.iv = none ∧ row.2.close = none then some (.skippedNoIvOrPrice, none)
      else
        (job.pricing.computeGreeks close (.val row.2.strike) T job.riskFreeRate row.2.right row.2.iv
          (if row.2.iv = none then row.2.close else none)).map fun
        | none => (.skippedComputeFailed, none)
        | some result => (.computed, some {
            key := row.1
            delta := result.delta.numeric 6
            gamma := result.gamma.numeric 8
            theta := result.theta.numeric 6
            vega := result.vega.numeric 6
            rho := result.rho.numeric 8
            iv := row.2.iv.getD (result.iv.numeric 6) })

def executeMany (options : OptionTable) (toUpdate : List GreeksParams) : OptionTable :=
  toUpdate.foldl (fun options params => options.adjust params.key params.apply) options

/-- The statement raises when a value overflows its column. -/
def bulkUpdate (options : OptionTable) (toUpdate : List GreeksParams) : Option OptionTable :=
  if toUpdate.all GreeksParams.fits then some (executeMany options toUpdate) else none

structure Progress where
  table : OptionTable
  summary : Summary := {}
  last : Option (ℤ ×ₗ String) := none
  /-- Every row read so far, in the order in which it was read. -/
  examined : List BarKey := []

inductive Iteration where
  | stops
  | raises
  | goesOn (s : Progress)

/-- One round of the loop of `run`; what raises rolls the batch back. -/
def iteration (job : GreeksBackfillJob) (underlyings : UnderlyingTable) (cutoff : ℤ)
    (coverage : Dict String (ℤ × ℤ)) (maxRows : Option ℕ) (s : Progress) : Iteration :=
  if maxRows.any fun maxRows => maxRows ≤ s.summary.rowsProcessed then .stops
  else
    let batchLimit := maxRows.elim job.batchSize fun maxRows => min job.batchSize (maxRows - s.summary.rowsProcessed)
    if maxRows.isSome ∧ batchLimit = 0 then .stops
    else if MAX_STATEMENT_ARGUMENTS < batchQueryArguments coverage s.last then .raises
    else
      let rows := buildBatchQuery batchLimit s.last cutoff coverage s.table
      match rows.getLast? with
      | none => .stops
      | some last =>
        if MAX_STATEMENT_ARGUMENTS < fetchArguments rows then .raises
        else match rows.mapM (job.computeForRow (fetchUnderlyings underlyings rows)) with
          | none => .raises
          | some results => match bulkUpdate s.table (results.filterMap Prod.snd) with
            | none => .raises
            | some table =>
              let summary := (results.map Prod.fst).foldl Summary.count s.summary
              .goesOn {
                table := table
                summary := { summary with
                  rowsProcessed := summary.rowsProcessed + rows.length
                  batches := summary.batches + 1 }
                last := some (sortKey last)
                examined := s.examined ++ rows.map Prod.fst }

def loop (job : GreeksBackfillJob) (underlyings : UnderlyingTable) (cutoff : ℤ)
    (coverage : Dict String (ℤ × ℤ)) (maxRows : Option ℕ) : ℕ → Progress → Option (Progress × Ended)
  | 0, _ => none
  | fuel + 1, s => match job.iteration underlyings cutoff coverage maxRows s with
    | .stops => some (s, .returned)
    | .raises => some (s, .raised)
    | .goesOn t => job.loop underlyings cutoff coverage maxRows fuel t

/-- `none` would mean that the loop is still going on after more rounds than the table has rows. -/
def run (job : GreeksBackfillJob) (underlyings : UnderlyingTable) (now : ℤ) (maxRows : Option ℕ)
    (options : OptionTable) : Option (Progress × Ended) :=
  job.loop underlyings (retentionCutoff now) (underlyingCoverage underlyings) maxRows
    (options.keys.length + 1) { table := options }

theorem mem_buildBatchQuery {batchLimit : ℕ} {last : Option (ℤ ×ₗ String)} {cutoff : ℤ}
    {coverage : Dict String (ℤ × ℤ)} {options : OptionTable} {key : BarKey} {row : OptionBar1m}
    (selected : (key, row) ∈ buildBatchQuery batchLimit last cutoff coverage options) :
    options.lookup key = some row ∧ row.greeksSource = none := by
  have listed := (orderBy_perm _ _).subset (List.mem_of_mem_take selected)
  simp only [List.mem_filter, Bool.and_eq_true] at listed
  exact ⟨Dict.mem_items.mp listed.1, Option.isNone_iff_eq_none.mp listed.2.1.1⟩

theorem bulkUpdate_eq_some {options table : OptionTable} {toUpdate : List GreeksParams} :
    bulkUpdate options toUpdate = some table ↔
      toUpdate.all GreeksParams.fits = true ∧ executeMany options toUpdate = table := by
  rw [bulkUpdate, Option.ite_none_right_eq_some, Option.some_inj]

theorem computeForRow_params {job : GreeksBackfillJob} {underlyings : UnderlyingTable} {row : OptionRow}
    {outcome : Outcome} {params : GreeksParams}
    (computed : job.computeForRow underlyings row = some (outcome, some params)) :
    params.key = row.1 ∧ ∀ x, row.2.iv = some x → params.iv = x := by
  unfold computeForRow at computed
  dsimp only at computed
  split at computed
  · cases computed
  · split at computed
    · cases computed
    · split at computed
      · cases computed
      · obtain ⟨result, -, shown⟩ := Option.map_eq_some_iff.mp computed
        cases result with
        | none => cases shown
        | some values =>
          cases shown
          exact ⟨rfl, fun x known => by simp [known]⟩

theorem mapM_some_iff {α β : Type*} {f : α → Option β} {rows : List α} {results : List β} :
    rows.mapM f = some results ↔ rows.map f = results.map some := by
  induction rows generalizing results with
  | nil =>
    cases results with
    | nil => simp
    | cons result results => simp
  | cons row rows ih =>
    cases results with
    | nil =>
      rw [List.mapM_cons]
      cases f row <;> cases rows.mapM f <;> simp
    | cons result results =>
      rw [List.mapM_cons, List.map_cons, List.map_cons, List.cons.injEq, ← ih]
      cases f row <;> cases rows.mapM f <;> simp

theorem mem_of_mapM {α β : Type*} {f : α → Option β} {rows : List α} {results : List β} {result : β}
    (computed : rows.mapM f = some results) (member : result ∈ results) : ∃ row ∈ rows, f row = some result := by
  have listed : some result ∈ rows.map f := mapM_some_iff.mp computed ▸ List.mem_map.mpr ⟨result, member, rfl⟩
  exact List.mem_map.mp listed

end GreeksBackfillJob

end OptionsModel
