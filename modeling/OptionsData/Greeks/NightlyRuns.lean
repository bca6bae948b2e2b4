import OptionsData.Greeks.FullRun

namespace OptionsProof.Greeks

open Kit OptionsModel OptionsModel.GreeksBackfillJob

structure BarTables where
  options : OptionTable
  underlyings : UnderlyingTable

/-- A day: the bars that other writers insert, and how the job is then called. -/
structure Day where
  options : List (BarKey × OptionBar1m)
  underlyings : List (BarKey × UnderlyingBar1m)
  batchSize : ℕ
  now : ℤ
  maxRows : Option ℕ

def receive (tables : BarTables) (day : Day) : BarTables where
  options := tables.options.insertAll day.options
  underlyings := tables.underlyings.insertAll day.underlyings

def runTable (job : GreeksBackfillJob) (underlyings : UnderlyingTable) (now : ℤ) (maxRows : Option ℕ)
    (options : OptionTable) : OptionTable :=
  (job.run underlyings now maxRows options).elim options fun result => result.1.table

def night (job : GreeksBackfillJob) (tables : BarTables) (day : Day) : BarTables :=
  let received := receive tables day
  { received with
    options := runTable { job with batchSize := day.batchSize } received.underlyings day.now day.maxRows
      received.options }

variable {job : GreeksBackfillJob} {underlyings : UnderlyingTable} {options : OptionTable} {now : ℤ}

theorem loop_reached {maxRows : Option ℕ} {fuel p : ℕ} {s r : Progress} {ended : Ended}
    (reached : Reached job underlyings now options p s)
    (result : job.loop underlyings (retentionCutoff now) (underlyingCoverage underlyings) maxRows fuel s =
      some (r, ended)) : ∃ q, Reached job underlyings now options q r := by
  induction fuel generalizing s p with
  | zero => cases result
  | succ fuel ih =>
    unfold loop at result
    generalize chosen : job.iteration underlyings (retentionCutoff now) (underlyingCoverage underlyings) maxRows s =
      iteration at result
    have round := reached.round maxRows
    rw [chosen] at round
    cases round with
    | stops =>
      cases result
      exact ⟨p, reached⟩
    | raises =>
      cases result
      exact ⟨p, reached⟩
    | goesOn t _ _ _ further => exact ih further result

def Filled (job : GreeksBackfillJob) (underlyings : UnderlyingTable) (plain table : OptionTable) (key : BarKey) :
    Prop :=
  ∃ row params, plain.lookup key = some row ∧ row.greeksSource = none ∧
    updateFor job underlyings (key, row) = some params ∧ table.lookup key = some (params.apply row)

/-- A table that differs from the inserted rows only by Greeks that the job computed from bars still there. -/
def Partly (job : GreeksBackfillJob) (underlyings : UnderlyingTable) (plain table : OptionTable) : Prop :=
  ∀ key, table.lookup key = plain.lookup key ∨ Filled job underlyings plain table key

theorem Reached.partly {p : ℕ} {r : Progress} (reached : Reached job underlyings now options p r) :
    Partly job underlyings options r.table := by
  intro key
  rw [Filled, reached.table]
  cases stored : options.lookup key with
  | none => exact .inl rfl
  | some row =>
    rw [Option.map_some]
    split
    · next taken =>
      cases update : updateFor job underlyings (key, row) with
      | none =>
        left
        rw [examinedRow, update, Option.elim_none]
      | some params =>
        obtain ⟨⟨_, other⟩, member, rfl⟩ := List.mem_map.mp taken
        obtain ⟨found, waiting⟩ := mem_served.mp (List.mem_of_mem_take member)
        obtain rfl : row = other := Option.some.inj (stored.symm.trans found)
        rw [awaiting, Bool.and_eq_true] at waiting
        right
        refine ⟨row, params, rfl, Option.isNone_iff_eq_none.mp waiting.1, update, ?_⟩
        rw [examinedRow, update, Option.elim_some]
    · exact .inl rfl

theorem Partly.trans {plain table later : OptionTable} (first : Partly job underlyings plain table)
    (next : Partly job underlyings table later) : Partly job underlyings plain later := by
  intro key
  rcases next key with same | ⟨row, params, stored, bare, update, filled⟩
  · rcases first key with kept | ⟨row, params, stored, bare, update, filled⟩
    · exact .inl (same.trans kept)
    · exact .inr ⟨row, params, stored, bare, update, same.trans filled⟩
  · rcases first key with kept | ⟨row', params', -, -, -, filled'⟩
    · exact .inr ⟨row, params, kept.symm.trans stored, bare, update, filled⟩
    · obtain rfl : params'.apply row' = row := Option.some.inj (filled'.symm.trans stored)
      cases bare

theorem Partly.run {plain table : OptionTable} (partly : Partly job underlyings plain table) (batchSize : ℕ)
    (now : ℤ) (maxRows : Option ℕ) :
    Partly job underlyings plain
      (runTable { job with batchSize := batchSize } underlyings now maxRows table) := by
  rw [runTable]
  cases result : ({ job with batchSize := batchSize } : GreeksBackfillJob).run underlyings now maxRows table with
  | none => exact partly
  | some ran =>
    obtain ⟨q, reached⟩ := loop_reached Reached.start result
    exact partly.trans reached.partly

theorem Partly.insert {plain table : OptionTable} (partly : Partly job underlyings plain table)
    (rows : List (BarKey × OptionBar1m)) :
    Partly job underlyings (plain.insertAll rows) (table.insertAll rows) := by
  intro key
  rw [Filled, Dict.lookup_insertAll, Dict.lookup_insertAll]
  rcases partly key with same | ⟨row, params, stored, bare, update, filled⟩
  · exact .inl (by rw [same])
  · exact .inr ⟨row, params, by rw [stored, Option.some_or], bare, update, by rw [filled, Option.some_or]⟩

theorem updateFor_insert {row : OptionRow} {params : GreeksParams}
    (update : updateFor job underlyings row = some params) (rows : List (BarKey × UnderlyingBar1m)) :
    updateFor job (underlyings.insertAll rows) row = some params := by
  have present : underlyingKey row ∈ underlyings := by
    by_contra absent
    rw [updateFor_bar absent] at update
    cases update
  obtain ⟨bar, found⟩ := (Dict.mem_iff _ _).mp present
  have same : (underlyings.insertAll rows).lookup (underlyingKey row) = underlyings.lookup (underlyingKey row) := by
    rw [Dict.lookup_insertAll, found, Option.some_or]
  rw [← update, updateFor, updateFor, computeForRow, computeForRow, same]

theorem Partly.grow {plain table : OptionTable} (partly : Partly job underlyings plain table)
    (rows : List (BarKey × UnderlyingBar1m)) : Partly job (underlyings.insertAll rows) plain table := by
  intro key
  rcases partly key with same | ⟨row, params, stored, bare, update, filled⟩
  · exact .inl same
  · exact .inr ⟨row, params, stored, bare, updateFor_insert update rows, filled⟩

theorem nights_partly (job : GreeksBackfillJob) (start : BarTables) (days : List Day) :
    (days.foldl (night job) start).underlyings = (days.foldl receive start).underlyings ∧
      Partly job (days.foldl receive start).underlyings (days.foldl receive start).options
        (days.foldl (night job) start).options := by
  induction days using List.reverseRecOn with
  | nil => exact ⟨rfl, fun _ => .inl rfl⟩
  | append_singleton days day ih =>
    obtain ⟨same, partly⟩ := ih
    rw [List.foldl_append, List.foldl_append, List.foldl_cons, List.foldl_cons, List.foldl_nil, List.foldl_nil]
    have bars : (night job (days.foldl (night job) start) day).underlyings =
        (receive (days.foldl receive start) day).underlyings := by
      rw [night, receive, receive, same]
    have received := ((partly.grow day.underlyings).insert day.options).run day.batchSize day.now day.maxRows
    refine ⟨bars, ?_⟩
    rw [night, receive, receive, same]
    exact received

theorem Partly.reconciled {plain table : OptionTable} (partly : Partly job underlyings plain table) (key : BarKey) :
    (table.lookup key).map (Greeks.reconciled job underlyings key) =
      (plain.lookup key).map (Greeks.reconciled job underlyings key) := by
  rcases partly key with same | ⟨row, params, stored, bare, update, filled⟩
  · rw [same]
  · have computed : (params.apply row).greeksSource ≠ none := Option.some_ne_none _
    rw [stored, filled, Option.map_some, Option.map_some, Greeks.reconciled, if_neg computed, Greeks.reconciled,
      if_pos bare, examinedRow, update, Option.elim_some]

/-- A run in which nothing raises gives the same table whether the job has run between the insertions or not. -/
theorem nightly_runs_agree (positive : 0 < job.batchSize) (start : BarTables) (days : List Day) {now : ℤ}
    {r : Progress}
    (ran : job.run (days.foldl (night job) start).underlyings now none (days.foldl (night job) start).options =
      some (r, .returned)) :
    (∀ key, r.table.lookup key = ((days.foldl receive start).options.lookup key).map
      (reconciled job (days.foldl receive start).underlyings key)) ∧
    ∀ now' r', job.run (days.foldl receive start).underlyings now' none (days.foldl receive start).options =
        some (r', .returned) →
      ∀ key, r.table.lookup key = r'.table.lookup key := by
  obtain ⟨same, partly⟩ := nights_partly job start days
  have complete {underlyings : UnderlyingTable} {now : ℤ} {options : OptionTable} {r : Progress}
      (ran : job.run underlyings now none options = some (r, .returned)) (key : BarKey) :
      r.table.lookup key = (options.lookup key).map (reconciled job underlyings key) := by
    obtain ⟨r', ended, result, whole, -⟩ := run_returns_iff underlyings now options positive
    rw [ran] at result
    cases result
    exact (whole rfl).complete key
  have nightly (key : BarKey) : r.table.lookup key = ((days.foldl receive start).options.lookup key).map
      (reconciled job (days.foldl receive start).underlyings key) := by
    rw [complete ran, same, partly.reconciled]
  refine ⟨nightly, fun now' r' once key => ?_⟩
  rw [nightly, complete once]

def twoDays : List Day :=
  [⟨[(("SPY_C450", 0), { sampleRow with close := some (.val 4) }),
        (("SPY_C450", 60000), { sampleRow with close := some (.val 5) })],
      [(("SPY", 60000), { close := some (.val 452) })], 1, 0, none⟩,
    ⟨[], [(("SPY", 0), { close := some (.val 451) })], 1, 0, some 0⟩]

theorem nightly_runs_agree_twoDays : ∃ r, (sampleJob 1).run (twoDays.foldl (night (sampleJob 1)) ⟨∅, ∅⟩).underlyings 0
      none (twoDays.foldl (night (sampleJob 1)) ⟨∅, ∅⟩).options = some (r, .returned) ∧
    ∀ key, r.table.lookup key = ((twoDays.foldl receive ⟨∅, ∅⟩).options.lookup key).map
      (reconciled (sampleJob 1) (twoDays.foldl receive ⟨∅, ∅⟩).underlyings key) := by
  have positive : 0 < (sampleJob 1).batchSize := by decide
  obtain ⟨r, ended, result, -, returns⟩ := run_returns_iff
    (twoDays.foldl (night (sampleJob 1)) ⟨∅, ∅⟩).underlyings 0
    (twoDays.foldl (night (sampleJob 1)) ⟨∅, ∅⟩).options positive
  obtain rfl := returns.mpr ⟨by decide +kernel, batches_fit (by decide), by decide +kernel⟩
  exact ⟨r, result, (nightly_runs_agree positive _ _ result).1⟩

end OptionsProof.Greeks
