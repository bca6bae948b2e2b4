import OptionsData.Kit.Sweep
import OptionsData.Greeks.FullRun

namespace OptionsModel.GreeksBackfillJob

/-- `run(max_rows=n)` several times in a row; what a run that raises has committed stays. -/
def cappedRuns (job : GreeksBackfillJob) (underlyings : UnderlyingTable) (now : ℤ) (maxRows : ℕ) :
    ℕ → OptionTable → Option OptionTable
  | 0, options => some options
  | count + 1, options => (job.run underlyings now (some maxRows) options).bind fun result =>
      job.cappedRuns underlyings now maxRows count result.1.table

end OptionsModel.GreeksBackfillJob

namespace OptionsProof.Greeks

open Kit OptionsModel OptionsModel.GreeksBackfillJob

variable {job : GreeksBackfillJob} {underlyings : UnderlyingTable} {options : OptionTable} {now : ℤ}

def computable (job : GreeksBackfillJob) (underlyings : UnderlyingTable) (row : OptionRow) : Bool :=
  (updateFor job underlyings row).isSome

instance (job : GreeksBackfillJob) (underlyings : UnderlyingTable) (rows : List OptionRow) :
    Decidable (BatchFits job underlyings rows) := inferInstanceAs (Decidable (_ ∧ _))

/-- Whether a round goes through once the rows before `p` are examined: its statements and what they compute. -/
def passes (job : GreeksBackfillJob) (underlyings : UnderlyingTable) (maxRows : Option ℕ) (rows : List OptionRow)
    (p : ℕ) : Bool :=
  batchQueryArguments (underlyingCoverage underlyings) ((rows.take p).getLast?.map sortKey) ≤
      MAX_STATEMENT_ARGUMENTS &&
    BatchFits job underlyings ((rows.drop p).take (batchLimit job maxRows p))

def asked (maxRows : Option ℕ) (rows : List OptionRow) : ℕ := maxRows.elim rows.length fun n => min n rows.length

/-- How many of the rows it is served a run gets through: its batches up to the first that raises. -/
def rowsThrough (job : GreeksBackfillJob) (underlyings : UnderlyingTable) (maxRows : Option ℕ)
    (rows : List OptionRow) : ℕ :=
  min (job.batchSize * ((List.range rows.length).takeWhile fun i =>
    passes job underlyings maxRows rows (job.batchSize * i)).length) (asked maxRows rows)

theorem asked_le (maxRows : Option ℕ) (rows : List OptionRow) : asked maxRows rows ≤ rows.length := by
  cases maxRows with
  | none => exact le_rfl
  | some n => exact min_le_right _ _

theorem rowsThrough_le (n : ℕ) (rows : List OptionRow) : rowsThrough job underlyings (some n) rows ≤ n :=
  (min_le_right _ _).trans (min_le_left _ _)

theorem rowsThrough_eq {maxRows : Option ℕ} {rows : List OptionRow} {i : ℕ} (positive : 0 < job.batchSize)
    (before : ∀ j < i, passes job underlyings maxRows rows (job.batchSize * j) = true)
    (ends : job.batchSize * i < asked maxRows rows →
      passes job underlyings maxRows rows (job.batchSize * i) = false) :
    rowsThrough job underlyings maxRows rows = min (job.batchSize * i) (asked maxRows rows) := by
  obtain ⟨within, passed, fails⟩ := takeWhile_range_spec
    (fun i => passes job underlyings maxRows rows (job.batchSize * i)) rows.length
  have short := asked_le maxRows rows
  unfold rowsThrough
  generalize ((List.range rows.length).takeWhile fun i =>
    passes job underlyings maxRows rows (job.batchSize * i)).length = t at *
  rcases lt_or_ge t i with early | late
  · -- every batch passes, also those that would begin after the last row
    have whole : t = rows.length := by
      by_contra fewer
      rw [before t early] at fails
      exact absurd (fails (lt_of_le_of_ne within fewer)) Bool.true_eq_false.mp
    have first := Nat.le_mul_of_pos_left t positive
    have second := Nat.mul_le_mul_left job.batchSize early.le
    omega
  · have more := Nat.mul_le_mul_left job.batchSize late
    rcases lt_or_ge (job.batchSize * i) (asked maxRows rows) with inside | beyond
    · have same : t = i := by
        by_contra other
        have passing := passed i (lt_of_le_of_ne late (Ne.symm other))
        rw [ends inside] at passing
        cases passing
      rw [same]
    · omega

/-- By induction on the fuel: from the start of batch `i` the loop gets through the batches that pass. -/
theorem loop_through {maxRows : Option ℕ} {fuel p i : ℕ} {s : Progress}
    (reached : Reached job underlyings now options p s) (positive : 0 < job.batchSize)
    (starts : p = min (job.batchSize * i) (asked maxRows (served underlyings now options)))
    (before : ∀ j < i, passes job underlyings maxRows (served underlyings now options) (job.batchSize * j) = true)
    (enough : (served underlyings now options).length < fuel + p) :
    ∃ r ended, job.loop underlyings (retentionCutoff now) (underlyingCoverage underlyings) maxRows fuel s =
        some (r, ended) ∧
      Reached job underlyings now options (rowsThrough job underlyings maxRows (served underlyings now options)) r := by
  induction fuel generalizing s p i with
  | zero => exact absurd reached.within (by omega)
  | succ fuel ih =>
    have here (inside : job.batchSize * i < asked maxRows (served underlyings now options)) : p = job.batchSize * i :=
      starts.trans (min_eq_left inside.le)
    have last : passes job underlyings maxRows (served underlyings now options) p = true ↔
        batchQueryArguments (underlyingCoverage underlyings) s.last ≤ MAX_STATEMENT_ARGUMENTS ∧
          BatchFits job underlyings (nextBatch job underlyings now options maxRows p) := by
      rw [passes, reached.last, Bool.and_eq_true, decide_eq_true_iff, decide_eq_true_iff, nextBatch]
    have size : (nextBatch job underlyings now options maxRows p).length =
        min job.batchSize (asked maxRows (served underlyings now options) - p) := by
      rw [nextBatch, List.length_take, List.length_drop]
      cases maxRows with
      | none => rfl
      | some n =>
        simp only [batchLimit, asked, Option.elim_some]
        omega
    unfold loop
    generalize chosen : job.iteration underlyings (retentionCutoff now) (underlyingCoverage underlyings) maxRows s =
      iteration
    have round := reached.round maxRows
    rw [chosen] at round
    cases round with
    | stops nothing asked =>
      rw [nothing, List.length_nil] at size
      have through := rowsThrough_eq positive before fun inside => absurd (here inside) (by omega)
      exact ⟨s, .returned, rfl, through.trans starts.symm ▸ reached⟩
    | raises blocked =>
      have through := rowsThrough_eq positive before fun inside =>
        here inside ▸ Bool.eq_false_iff.mpr (last.not.mpr blocked)
      exact ⟨s, .raised, rfl, through.trans starts.symm ▸ reached⟩
    | goesOn t more allowed fits further =>
      have nonempty := List.length_pos_iff.mpr more
      have inside : job.batchSize * i < asked maxRows (served underlyings now options) := by omega
      have next : job.batchSize * (i + 1) = job.batchSize * i + job.batchSize := Nat.mul_succ _ _
      have begun := here inside
      apply ih further (i := i + 1) (by omega)
      · intro j earlier
        rcases Nat.lt_succ_iff_lt_or_eq.mp earlier with old | rfl
        · exact before j old
        · exact begun ▸ last.mpr ⟨allowed, fits⟩
      · omega

theorem run_through (underlyings : UnderlyingTable) (now : ℤ) (maxRows : Option ℕ) (options : OptionTable)
    (positive : 0 < job.batchSize) :
    ∃ r ended, job.run underlyings now maxRows options = some (r, ended) ∧
      Reached job underlyings now options (rowsThrough job underlyings maxRows (served underlyings now options)) r := by
  apply loop_through (i := 0) .start positive
  · rw [Nat.mul_zero, Nat.zero_min]
  · intro j none
    exact absurd none (Nat.not_lt_zero j)
  · exact Nat.lt_succ_of_le served_length

theorem applied_source {key : BarKey} {row : OptionBar1m} (writes : computable job underlyings (key, row) = true) :
    (examinedRow job underlyings key row).greeksSource = some .computed := by
  obtain ⟨params, update⟩ := Option.isSome_iff_exists.mp writes
  rw [examinedRow, update]
  rfl

theorem examinedRow_idle {key : BarKey} {row : OptionBar1m} (idle : computable job underlyings (key, row) = false) :
    examinedRow job underlyings key row = row := by
  rw [examinedRow, Option.not_isSome_iff_eq_none.mp (Bool.eq_false_iff.mp idle)]
  rfl

theorem Reached.waiting {n : ℕ} {r : Progress} (reached : Reached job underlyings now options n r)
    {key : BarKey} {row : OptionBar1m} :
    (r.table.lookup key = some row ∧ awaiting underlyings now (key, row) = true) ↔
      (key, row) ∈ sweep n (computable job underlyings) (served underlyings now options) := by
  have unique : ((served underlyings now options).map Prod.fst).Nodup := served_nodup
  have split := List.take_append_drop n (served underlyings now options)
  rw [reached.table, mem_sweep]
  by_cases early : key ∈ ((served underlyings now options).take n).map Prod.fst
  · obtain ⟨⟨_, old⟩, member, rfl⟩ := List.mem_map.mp early
    obtain ⟨stored, waits⟩ := mem_served.mp (List.mem_of_mem_take member)
    simp only [stored, Option.map_some, if_pos early, Option.some_inj]
    constructor
    · intro premise
      rcases premise with ⟨shown, waits'⟩
      cases writes : computable job underlyings (_, old) with
      | true =>
        rw [← shown, awaiting, applied_source writes] at waits'
        cases waits'
      | false =>
        rw [examinedRow_idle writes] at shown
        subst shown
        exact .inl ⟨member, writes⟩
    · intro premise
      rcases premise with ⟨member', idle⟩ | late
      · have same := (mem_served.mp (List.mem_of_mem_take member')).1
        rw [stored, Option.some_inj] at same
        subst same
        exact ⟨examinedRow_idle idle, waits⟩
      · rw [← split, List.map_append, List.nodup_append] at unique
        exact absurd rfl (unique.2.2 _ early _ (List.mem_map.mpr ⟨_, late, rfl⟩))
  · simp only [if_neg early, Option.map_id']
    have parts : (key, row) ∈ served underlyings now options ↔
        (key, row) ∈ (served underlyings now options).take n ∨
          (key, row) ∈ (served underlyings now options).drop n := by
      rw [← List.mem_append, split]
    have late (before : (key, row) ∈ (served underlyings now options).take n) : False :=
      early (List.mem_map.mpr ⟨_, before, rfl⟩)
    rw [← mem_served, parts]
    exact or_congr_left ⟨fun before => (late before).elim, And.left⟩

theorem Reached.served {n : ℕ} {r : Progress} (reached : Reached job underlyings now options n r) :
    Greeks.served underlyings now r.table =
      sweep n (computable job underlyings) (Greeks.served underlyings now options) := by
  have unique : ((Greeks.served underlyings now options).map Prod.fst).Nodup := served_nodup
  have left := sweep_sublist n (computable job underlyings) (Greeks.served underlyings now options)
  have strict : (Greeks.served underlyings now options).Pairwise fun a b => sortKey a < sortKey b := served_strict
  apply (orderBy_ordered _ _).eq_of_perm ((strict.sublist left).imp fun less => less.le)
  · apply (List.perm_ext_iff_of_nodup (List.Nodup.of_map _ served_nodup)
      (List.Nodup.of_map _ (unique.sublist (left.map Prod.fst)))).mpr
    intro row
    exact mem_served.trans reached.waiting
  · exact sortKey_nodup served_nodup

theorem source_of_served {key : BarKey} {row : OptionBar1m} (listed : (key, row) ∈ served underlyings now options) :
    row.greeksSource = none := by
  have waits := (mem_served.mp listed).2
  rw [awaiting, Bool.and_eq_true] at waits
  exact Option.isNone_iff_eq_none.mp waits.1

theorem Reached.keeps {p : ℕ} {r : Progress} (reached : Reached job underlyings now options p r) {key : BarKey}
    {row : OptionBar1m} (stored : options.lookup key = some row) (has : row.greeksSource ≠ none) :
    r.table.lookup key = some row := by
  rw [reached.table, stored, Option.map_some, if_neg]
  intro early
  obtain ⟨⟨_, old⟩, member, rfl⟩ := List.mem_map.mp early
  have listed := List.mem_of_mem_take member
  have same := (mem_served.mp listed).1
  rw [stored, Option.some_inj] at same
  subst same
  exact has (source_of_served listed)

theorem Reached.computes {n : ℕ} {r : Progress} (reached : Reached job underlyings now options n r) {key : BarKey}
    {row : OptionBar1m} (listed : (key, row) ∈ Greeks.served underlyings now options)
    (writes : computable job underlyings (key, row) = true)
    (gone : (key, row) ∉ Greeks.served underlyings now r.table) :
    r.table.lookup key = some (examinedRow job underlyings key row) := by
  rw [reached.served, mem_sweep_of_test writes] at gone
  rw [← List.take_append_drop n (Greeks.served underlyings now options), List.mem_append] at listed
  have early := listed.resolve_right gone
  have inside : key ∈ ((Greeks.served underlyings now options).take n).map Prod.fst := List.mem_map.mpr ⟨_, early, rfl⟩
  rw [reached.table, (mem_served.mp (List.mem_of_mem_take early)).1, Option.map_some, if_pos inside]

/-- By induction on the runs: what is still served after them, and what the others have become. -/
theorem cappedRuns_spec (options : OptionTable) (n count : ℕ) (positive : 0 < job.batchSize) :
    ∃ capped, job.cappedRuns underlyings now n count options = some capped ∧
      served underlyings now capped = (fun left => sweep (rowsThrough job underlyings (some n) left)
        (computable job underlyings) left)^[count] (served underlyings now options) ∧
      (∀ key row, options.lookup key = some row → row.greeksSource ≠ none → capped.lookup key = some row) ∧
      ∀ key row, (key, row) ∈ served underlyings now options → computable job underlyings (key, row) = true →
        (key, row) ∉ served underlyings now capped →
          capped.lookup key = some (examinedRow job underlyings key row) := by
  induction count generalizing options with
  | zero => exact ⟨options, rfl, rfl, fun key row stored _ => stored, fun key row listed _ gone => absurd listed gone⟩
  | succ count ih =>
    obtain ⟨r, ended, result, reached⟩ := run_through underlyings now (some n) options positive
    obtain ⟨capped, rest, served', keeps, computes⟩ := ih r.table
    refine ⟨capped, ?_, ?_, ?_, ?_⟩
    · rw [cappedRuns, result]
      exact rest
    · rw [served', reached.served, Function.iterate_succ_apply]
    · intro key row stored has
      exact keeps key row (reached.keeps stored has) has
    · intro key row listed writes gone
      by_cases still : (key, row) ∈ served underlyings now r.table
      · exact computes key row still writes gone
      · have written := reached.computes listed writes still
        exact keeps key _ written (by rw [applied_source writes]; nofun)

def Computes (before after : OptionTable) (key : BarKey) : Prop :=
  ∃ row row', before.lookup key = some row ∧ row.greeksSource = none ∧
    after.lookup key = some row' ∧ row'.greeksSource = some .computed

def withoutGreeks (options : OptionTable) : ℕ := (options.items.filter fun row => row.2.greeksSource.isNone).length

def runsFor (options : OptionTable) (n : ℕ) : ℕ := (withoutGreeks options + n - 1) / n

def Progresses (job : GreeksBackfillJob) (underlyings : UnderlyingTable) (now : ℤ) (n : ℕ)
    (options : OptionTable) : Prop :=
  ∃ full ended capped, job.run underlyings now none options = some (full, ended) ∧
    job.cappedRuns underlyings now n (runsFor options n) options = some capped ∧
    ∀ key, Computes options full.table key → Computes options capped key

theorem computes_full {p : ℕ} {full : Progress} (reached : Reached job underlyings now options p full)
    {key : BarKey} : Computes options full.table key ↔
      ∃ row, (key, row) ∈ (served underlyings now options).take p ∧ computable job underlyings (key, row) = true := by
  constructor
  · intro premise
    rcases premise with ⟨row, row', stored, pending, after, computed⟩
    rw [reached.table, stored, Option.map_some, Option.some_inj] at after
    split at after
    · next early =>
      obtain ⟨⟨_, old⟩, listed, rfl⟩ := List.mem_map.mp early
      have same := (mem_served.mp (List.mem_of_mem_take listed)).1
      rw [stored, Option.some_inj] at same
      subst same
      refine ⟨row, listed, ?_⟩
      by_contra idle
      rw [examinedRow_idle (Bool.eq_false_iff.mpr idle)] at after
      rw [← after, pending] at computed
      cases computed
    · rw [← after, pending] at computed
      cases computed
  · intro premise
    rcases premise with ⟨row, early, writes⟩
    have listed := List.mem_of_mem_take early
    have examined : key ∈ ((served underlyings now options).take p).map Prod.fst := List.mem_map.mpr ⟨_, early, rfl⟩
    refine ⟨row, _, (mem_served.mp listed).1, source_of_served listed, ?_, applied_source writes⟩
    rw [reached.table, (mem_served.mp listed).1, Option.map_some, if_pos examined]

theorem mem_take_iff {rows : List OptionRow} (unique : rows.Nodup) {row : OptionRow} (listed : row ∈ rows) (m : ℕ) :
    row ∈ rows.take m ↔ row ∉ rows.drop m := by
  constructor
  · exact fun early late => List.disjoint_take_drop unique le_rfl early late
  · intro gone
    rw [← List.take_append_drop m rows, List.mem_append] at listed
    exact listed.resolve_right gone

/-- The capped runs compute what one uncapped run computes exactly if they get to see all of it. -/
theorem progresses_iff (n : ℕ) (positive : 0 < job.batchSize) :
    Progresses job underlyings now n options ↔
      ∀ row ∈ (served underlyings now options).take
          (rowsThrough job underlyings none (served underlyings now options)),
        computable job underlyings row = true →
          row ∈ (served underlyings now options).take (frontier (rowsThrough job underlyings (some n))
            (computable job underlyings) (served underlyings now options) (runsFor options n)) := by
  obtain ⟨full, ended, result, reached⟩ := run_through underlyings now none options positive
  obtain ⟨capped, runs, left, -, computes⟩ := cappedRuns_spec options n (runsFor options n) positive
  have unique : (served underlyings now options).Nodup := List.Nodup.of_map _ served_nodup
  rw [sweep_iterate] at left
  constructor
  · intro premise row early writes
    rcases premise with ⟨full', ended', capped', result', runs', progress⟩
    rw [result] at result'
    rw [runs] at runs'
    cases result'
    cases runs'
    rcases row with ⟨key, row⟩
    rw [mem_take_iff unique (List.mem_of_mem_take early)]
    intro late
    have waiting : (key, row) ∈ served underlyings now capped := by
      rw [left, mem_sweep_of_test writes]
      exact late
    obtain ⟨_, row', -, -, after, computed⟩ := progress key ((computes_full reached).mpr ⟨row, early, writes⟩)
    rw [(mem_served.mp waiting).1, Option.some_inj] at after
    subst after
    rw [source_of_served waiting] at computed
    cases computed
  · intro seen
    refine ⟨full, ended, capped, result, runs, fun key computed => ?_⟩
    obtain ⟨row, early, writes⟩ := (computes_full reached).mp computed
    have listed := List.mem_of_mem_take early
    have gone : (key, row) ∉ served underlyings now capped := by
      rw [left, mem_sweep_of_test writes]
      exact (mem_take_iff unique listed _).mp (seen _ early writes)
    exact ⟨row, _, (mem_served.mp listed).1, source_of_served listed, computes key row listed writes gone,
      applied_source writes⟩

/-- When every batch passes, a run goes through all the rows it asked for. -/
theorem rowsThrough_of_passes {maxRows : Option ℕ} {rows : List OptionRow} (positive : 0 < job.batchSize)
    (passing : ∀ i, passes job underlyings maxRows rows (job.batchSize * i) = true) :
    rowsThrough job underlyings maxRows rows = asked maxRows rows := by
  have long := Nat.le_mul_of_pos_left rows.length positive
  have through := rowsThrough_eq (i := rows.length) positive (fun j _ => passing j) fun inside =>
    absurd inside (not_lt.mpr ((asked_le maxRows rows).trans long))
  rw [through, min_eq_right ((asked_le maxRows rows).trans long)]

/-- `n` uncomputable rows ahead of a computable one starve it, however often the job is run. -/
theorem starved {n : ℕ} {idle rest : List OptionRow} {row : OptionRow}
    (split : served underlyings now options = idle ++ row :: rest) (long : n ≤ idle.length)
    (none : ∀ row ∈ idle, computable job underlyings row = false) (count : ℕ) :
    row ∉ (served underlyings now options).take (frontier (rowsThrough job underlyings (some n))
      (computable job underlyings) (served underlyings now options) count) := by
  have unique : (served underlyings now options).Nodup := List.Nodup.of_map _ served_nodup
  rw [mem_take_iff unique (by simp [split]), not_not, split]
  have stuck : frontier (rowsThrough job underlyings (some n)) (computable job underlyings) (idle ++ row :: rest)
      count ≤ n := frontier_stuck (rowsThrough_le n) none long count
  rw [List.drop_append_of_le_length (stuck.trans long)]
  simp

def twoBars : OptionTable :=
  ((∅ : OptionTable).insert ("SPY_C450", 0) { sampleRow with close := some (.val 4) }).insert ("SPY_C450", 60000)
    { sampleRow with close := some (.val 5) }

def underlyingAt (minutes : List ℤ) : UnderlyingTable :=
  Dict.insertAll ∅ (minutes.map fun minute => (("SPY", minute), { close := some (.val 452) }))

theorem progresses_iff_both : Progresses (sampleJob 1) (underlyingAt [0, 60000]) 0 1 twoBars := by
  apply (progresses_iff 1 (by decide)).mpr
  decide +kernel

/-- The first bar has no underlying bar; each capped run looks at it alone and skips it. -/
theorem capped_runs_starve :
    ¬ ∀ (job : GreeksBackfillJob) (underlyings : UnderlyingTable) (now : ℤ) (n : ℕ) (options : OptionTable),
      0 < job.batchSize → 0 < n → Progresses job underlyings now n options := by
  intro always
  obtain ⟨full, ended, capped, result, runs, progress⟩ :=
    always (sampleJob 1) (underlyingAt [60000]) 0 1 twoBars (by decide) (by decide)
  have computed : ((sampleJob 1).run (underlyingAt [60000]) 0 none twoBars).map (fun result =>
      (result.1.table.lookup ("SPY_C450", 60000)).map OptionBar1m.greeksSource) = some (some (some .computed)) := by
    decide +kernel
  have starved : ((sampleJob 1).cappedRuns (underlyingAt [60000]) 0 1 (runsFor twoBars 1) twoBars).map (fun table =>
      (table.lookup ("SPY_C450", 60000)).map OptionBar1m.greeksSource) = some (some none) := by decide +kernel
  have pending : (twoBars.lookup ("SPY_C450", 60000)).map OptionBar1m.greeksSource = some none := by decide +kernel
  rw [result, Option.map_some, Option.some_inj] at computed
  rw [runs, Option.map_some, Option.some_inj] at starved
  obtain ⟨row, stored, missing⟩ := Option.map_eq_some_iff.mp pending
  obtain ⟨row', written, source⟩ := Option.map_eq_some_iff.mp computed
  obtain ⟨_, after, -, -, found, shown⟩ := progress ("SPY_C450", 60000) ⟨row, row', stored, missing, written, source⟩
  rw [found, Option.map_some, shown] at starved
  cases starved

end OptionsProof.Greeks
