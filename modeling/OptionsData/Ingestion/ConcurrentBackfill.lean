import OptionsData.Ingestion.BackfillTasks

namespace OptionsProof.ConcurrentBackfill

open Kit OptionsModel OptionsProof.BackfillTasks

variable {job : OptionBackfill} {s t : BackfillTasks} {table : OptionTable} {cid : String}
  {resolved : ResolvedContract} {answers : ContractAnswers} {outcome : Option (OptionTable × ℕ)}

/-- Bars written, contracts failed, contracts completed and candles requested. -/
abbrev Counts := ℕ × ℕ × ℕ × Multiset String

def counts (s : BackfillTasks) : Counts := (s.written, s.failed, s.completed, s.requests)

def TaskEffect.counts (effect : TaskEffect) : Counts :=
  (effect.written, effect.failed, effect.completed, effect.requests)

def tableAfter (table : OptionTable) (outcome : Option (OptionTable × ℕ)) : OptionTable :=
  outcome.elim table Prod.fst

def writtenBy (outcome : Option (OptionTable × ℕ)) : ℕ := outcome.elim 0 Prod.snd

def failedBy (outcome : Option (OptionTable × ℕ)) : ℕ := outcome.elim 1 fun _ => 0

def TaskHolds (answers : ContractAnswers) (table : OptionTable) (cid : String) (resolved : ResolvedContract)
    (part : TaskPhase × (ℤ → Option OptionBar1m)) (added : Counts) : Prop :=
  let outcome := processAlone answers cid resolved table
  match part.1 with
  | .waiting => part.2 = rowsOf table cid ∧ added = 0
  | .requesting => part.2 = rowsOf table cid ∧ added = (0, 0, 0, {cid})
  | .writing rest gets pending => part.2 = rowsOf table cid ∧ added = (0, 0, 0, {cid}) ∧ ∃ gone,
      answers.candles = some (gone ++ rest) ∧ gone ++ rest ≠ [] ∧ Session answers cid resolved table gone gets pending
  | .returned written =>
    added = (0, 0, 0, {cid}) ∧ ∃ after, outcome = some (after, written) ∧ part.2 = rowsOf after cid
  | .raised => added = (0, 0, 0, {cid}) ∧ outcome = none ∧ part.2 = rowsOf table cid
  | .released =>
    added = (writtenBy outcome, failedBy outcome, 0, {cid}) ∧ part.2 = rowsOf (tableAfter table outcome) cid
  | .finished =>
    added = (writtenBy outcome, failedBy outcome, 1, {cid}) ∧ part.2 = rowsOf (tableAfter table outcome) cid

def partAfter (effect : TaskEffect) (rows : ℤ → Option OptionBar1m) : TaskPhase × (ℤ → Option OptionBar1m) :=
  (effect.phase, fun time => (effect.committed.lookup time).or (rows time))

theorem processAlone_raises (raises : answers.raises = true) : processAlone answers cid resolved table = none := by
  rw [processAlone, if_pos raises]

theorem raises_request (none_ : answers.candles = none) : answers.raises = true := by
  rw [ContractAnswers.raises, none_]

theorem raises_get {candles : List Candle} {n : ℕ} (given : answers.candles = some candles) (nonempty : candles ≠ [])
    (reached : n < timed candles) (raised : answers.gets n = false) : answers.raises = true := by
  have not_all : (List.range (timed candles)).all answers.gets = false := by
    rw [List.all_eq_false]
    exact ⟨n, List.mem_range.mpr reached, by simp [raised]⟩
  rw [timed] at not_all
  rw [ContractAnswers.raises, given]
  simp [nonempty, not_all]

theorem raises_commit {candles : List Candle} (given : answers.candles = some candles) (nonempty : candles ≠ [])
    (raised : answers.commits = false) : answers.raises = true := by
  rw [ContractAnswers.raises, given]
  simp [nonempty, raised]

theorem processAlone_empty (given : answers.candles = some []) :
    processAlone answers cid resolved table = some (table, 0) := by
  rw [processAlone, ContractAnswers.raises, given]
  rfl

theorem processAlone_writes (cid : String) (resolved : ResolvedContract) (table : OptionTable)
    {candles : List Candle} (given : answers.candles = some candles) (nonempty : candles ≠ [])
    (answered : ∀ n < timed candles, answers.gets n = true) (commits : answers.commits = true) :
    processAlone answers cid resolved table =
      some ((WriteLoop.writeAll cid (fun _ => true) (optionCandleRow resolved) table candles).table,
        (WriteLoop.writeAll cid (fun _ => true) (optionCandleRow resolved) table candles).written) := by
  have all_ : (List.range (timed candles)).all answers.gets = true := by
    rw [List.all_eq_true]
    exact fun n listed => answered n (List.mem_range.mp listed)
  rw [timed] at all_
  rw [processAlone, ContractAnswers.raises, given]
  simp [all_, commits, backfillOptionContract, nonempty]

section Writing

variable {gone rest : List Candle} {gets : ℕ} {pending : Dict ℤ OptionBar1m} {candle : Candle}

theorem commit_next (given : answers.candles = some gone) (nonempty : gone ≠ [])
    (session : Session answers cid resolved table gone gets pending) {effect : TaskEffect}
    (next : effect = processOne cid resolved answers (fun time => (rowsOf table cid time).isSome)
      (.writing [] gets pending)) :
    TaskHolds answers table cid resolved (partAfter effect (rowsOf table cid))
      ((0, 0, 0, {cid}) + TaskEffect.counts effect) := by
  cases commits : answers.commits with
  | false =>
    rw [processOne, commits, Bool.false_and, if_neg Bool.false_ne_true] at next
    subst next
    exact ⟨rfl, processAlone_raises (raises_commit given nonempty commits), rfl⟩
  | true =>
    have unclaimed : (pending.keys.any fun time => (rowsOf table cid time).isSome) = false := by
      rw [List.any_eq_false]
      intro time listed
      rw [session.fresh time listed]
      exact Bool.false_ne_true
    rw [processOne, commits, unclaimed, Bool.not_false, Bool.and_self, if_pos rfl] at next
    subst next
    have alone := processAlone_writes cid resolved table given nonempty
      (session.counted ▸ session.answered) commits
    rw [← session.written] at alone
    exact ⟨rfl, _, alone, funext session.rows⟩

theorem writing_next (given : answers.candles = some (gone ++ candle :: rest))
    (session : Session answers cid resolved table gone gets pending) {effect : TaskEffect}
    (next : effect = processOne cid resolved answers (fun time => (rowsOf table cid time).isSome)
      (.writing (candle :: rest) gets pending)) :
    TaskHolds answers table cid resolved (partAfter effect (rowsOf table cid))
      ((0, 0, 0, {cid}) + TaskEffect.counts effect) := by
  have given' : answers.candles = some ((gone ++ [candle]) ++ rest) := by
    rw [given, List.append_assoc, List.singleton_append]
  have nonempty : (gone ++ [candle]) ++ rest ≠ [] := by simp
  have moved {later : ℕ} {rows : Dict ℤ OptionBar1m}
      (session' : Session answers cid resolved table (gone ++ [candle]) later rows)
      (next' : effect = { phase := .writing rest later rows }) :
      TaskHolds answers table cid resolved (partAfter effect (rowsOf table cid))
        ((0, 0, 0, {cid}) + TaskEffect.counts effect) := by
    subst next'
    exact ⟨rfl, rfl, gone ++ [candle], given', nonempty, session'⟩
  rw [processOne] at next
  cases at_ : candle.time with
  | none =>
    rw [at_] at next
    exact moved (session.untimed at_) next
  | some barTime =>
    rw [at_] at next
    dsimp only at next
    cases answered : answers.gets gets with
    | false =>
      rw [answered, Bool.not_false, if_pos rfl] at next
      subst next
      have reached : gets < timed (gone ++ candle :: rest) := by
        rw [session.counted]
        simp [timed, at_]
      exact ⟨rfl, processAlone_raises (raises_get given (by simp) reached answered), rfl⟩
    | true =>
      rw [answered, Bool.not_true, if_neg Bool.false_ne_true] at next
      split at next
      · next there =>
        have found : (rowsOf table cid barTime).isSome ∨ barTime ∈ pending := by simpa using there
        exact moved (session.found at_ answered found) next
      · next absent =>
        have new : rowsOf table cid barTime = none ∧ barTime ∉ pending := by simpa using absent
        exact moved (session.added at_ answered new.1 new.2) next

end Writing

theorem taskHolds_next {part : TaskPhase × (ℤ → Option OptionBar1m)} {added : Counts}
    (holds : TaskHolds answers table cid resolved part added) {effect : TaskEffect}
    (next : effect = processOne cid resolved answers (fun time => (part.2 time).isSome) part.1)
    (going : part.1 ≠ .finished) :
    TaskHolds answers table cid resolved (partAfter effect part.2) (added + TaskEffect.counts effect) := by
  obtain ⟨phase, rows⟩ := part
  cases phase with
  | waiting =>
    obtain ⟨rfl, rfl⟩ := holds
    subst next
    exact ⟨rfl, rfl⟩
  | requesting =>
    obtain ⟨rfl, rfl⟩ := holds
    rw [processOne] at next
    cases given : answers.candles with
    | none =>
      rw [given] at next
      subst next
      exact ⟨rfl, processAlone_raises (raises_request given), rfl⟩
    | some candles =>
      rw [given] at next
      dsimp only at next
      split at next
      · next empty =>
        subst next empty
        exact ⟨rfl, table, processAlone_empty given, rfl⟩
      · next nonempty =>
        subst next
        exact ⟨rfl, rfl, [], given, nonempty, session_start⟩
  | writing rest gets pending =>
    obtain ⟨rfl, rfl, gone, given, nonempty, session⟩ := holds
    cases rest with
    | nil =>
      rw [List.append_nil] at given nonempty
      exact commit_next given nonempty session next
    | cons candle rest => exact writing_next given session next
  | returned written =>
    obtain ⟨rfl, after, outcome, rfl⟩ := holds
    subst next
    rw [TaskHolds, outcome]
    exact ⟨congrArg (fun total : ℕ => ((total, 0, 0, {cid}) : Counts)) (zero_add written), rfl⟩
  | raised =>
    obtain ⟨rfl, outcome, rfl⟩ := holds
    subst next
    rw [TaskHolds, outcome]
    exact ⟨rfl, rfl⟩
  | released =>
    obtain ⟨rfl, rfl⟩ := holds
    subst next
    exact ⟨rfl, rfl⟩
  | finished => exact absurd rfl going

theorem not_finished (taken : s.step job cid = some t) : s.phase cid ≠ .finished := by
  obtain ⟨resolved, -, free, -⟩ := step_some taken
  intro finished
  rw [finished] at free
  cases free

def Follows (job : OptionBackfill) (table : OptionTable) (cid : String) (part : TaskPhase × (ℤ → Option OptionBar1m))
    (added : Counts) : Prop :=
  ∃ resolved, job.candidates.lookup cid = some resolved ∧ TaskHolds (job.answers cid) table cid resolved part added

theorem follows_next (taken : s.step job cid = some t) : ∃ more, counts t = counts s + more ∧
    ∀ added, Follows job table cid (part cid s) added → Follows job table cid (part cid t) (added + more) := by
  have going := not_finished taken
  obtain ⟨resolved, found, -, rfl⟩ := step_some taken
  refine ⟨TaskEffect.counts _, rfl, fun added premise => ?_⟩
  obtain ⟨resolved', found', holds⟩ := premise
  obtain rfl := Option.some.inj (found.symm.trans found')
  rw [part_apply]
  exact ⟨resolved, found, taskHolds_next holds rfl going⟩

theorem step_listed (taken : s.step job cid = some t) : cid ∈ job.candidates.keys.toFinset := by
  obtain ⟨resolved, found, -, -⟩ := step_some taken
  exact List.mem_toFinset.mpr ((Dict.mem_iff _ _).mpr ⟨resolved, found⟩)

theorem tasks_hold {actions : List String}
    (reached : run (BackfillTasks.step job) { table := table } actions = some s) :
    ∃ added : String → Counts,
      (∀ cid ∈ job.candidates.keys.toFinset, Follows job table cid (part cid s) (added cid)) ∧
      counts s = ∑ cid ∈ job.candidates.keys.toFinset, added cid := by
  have starts (cid : String) (listed : cid ∈ job.candidates.keys.toFinset) :
      Follows job table cid (part cid { table := table }) 0 := by
    obtain ⟨resolved, found⟩ := (Dict.mem_iff _ _).mp (List.mem_toFinset.mp listed)
    exact ⟨resolved, found, rfl, rfl⟩
  obtain ⟨added, parts, total⟩ := run_parts part counts (Follows job table) (fun _ _ _ => step_listed)
    (fun _ _ _ _ taken different => part_other taken different) (fun _ _ _ => follows_next) starts reached
  refine ⟨added, parts, ?_⟩
  rw [total]
  exact zero_add _

theorem rows_other {actions : List String}
    (reached : run (BackfillTasks.step job) { table := table } actions = some s) (other : cid ∉ job.candidates) :
    rowsOf s.table cid = rowsOf table cid := by
  have keep (u : BackfillTasks) (i : String) (v : BackfillTasks) (same : rowsOf u.table cid = rowsOf table cid)
      (taken : u.step job i = some v) : rowsOf v.table cid = rowsOf table cid := by
    have different : cid ≠ i := by
      intro here
      subst here
      exact other (List.mem_toFinset.mp (step_listed taken))
    have unchanged := congrArg Prod.snd (part_other taken different)
    exact unchanged.trans same
  exact run_invariant keep rfl reached

theorem blocked_idle {phase : TaskPhase} (stuck : s.blocked job phase = true) : phase.holdsSemaphore = false := by
  cases phase with
  | waiting => rfl
  | finished => rfl
  | _ => cases stuck

theorem all_finished (ended : ∀ cid, s.step job cid = none) (listed : cid ∈ job.candidates) :
    s.phase cid = .finished := by
  have blocked (other : String) (listed : other ∈ job.candidates) : s.blocked job (s.phase other) = true := by
    obtain ⟨resolved, found⟩ := (Dict.mem_iff _ _).mp listed
    have stuck := ended other
    rw [BackfillTasks.step, found, Option.bind_some] at stuck
    by_contra free
    rw [if_neg free] at stuck
    cases stuck
  have idle : s.inFlight job = 0 := by
    rw [BackfillTasks.inFlight, Nat.cast_eq_zero, List.length_eq_zero_iff, List.filter_eq_nil_iff]
    intro other listed holding
    rw [blocked_idle (blocked other listed)] at holding
    cases holding
  have stuck := blocked cid listed
  cases phase : s.phase cid with
  | finished => rfl
  | waiting =>
    rw [phase, BackfillTasks.blocked, decide_eq_true_eq, idle] at stuck
    have least := le_max_left 1 job.contractConcurrency
    omega
  | _ =>
    rw [phase] at stuck
    cases stuck

theorem processAlone_congr (answers : ContractAnswers) (resolved : ResolvedContract) {other : OptionTable}
    (same : rowsOf table cid = rowsOf other cid) :
    writtenBy (processAlone answers cid resolved table) = writtenBy (processAlone answers cid resolved other) ∧
    failedBy (processAlone answers cid resolved table) = failedBy (processAlone answers cid resolved other) ∧
    rowsOf (tableAfter table (processAlone answers cid resolved table)) cid =
      rowsOf (tableAfter other (processAlone answers cid resolved other)) cid := by
  rw [processAlone, processAlone]
  split
  · exact ⟨rfl, rfl, same⟩
  · cases answers.candles with
    | none => exact ⟨rfl, rfl, same⟩
    | some candles =>
      refine ⟨?_, rfl, funext fun time => ?_⟩
      · show (backfillOptionContract cid resolved table candles).2 =
          (backfillOptionContract cid resolved other candles).2
        rw [backfillOptionContract_written, backfillOptionContract_written]
        apply WriteLoop.writeAll_written
        intro time
        have here := congrFun same time
        rw [rowsOf, rowsOf] at here
        rw [← AList.lookup_isSome, ← AList.lookup_isSome, here]
      · show (backfillOptionContract cid resolved table candles).1.lookup (cid, time) =
          (backfillOptionContract cid resolved other candles).1.lookup (cid, time)
        have here := congrFun same time
        rw [rowsOf, rowsOf] at here
        rw [backfillOptionContract_table, backfillOptionContract_table, WriteLoop.writeAll_lookup,
          WriteLoop.writeAll_lookup, here]

theorem processAlone_other {other : String} (different : other ≠ cid) :
    rowsOf (tableAfter table (processAlone answers cid resolved table)) other = rowsOf table other := by
  rw [processAlone]
  split
  · rfl
  · cases answers.candles with
    | none => rfl
    | some candles =>
      funext time
      show (backfillOptionContract cid resolved table candles).1.lookup (other, time) = table.lookup (other, time)
      rw [backfillOptionContract_table, WriteLoop.writeAll_other different]

theorem sequentialOne_eq (job : OptionBackfill) (s : OptionTable × BackfillSummary)
    (entry : String × ResolvedContract) :
    sequentialOne job s entry = (tableAfter s.1 (processAlone (job.answers entry.1) entry.1 entry.2 s.1),
      { s.2 with
        contractsFailed := s.2.contractsFailed + failedBy (processAlone (job.answers entry.1) entry.1 entry.2 s.1)
        optionBarsWritten :=
          s.2.optionBarsWritten + writtenBy (processAlone (job.answers entry.1) entry.1 entry.2 s.1) }) := by
  rw [sequentialOne]
  split
  · next outcome => rw [outcome]; rfl
  · next outcome => rw [outcome]; rfl

structure SequentialHolds (job : OptionBackfill) (table : OptionTable) (order : List (String × ResolvedContract))
    (attempted : ℕ) (s : OptionTable × BackfillSummary) : Prop where
  attempted : s.2.contractsAttempted = attempted
  others : ∀ cid, cid ∉ order.map Prod.fst → rowsOf s.1 cid = rowsOf table cid
  each : ∀ entry ∈ order, rowsOf s.1 entry.1 =
    rowsOf (tableAfter table (processAlone (job.answers entry.1) entry.1 entry.2 table)) entry.1
  failed : s.2.contractsFailed =
    (order.map fun entry => failedBy (processAlone (job.answers entry.1) entry.1 entry.2 table)).sum
  written : s.2.optionBarsWritten =
    (order.map fun entry => writtenBy (processAlone (job.answers entry.1) entry.1 entry.2 table)).sum

theorem sequential_holds (attempted : ℕ) {order : List (String × ResolvedContract)}
    (unique : (order.map Prod.fst).Nodup) :
    SequentialHolds job table order attempted (order.foldl (sequentialOne job) (table, ⟨attempted, 0, 0⟩)) := by
  induction order using List.reverseRecOn with
  | nil =>
    refine ⟨rfl, fun _ _ => rfl, fun _ listed => ?_, rfl, rfl⟩
    cases listed
  | append_singleton order entry ih =>
    rw [List.map_append, List.nodup_append] at unique
    obtain ⟨unique, -, apart⟩ := unique
    have new : entry.1 ∉ order.map Prod.fst := fun listed => apart _ listed _ (by simp) rfl
    obtain ⟨attempts, others, each, failed, written⟩ := ih unique
    rw [List.foldl_append, List.foldl_cons, List.foldl_nil, sequentialOne_eq]
    generalize order.foldl (sequentialOne job) (table, ⟨attempted, 0, 0⟩) = s at *
    obtain ⟨written', failed', rows'⟩ := processAlone_congr (job.answers entry.1) entry.2 (others entry.1 new)
    refine ⟨attempts, fun cid unlisted => ?_, fun earlier listed => ?_, ?_, ?_⟩
    · rw [List.map_append, List.mem_append, not_or] at unlisted
      have different : cid ≠ entry.1 := by simpa using unlisted.2
      exact (processAlone_other different).trans (others cid unlisted.1)
    · rcases List.mem_append.mp listed with before | here
      · have different : earlier.1 ≠ entry.1 := by
          intro same
          exact new (same ▸ List.mem_map_of_mem before)
        exact (processAlone_other different).trans (each earlier before)
      · obtain rfl := List.mem_singleton.mp here
        exact rows'
    · rw [List.map_append, List.sum_append, List.map_singleton, List.sum_singleton, ← failed, ← failed']
    · rw [List.map_append, List.sum_append, List.map_singleton, List.sum_singleton, ← written, ← written']

def phaseSteps (candles : ℕ) : TaskPhase → ℕ
  | .waiting => candles + 5
  | .requesting => candles + 4
  | .writing rest _ _ => rest.length + 3
  | .returned _ => 2
  | .raised => 2
  | .released => 1
  | .finished => 0

def stepsLeft (job : OptionBackfill) (s : BackfillTasks) : ℕ :=
  ∑ cid ∈ job.candidates.keys.toFinset, phaseSteps ((job.answers cid).candles.getD []).length (s.phase cid)

theorem processOne_lowers (cid : String) (resolved : ResolvedContract) (answers : ContractAnswers)
    (stored : ℤ → Bool) {phase : TaskPhase} (going : phase ≠ .finished) :
    phaseSteps (answers.candles.getD []).length (processOne cid resolved answers stored phase).phase <
      phaseSteps (answers.candles.getD []).length phase := by
  fun_cases processOne cid resolved answers stored phase
  all_goals simp_all [phaseSteps]

theorem stepsLeft_lowers (taken : s.step job cid = some t) : stepsLeft job t < stepsLeft job s := by
  have going := not_finished taken
  have member := step_listed taken
  obtain ⟨resolved, -, -, rfl⟩ := step_some taken
  have here := processOne_lowers cid resolved (job.answers cid)
    (fun time => (rowsOf s.table cid time).isSome) going
  apply Finset.sum_lt_sum
  · intro other listed
    rw [apply_phase]
    by_cases same : other = cid
    · subst same
      rw [Function.update_self]
      exact here.le
    · rw [Function.update_of_ne same]
  · refine ⟨cid, member, ?_⟩
    rw [apply_phase, Function.update_self]
    exact here

structure SameResult (job : OptionBackfill) (table : OptionTable) (s : BackfillTasks)
    (alone : OptionTable × BackfillSummary) : Prop where
  rows : ∀ key, s.table.lookup key = alone.1.lookup key
  summary : s.summary job = alone.2
  once : s.requests.Perm job.candidates.keys
  completed : s.completed = job.candidates.keys.length
  failing : ∀ cid, (job.answers cid).raises = true → ∀ time, s.table.lookup (cid, time) = table.lookup (cid, time)

theorem finished_part {added : Counts} (finished : s.phase cid = .finished)
    (listed : job.candidates.lookup cid = some resolved) (follows : Follows job table cid (part cid s) added) :
    added = (writtenBy (processAlone (job.answers cid) cid resolved table),
      failedBy (processAlone (job.answers cid) cid resolved table), 1, {cid}) ∧
      rowsOf s.table cid = rowsOf (tableAfter table (processAlone (job.answers cid) cid resolved table)) cid := by
  obtain ⟨resolved', listed', holds⟩ := follows
  obtain rfl := Option.some.inj (listed.symm.trans listed')
  rw [part, finished] at holds
  exact holds

theorem sum_counts (order : List (String × ResolvedContract)) (written failed : String × ResolvedContract → ℕ) :
    (order.map fun entry => ((written entry, failed entry, 1, {entry.1}) : Counts)).sum =
      ((order.map written).sum, (order.map failed).sum, order.length,
        ((order.map Prod.fst : List String) : Multiset String)) := by
  induction order with
  | nil => rfl
  | cons entry order ih =>
    rw [List.map_cons, List.sum_cons, ih, List.map_cons, List.map_cons, List.map_cons, List.sum_cons, List.sum_cons,
      List.length_cons, add_comm order.length]
    rfl

theorem concurrent_eq_sequential (job : OptionBackfill) (table : OptionTable) (actions : List String)
    (reached : run (BackfillTasks.step job) { table := table } actions = some s) :
    actions.length ≤ stepsLeft job { table := table } ∧
    ((∀ cid, s.step job cid = none) → ∀ order, order.Perm job.candidates.items →
      SameResult job table s (sequential job table order)) := by
  constructor
  · have bounded := run_length_le (fun _ _ _ => stepsLeft_lowers) reached
    omega
  · intro ended order perm
    have keys : (order.map Prod.fst).Perm job.candidates.keys := by
      rw [← Dict.items_keys]
      exact perm.map _
    have unique : (order.map Prod.fst).Nodup := keys.nodup_iff.mpr job.candidates.keys_nodup
    have alone : SequentialHolds job table order order.length (sequential job table order) :=
      sequential_holds _ unique
    obtain ⟨added, parts, total⟩ := tasks_hold reached
    have candidate (entry : String × ResolvedContract) (listed : entry ∈ order) :=
      Dict.mem_items.mp (perm.mem_iff.mp listed)
    have finished (entry : String × ResolvedContract) (listed : entry ∈ order) := by
      have member : entry.1 ∈ job.candidates := (Dict.mem_iff _ _).mpr ⟨_, candidate entry listed⟩
      exact finished_part (all_finished ended member) (candidate entry listed)
        (parts entry.1 (List.mem_toFinset.mpr member))
    have sum : counts s = (order.map fun entry => added entry.1).sum := by
      rw [total, List.sum_toFinset _ job.candidates.keys_nodup, ← (keys.map added).sum_eq, List.map_map]
      rfl
    rw [List.map_congr_left fun entry listed => (finished entry listed).1, sum_counts, ← alone.failed,
      ← alone.written] at sum
    obtain ⟨written, failed, completed, requests⟩ := by simpa only [counts, Prod.mk.injEq] using sum
    have same (cid : String) : rowsOf s.table cid = rowsOf (sequential job table order).1 cid := by
      by_cases listed : cid ∈ order.map Prod.fst
      · obtain ⟨entry, member, rfl⟩ := List.mem_map.mp listed
        exact (finished entry member).2.trans (alone.each entry member).symm
      · have other : cid ∉ job.candidates := fun there => listed (keys.mem_iff.mpr there)
        exact (rows_other reached other).trans (alone.others cid listed).symm
    have length : order.length = job.candidates.keys.length := by
      rw [← keys.length_eq, List.length_map]
    refine ⟨fun key => congrFun (same key.1) key.2, ?_, (Multiset.coe_eq_coe.mp requests).trans keys,
      completed.trans length, fun cid raises time => ?_⟩
    · rw [BackfillTasks.summary, written, failed, ← length, ← alone.attempted]
    · by_cases listed : cid ∈ order.map Prod.fst
      · obtain ⟨entry, member, rfl⟩ := List.mem_map.mp listed
        have rows := (finished entry member).2
        rw [processAlone_raises raises] at rows
        exact congrFun rows time
      · have other : cid ∉ job.candidates := fun there => listed (keys.mem_iff.mpr there)
        exact congrFun (rows_other reached other) time

theorem ended_of_finished (finished : ∀ cid ∈ job.candidates.keys, s.phase cid = .finished) (cid : String) :
    s.step job cid = none := by
  rw [BackfillTasks.step]
  cases found : job.candidates.lookup cid with
  | none => rfl
  | some resolved =>
    rw [Option.bind_some, finished cid ((Dict.mem_iff _ _).mpr ⟨resolved, found⟩)]
    rfl

def twoContracts : OptionBackfill where
  candidates := Dict.assign ∅
    [(".SPY450C", ⟨".SPY450C", "SPY", 20700, 450, .call, none⟩),
      (".SPY450P", ⟨".SPY450P", "SPY", 20700, 450, .put, none⟩)]
  contractConcurrency := 2
  answers contractId := { candles := if contractId = ".SPY450C" then some [{ time := some 60000 }] else none }

def interleaved : List String := [".SPY450C", ".SPY450P", ".SPY450C", ".SPY450P", ".SPY450C", ".SPY450C", ".SPY450P",
  ".SPY450P", ".SPY450C", ".SPY450C"]

/-- The call is written while the request for the put raises; the put is first in the other order. -/
theorem concurrent_eq_sequential_two : ∃ s,
    run (BackfillTasks.step twoContracts) { table := ∅ } interleaved = some s ∧
    SameResult twoContracts ∅ s (sequential twoContracts ∅ twoContracts.candidates.items.reverse) := by
  refine ⟨_, rfl, (concurrent_eq_sequential twoContracts ∅ interleaved rfl).2 (ended_of_finished ?_) _
    (List.reverse_perm _)⟩
  intro cid listed
  have either : cid = ".SPY450P" ∨ cid = ".SPY450C" := by simpa [twoContracts, Dict.assign] using listed
  rcases either with rfl | rfl
  all_goals rfl

end OptionsProof.ConcurrentBackfill
