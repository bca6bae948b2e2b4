import OptionsData.Kit.Tasks
import OptionsData.Ingestion.CandleWriter

namespace OptionsModel

open Kit

/-- How the awaits of one contract end: the request (`none` where it raises), each `session.get` and the commit. -/
structure ContractAnswers where
  candles : Option (List Candle)
  gets : ℕ → Bool := fun _ => true
  commits : Bool := true

inductive TaskPhase where
  | waiting
  | requesting
  | writing (rest : List Candle) (gets : ℕ) (pending : Dict ℤ OptionBar1m)
  | returned (written : ℕ)
  | raised
  | released
  | finished

structure TaskEffect where
  phase : TaskPhase
  committed : Dict ℤ OptionBar1m := ∅
  written : ℕ := 0
  failed : ℕ := 0
  completed : ℕ := 0
  requests : List String := []

/-- `stored` says which times `session.get` finds in the database; a pending row is found there too. -/
def processOne (contractId : String) (resolved : ResolvedContract) (answers : ContractAnswers) (stored : ℤ → Bool) :
    TaskPhase → TaskEffect
  | .waiting => { phase := .requesting, requests := [contractId] }
  | .requesting =>
    match answers.candles with
    | none => { phase := .raised }
    | some candles => if candles = [] then { phase := .returned 0 } else { phase := .writing candles 0 ∅ }
  | .writing [] _ pending =>
    -- a row that someone else has committed meanwhile violates the primary key
    if answers.commits && !pending.keys.any stored then
      { phase := .returned pending.keys.length, committed := pending }
    else { phase := .raised }
  | .writing (candle :: rest) gets pending =>
    match candle.time with
    | none => { phase := .writing rest gets pending }
    | some barTime =>
      if !answers.gets gets then { phase := .raised }
      else if stored barTime || barTime ∈ pending then { phase := .writing rest (gets + 1) pending }
      else { phase := .writing rest (gets + 1) (pending.insert barTime (optionCandleRow resolved candle)) }
  | .returned written => { phase := .released, written := written }
  | .raised => { phase := .released, failed := 1 }
  | .released => { phase := .finished, completed := 1 }
  | .finished => { phase := .finished }

def TaskPhase.holdsSemaphore : TaskPhase → Bool
  | .waiting | .released | .finished => false
  | .requesting | .writing _ _ _ | .returned _ | .raised => true

structure OptionBackfill where
  candidates : Dict String ResolvedContract
  contractConcurrency : ℤ
  answers : String → ContractAnswers

/-- The tasks, the table and what the run has counted; `requests` are the symbols that candles were requested for. -/
structure BackfillTasks where
  table : OptionTable
  phase : String → TaskPhase := fun _ => .waiting
  written : ℕ := 0
  failed : ℕ := 0
  completed : ℕ := 0
  requests : List String := []

def commitRows (table : OptionTable) (contractId : String) (rows : List (ℤ × OptionBar1m)) : OptionTable :=
  rows.foldl (fun table row => table.insert (contractId, row.1) row.2) table

def BackfillTasks.inFlight (job : OptionBackfill) (s : BackfillTasks) : ℤ :=
  (job.candidates.keys.filter fun contractId => (s.phase contractId).holdsSemaphore).length

def BackfillTasks.blocked (job : OptionBackfill) (s : BackfillTasks) : TaskPhase → Bool
  | .waiting => max 1 job.contractConcurrency ≤ s.inFlight job
  | .finished => true
  | _ => false

def BackfillTasks.apply (s : BackfillTasks) (contractId : String) (effect : TaskEffect) : BackfillTasks where
  table := commitRows s.table contractId effect.committed.items
  phase := Function.update s.phase contractId effect.phase
  written := s.written + effect.written
  failed := s.failed + effect.failed
  completed := s.completed + effect.completed
  requests := s.requests ++ effect.requests

def BackfillTasks.step (job : OptionBackfill) (s : BackfillTasks) (contractId : String) : Option BackfillTasks :=
  (job.candidates.lookup contractId).bind fun resolved =>
    if s.blocked job (s.phase contractId) then none
    else some (s.apply contractId (processOne contractId resolved (job.answers contractId)
      (fun barTime => (contractId, barTime) ∈ s.table) (s.phase contractId)))

structure BackfillSummary where
  contractsAttempted : ℕ
  contractsFailed : ℕ := 0
  optionBarsWritten : ℕ := 0
deriving DecidableEq, Repr

def BackfillTasks.summary (job : OptionBackfill) (s : BackfillTasks) : BackfillSummary :=
  ⟨job.candidates.keys.length, s.failed, s.written⟩

def ContractAnswers.raises (answers : ContractAnswers) : Bool :=
  match answers.candles with
  | none => true
  | some candles => candles ≠ [] &&
      !((List.range (candles.filter fun candle => candle.time.isSome).length).all answers.gets && answers.commits)

def processAlone (answers : ContractAnswers) (contractId : String) (resolved : ResolvedContract)
    (table : OptionTable) : Option (OptionTable × ℕ) :=
  if answers.raises then none else answers.candles.map (backfillOptionContract contractId resolved table)

def sequentialOne (job : OptionBackfill) (s : OptionTable × BackfillSummary) (entry : String × ResolvedContract) :
    OptionTable × BackfillSummary :=
  match processAlone (job.answers entry.1) entry.1 entry.2 s.1 with
  | none => (s.1, { s.2 with contractsFailed := s.2.contractsFailed + 1 })
  | some (table, written) => (table, { s.2 with optionBarsWritten := s.2.optionBarsWritten + written })

def sequential (job : OptionBackfill) (table : OptionTable) (order : List (String × ResolvedContract)) :
    OptionTable × BackfillSummary :=
  order.foldl (sequentialOne job) (table, ⟨order.length, 0, 0⟩)

end OptionsModel

namespace OptionsProof.BackfillTasks

open Kit OptionsModel

variable {job : OptionBackfill} {s t : BackfillTasks} {table : OptionTable} {cid : String}
  {resolved : ResolvedContract}

theorem lookup_commitRows (table : OptionTable) (cid : String) {rows : List (ℤ × OptionBar1m)}
    (unique : (rows.map Prod.fst).Nodup) (other : String) (time : ℤ) :
    (commitRows table cid rows).lookup (other, time) =
      if other = cid then (Dict.firstRow rows time).or (table.lookup (cid, time))
      else table.lookup (other, time) := by
  induction rows generalizing table with
  | nil =>
    rw [commitRows, List.foldl_nil]
    split
    · next same => rw [same, Dict.firstRow_nil, Option.none_or]
    · rfl
  | cons row rows ih =>
    rw [List.map_cons, List.nodup_cons] at unique
    rw [commitRows, List.foldl_cons, ← commitRows, ih _ unique.2, Dict.lookup_insert, Dict.lookup_insert,
      Dict.firstRow_cons]
    by_cases same : other = cid
    · subst same
      by_cases here : time = row.1
      · subst here
        simp [Dict.firstRow_eq_none.mpr unique.1]
      · simp [here]
    · simp [same]

def rowsOf (table : OptionTable) (cid : String) (time : ℤ) : Option OptionBar1m := table.lookup (cid, time)

def part (cid : String) (s : BackfillTasks) : TaskPhase × (ℤ → Option OptionBar1m) :=
  (s.phase cid, rowsOf s.table cid)

theorem step_some (taken : s.step job cid = some t) : ∃ resolved, job.candidates.lookup cid = some resolved ∧
    s.blocked job (s.phase cid) = false ∧ t = s.apply cid (processOne cid resolved (job.answers cid)
      (fun time => (rowsOf s.table cid time).isSome) (s.phase cid)) := by
  obtain ⟨resolved, listed, taken⟩ := Option.bind_eq_some_iff.mp taken
  split at taken
  · cases taken
  · next free =>
    refine ⟨resolved, listed, by simpa using free, ?_⟩
    rw [← Option.some.inj taken]
    congr 2
    funext time
    rw [rowsOf, Bool.eq_iff_iff, decide_eq_true_eq, AList.lookup_isSome]

theorem apply_phase (s : BackfillTasks) (cid : String) (effect : TaskEffect) :
    (s.apply cid effect).phase = Function.update s.phase cid effect.phase := rfl

theorem apply_table (s : BackfillTasks) (cid : String) (effect : TaskEffect) :
    (s.apply cid effect).table = commitRows s.table cid effect.committed.items := rfl

theorem part_other (taken : s.step job cid = some t) {other : String} (different : other ≠ cid) :
    part other t = part other s := by
  obtain ⟨resolved, -, -, rfl⟩ := step_some taken
  rw [part, part, apply_phase, apply_table, Function.update_of_ne different]
  congr 1
  funext time
  rw [rowsOf, lookup_commitRows _ _ (Dict.items_nodup _), if_neg different, rowsOf]

theorem part_apply (s : BackfillTasks) (cid : String) (effect : TaskEffect) :
    part cid (s.apply cid effect) =
      (effect.phase, fun time => (effect.committed.lookup time).or (rowsOf s.table cid time)) := by
  rw [part, apply_phase, apply_table, Function.update_self]
  congr 1
  funext time
  rw [rowsOf, lookup_commitRows _ _ (Dict.items_nodup _), if_pos rfl, Dict.firstRow_items, rowsOf]

def timed (candles : List Candle) : ℕ := (candles.filter fun candle => candle.time.isSome).length

structure Session (answers : ContractAnswers) (cid : String) (resolved : ResolvedContract) (table : OptionTable)
    (gone : List Candle) (gets : ℕ) (pending : Dict ℤ OptionBar1m) : Prop where
  rows : ∀ time, (pending.lookup time).or (rowsOf table cid time) =
    rowsOf (WriteLoop.writeAll cid (fun _ => true) (optionCandleRow resolved) table gone).table cid time
  fresh : ∀ time ∈ pending, rowsOf table cid time = none
  written : pending.keys.length =
    (WriteLoop.writeAll cid (fun _ => true) (optionCandleRow resolved) table gone).written
  counted : gets = timed gone
  answered : ∀ n < gets, answers.gets n = true

theorem writeAll_concat (cid : String) (row : Candle → OptionBar1m) (table : OptionTable) (gone : List Candle)
    (candle : Candle) : WriteLoop.writeAll cid (fun _ => true) row table (gone ++ [candle]) =
      WriteLoop.writeOne cid (fun _ => true) row (WriteLoop.writeAll cid (fun _ => true) row table gone) candle := by
  rw [WriteLoop.writeAll, List.foldl_append]
  rfl

section Sessions

variable {answers : ContractAnswers} {gone : List Candle} {gets : ℕ} {pending : Dict ℤ OptionBar1m} {candle : Candle}
  {time : ℤ}

theorem session_start : Session answers cid resolved table [] 0 ∅ where
  rows _ := rfl
  fresh _ there := by cases there
  written := rfl
  counted := rfl
  answered _ before := by cases before

theorem Session.untimed (session : Session answers cid resolved table gone gets pending) (at_ : candle.time = none) :
    Session answers cid resolved table (gone ++ [candle]) gets pending := by
  have same : timed (gone ++ [candle]) = timed gone := by simp [timed, at_]
  obtain ⟨rows, fresh, written, counted, answered⟩ := session
  refine ⟨?_, fresh, ?_, counted.trans same.symm, answered⟩
  all_goals rw [writeAll_concat, WriteLoop.writeOne, at_]
  · exact rows
  · exact written

theorem timed_concat (at_ : candle.time = some time) : timed (gone ++ [candle]) = timed gone + 1 := by
  simp [timed, at_]

theorem answered_next (answered : ∀ n < gets, answers.gets n = true) (answers_ : answers.gets gets = true) :
    ∀ n < gets + 1, answers.gets n = true := by
  intro n before
  rcases Nat.lt_succ_iff_lt_or_eq.mp before with earlier | rfl
  · exact answered n earlier
  · exact answers_

theorem Session.found (session : Session answers cid resolved table gone gets pending)
    (at_ : candle.time = some time) (answers_ : answers.gets gets = true)
    (there : (rowsOf table cid time).isSome ∨ time ∈ pending) :
    Session answers cid resolved table (gone ++ [candle]) (gets + 1) pending := by
  obtain ⟨rows, fresh, written, rfl, answered⟩ := session
  have held : (cid, time) ∈
      (WriteLoop.writeAll cid (fun _ => true) (optionCandleRow resolved) table gone).table := by
    rw [← AList.lookup_isSome]
    show (rowsOf _ cid time).isSome
    rw [← rows, Option.isSome_or, Bool.or_eq_true, AList.lookup_isSome]
    exact there.symm
  refine ⟨?_, fresh, ?_, (timed_concat at_).symm, answered_next answered answers_⟩
  all_goals rw [writeAll_concat, WriteLoop.writeOne, at_]
  all_goals dsimp only
  all_goals rw [if_pos held]
  · exact rows
  · exact written

theorem Session.added (session : Session answers cid resolved table gone gets pending)
    (at_ : candle.time = some time) (answers_ : answers.gets gets = true)
    (unstored : rowsOf table cid time = none) (new : time ∉ pending) :
    Session answers cid resolved table (gone ++ [candle]) (gets + 1)
      (pending.insert time (optionCandleRow resolved candle)) := by
  obtain ⟨rows, fresh, written, rfl, answered⟩ := session
  have absent : (cid, time) ∉
      (WriteLoop.writeAll cid (fun _ => true) (optionCandleRow resolved) table gone).table := by
    rw [← AList.lookup_eq_none]
    show rowsOf _ cid time = none
    rw [← rows, AList.lookup_eq_none.mpr new, unstored]
    rfl
  refine ⟨fun other => ?_, fun other listed => ?_, ?_, (timed_concat at_).symm, answered_next answered answers_⟩
  · rw [writeAll_concat, WriteLoop.writeOne, at_]
    dsimp only
    rw [if_neg absent, Dict.lookup_insert, rowsOf, rowsOf]
    simp only [Bool.not_true, Bool.false_eq_true, if_false]
    rw [Dict.lookup_insert]
    by_cases same : other = time
    · simp [same]
    · simp only [same, if_false, Prod.mk.injEq, and_false]
      exact rows other
  · rcases (Dict.mem_insert _ _ _ _).mp listed with rfl | before
    · exact unstored
    · exact fresh other before
  · rw [writeAll_concat, WriteLoop.writeOne, at_]
    dsimp only
    rw [if_neg absent, AList.keys_insert, List.length_cons, List.erase_of_not_mem new, written]
    simp

end Sessions

end OptionsProof.BackfillTasks
