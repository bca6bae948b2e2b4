import OptionsData.Kit.Run
import OptionsData.Kit.Versions
import OptionsData.Greeks.BackfillJob
import OptionsData.Ingestion.Pipeline
import OptionsData.Ingestion.TradePoller
import OptionsData.Ingestion.OverlappingWriters

namespace OptionsModel

open Kit

variable {ι ρ : Type}

/-- A transaction that inserts bars into one table, at the next statement it has to execute. -/
inductive Insertion (ρ : Type) where
  /-- `insert_ignore`: ON CONFLICT DO NOTHING. -/
  | ignoring (rows : List (BarKey × ρ))
  /-- `session.get`, then `session.add`; a bar without a row is one that the writer refuses. -/
  | checking (offers : List (BarKey × Option ρ)) (added : Option (BarKey × ρ))

/-- What `_backfill_option_contract`, `_backfill_underlying` and `poll_ticker` offer to the table. -/
def candleOffers (pass : Pass ρ) (candles : List Candle) : List (BarKey × Option ρ) :=
  candles.filterMap fun candle => candle.time.map fun time =>
    ((pass.identifier, time), if pass.usable candle then some (pass.row candle) else none)

def tradeOffers (barRows : List (BarKey × TradeBucket)) : List (BarKey × Option UnderlyingBar1m) :=
  barRows.map fun bar => (bar.1, if usableClose bar.2 then some (tradeRow bar.2) else none)

inductive BarTask where
  | optionBars (insertion : Insertion OptionBar1m)
  | underlyingBars (insertion : Insertion UnderlyingBar1m)
  /-- A batch of the Greeks job: its SELECT, the SELECT of the underlying bars, its UPDATEs. -/
  | greeksSelect (job : GreeksBackfillJob) (batchLimit : ℕ) (last : Option (ℤ ×ₗ String)) (cutoff : ℤ)
      (coverage : Dict String (ℤ × ℤ))
  | greeksFetch (job : GreeksBackfillJob) (rows : List OptionRow)
  | greeksUpdate (toUpdate : List GreeksParams)
  | ended

inductive BarTask.Begins : BarTask → Prop
  | liveOptions (tracked : Tracked) (ready : Popped) :
    Begins (.optionBars (.ignoring (optionRows tracked ready)))
  | liveUnderlyings (ready : Popped) : Begins (.underlyingBars (.ignoring (underlyingRows ready)))
  | backfillOptionContract (contractId : String) (resolved : ResolvedContract) (candles : List Candle) :
    Begins (.optionBars (.checking (candleOffers (optionPass contractId resolved) candles) none))
  /-- `_backfill_underlying` and `poll_ticker`. -/
  | backfillUnderlying (ticker : String) (candles : List Candle) :
    Begins (.underlyingBars (.checking (candleOffers (underlyingPass ticker) candles) none))
  | pollTickerTrades (barRows : List (BarKey × TradeBucket)) :
    Begins (.underlyingBars (.checking (tradeOffers barRows) none))
  | greeksBatch (job : GreeksBackfillJob) (batchLimit : ℕ) (last : Option (ℤ ×ₗ String)) (cutoff : ℤ)
      (coverage : Dict String (ℤ × ℤ)) : Begins (.greeksSelect job batchLimit last cutoff coverage)

structure BarDatabase (ι : Type) where
  options : Versions ι BarKey OptionBar1m
  underlyings : Versions ι BarKey UnderlyingBar1m
  task : ι → BarTask

variable [DecidableEq ι]

inductive Inserting (ι ρ : Type) where
  | waits
  | goesOn (store : Versions ι BarKey ρ) (rest : Insertion ρ)
  | commits
  /-- A duplicate key: the statement fails and with it the transaction. -/
  | fails

/-- The pending `session.add` is flushed before the next `session.get` and at the commit. -/
def Insertion.next (store : Versions ι BarKey ρ) (i : ι) : Insertion ρ → Inserting ι ρ
  | .ignoring [] => .commits
  | .ignoring ((key, row) :: rows) =>
    if store.locked i key then .waits
    else if (store.read i key).isSome then .goesOn store (.ignoring rows)
    else .goesOn (store.write i key row) (.ignoring rows)
  | .checking offers (some (key, row)) =>
    if store.locked i key then .waits
    else if (store.read i key).isSome then .fails
    else .goesOn (store.write i key row) (.checking offers none)
  | .checking [] none => .commits
  | .checking ((key, offer) :: offers) none =>
    if (store.read i key).isSome then .goesOn store (.checking offers none)
    else match offer with
      | none => .goesOn store (.checking offers none)
      | some row => .goesOn store (.checking offers (some (key, row)))

namespace BarDatabase

inductive Event (ι : Type) where
  | statement (i : ι)
  /-- A statement, the commit or the task itself fails; the transaction is rolled back. -/
  | failure (i : ι)

def become (s : BarDatabase ι) (i : ι) (task : BarTask) : ι → BarTask := Function.update s.task i task

def abort (s : BarDatabase ι) (i : ι) : BarDatabase ι :=
  ⟨s.options.rollback i, s.underlyings.rollback i, s.become i .ended⟩

def step (s : BarDatabase ι) : Event ι → Option (BarDatabase ι)
  | .failure i => some (s.abort i)
  | .statement i => match s.task i with
    | .optionBars insertion => match insertion.next s.options i with
      | .waits => none
      | .goesOn store rest => some { s with options := store, task := s.become i (.optionBars rest) }
      | .commits => some { s with options := s.options.commit i, task := s.become i .ended }
      | .fails => some (s.abort i)
    | .underlyingBars insertion => match insertion.next s.underlyings i with
      | .waits => none
      | .goesOn store rest => some { s with underlyings := store, task := s.become i (.underlyingBars rest) }
      | .commits => some { s with underlyings := s.underlyings.commit i, task := s.become i .ended }
      | .fails => some (s.abort i)
    | .greeksSelect job batchLimit last cutoff coverage =>
      some { s with task := s.become i (.greeksFetch job
        (GreeksBackfillJob.buildBatchQuery batchLimit last cutoff coverage s.options.committed)) }
    | .greeksFetch job rows =>
      match rows.mapM (job.computeForRow (GreeksBackfillJob.fetchUnderlyings s.underlyings.committed rows)) with
      | none => some (s.abort i)
      | some results => some { s with task := s.become i (.greeksUpdate (results.filterMap Prod.snd)) }
    -- WHERE time = ? AND contract_id = ?: what the row became since it was read is not looked at
    | .greeksUpdate (params :: toUpdate) =>
      if s.options.locked i params.key then none
      else some { s with
        options := (s.options.read i params.key).elim s.options fun row =>
          s.options.write i params.key (params.apply row)
        task := s.become i (.greeksUpdate toUpdate) }
    | .greeksUpdate [] => some { s with options := s.options.commit i, task := s.become i .ended }
    | .ended => none

end BarDatabase

end OptionsModel

namespace OptionsProof.BarWriters

open Kit OptionsModel OptionsModel.BarDatabase

variable {ι : Type} [DecidableEq ι]

def SameBar (row row' : OptionBar1m) : Prop :=
  row' = { row with
    delta := row'.delta, gamma := row'.gamma, theta := row'.theta, vega := row'.vega, rho := row'.rho
    iv := row'.iv, greeksSource := row'.greeksSource }

def Follows (_ : BarKey) (row row' : OptionBar1m) : Prop :=
  SameBar row row' ∧ (row.greeksSource = some .live → row' = row) ∧
    (row.greeksSource ≠ some .live → row'.greeksSource ≠ some .live)

theorem Follows.refl (key : BarKey) (row : OptionBar1m) : Follows key row row := ⟨rfl, fun _ => rfl, id⟩

def Kept (_ : BarKey) (row row' : UnderlyingBar1m) : Prop := row' = row

theorem Kept.refl (key : BarKey) (row : UnderlyingBar1m) : Kept key row row := rfl

theorem SameBar.trans {row row' row'' : OptionBar1m} (first : SameBar row row') (second : SameBar row' row'') :
    SameBar row row'' := by
  unfold SameBar at *
  rw [first] at second
  exact second

theorem Follows.trans {key : BarKey} {row row' row'' : OptionBar1m} (first : Follows key row row')
    (second : Follows key row' row'') : Follows key row row'' := by
  refine ⟨first.1.trans second.1, fun live => ?_, fun other => second.2.2 (first.2.2 other)⟩
  have same := first.2.1 live
  subst same
  exact second.2.1 live

theorem apply_follows {row row' : OptionBar1m} (params : GreeksParams)
    (follows : Follows params.key row row') (other : row.greeksSource ≠ some .live) :
    Follows params.key row (params.apply row') := by
  refine ⟨follows.1.trans rfl, fun live => absurd live other, fun _ => ?_⟩
  show some GreeksSource.computed ≠ some .live
  nofun

/-- The rows that a batch of the Greeks job has read or will update, with the iv it knows or will write. -/
def intents : BarTask → List (BarKey × Option Number)
  | .greeksFetch _ rows => rows.map fun row => (row.1, row.2.iv)
  | .greeksUpdate toUpdate => toUpdate.map fun params => (params.key, some params.iv)
  | _ => []

def Backed (s : BarDatabase ι) (i : ι) (intent : BarKey × Option Number) : Prop :=
  (∃ row, s.options.committed.lookup intent.1 = some row ∧ row.greeksSource = none ∧ intent.2 = row.iv) ∨
    ∃ old ∈ intents (s.task i), old.1 = intent.1 ∧ ∀ x, old.2 = some x → intent.2 = some x

inductive Moves (s : BarDatabase ι) (i : ι) : BarDatabase ι → Prop
  | goesOn (task : BarTask) (backed : ∀ intent ∈ intents task, Backed s i intent) :
      Moves s i { s with task := s.become i task }
  | insertsOption (key : BarKey) (row : OptionBar1m) (task : BarTask)
      (free : s.options.read i key = none) (nothing : intents task = []) :
      Moves s i { s with options := s.options.write i key row, task := s.become i task }
  | updatesOption (params : GreeksParams) (row : OptionBar1m) (rest : List GreeksParams)
      (working : s.task i = .greeksUpdate (params :: rest)) (found : s.options.read i params.key = some row) :
      Moves s i { s with
        options := s.options.write i params.key (params.apply row), task := s.become i (.greeksUpdate rest) }
  | insertsUnderlying (key : BarKey) (row : UnderlyingBar1m) (task : BarTask)
      (free : s.underlyings.read i key = none) (nothing : intents task = []) :
      Moves s i { s with underlyings := s.underlyings.write i key row, task := s.become i task }
  | commitsOptions : Moves s i { s with options := s.options.commit i, task := s.become i .ended }
  | commitsUnderlyings : Moves s i { s with underlyings := s.underlyings.commit i, task := s.become i .ended }
  | aborts : Moves s i (s.abort i)

theorem next_goesOn {ρ : Type} {store store' : Versions ι BarKey ρ} {i : ι} {insertion rest : Insertion ρ}
    (next : insertion.next store i = .goesOn store' rest) :
    store' = store ∨ ∃ key row, store' = store.write i key row ∧ store.read i key = none := by
  unfold Insertion.next at next
  split at next
  · cases next
  · split at next
    · cases next
    · split at next
      · cases next
        exact .inl rfl
      · next unseen =>
        cases next
        exact .inr ⟨_, _, rfl, Option.not_isSome_iff_eq_none.mp unseen⟩
  · split at next
    · cases next
    · split at next
      · cases next
      · next unseen =>
        cases next
        exact .inr ⟨_, _, rfl, Option.not_isSome_iff_eq_none.mp unseen⟩
  · cases next
  · split at next
    · cases next
      exact .inl rfl
    · split at next <;> cases next <;> exact .inl rfl

theorem statement_moves {s t : BarDatabase ι} {i : ι} (taken : step s (.statement i) = some t) : Moves s i t := by
  unfold step at taken
  dsimp only at taken
  split at taken
  · next insertion working =>
    split at taken
    · cases taken
    · next store rest next_ =>
      cases taken
      rcases next_goesOn next_ with rfl | ⟨key, row, rfl, free⟩
      · exact .goesOn _ (by simp [intents])
      · exact .insertsOption key row _ free rfl
    · cases taken
      exact .commitsOptions
    · cases taken
      exact .aborts
  · next insertion working =>
    split at taken
    · cases taken
    · next store rest next_ =>
      cases taken
      rcases next_goesOn next_ with rfl | ⟨key, row, rfl, free⟩
      · exact .goesOn _ (by simp [intents])
      · exact .insertsUnderlying key row _ free rfl
    · cases taken
      exact .commitsUnderlyings
    · cases taken
      exact .aborts
  · cases taken
    refine .goesOn _ fun intent member => .inl ?_
    obtain ⟨⟨key, row⟩, selected, rfl⟩ := List.mem_map.mp member
    obtain ⟨stored, missing⟩ := GreeksBackfillJob.mem_buildBatchQuery selected
    exact ⟨row, stored, missing, rfl⟩
  · next job rows working =>
    split at taken
    · cases taken
      exact .aborts
    · next results computed =>
      cases taken
      refine .goesOn _ fun intent member => .inr ?_
      obtain ⟨params, listed, rfl⟩ := List.mem_map.mp member
      obtain ⟨⟨outcome, _⟩, result, rfl⟩ := List.mem_filterMap.mp listed
      obtain ⟨row, read, produced⟩ := GreeksBackfillJob.mem_of_mapM computed result
      obtain ⟨key, known⟩ := GreeksBackfillJob.computeForRow_params produced
      rw [working]
      exact ⟨_, List.mem_map.mpr ⟨row, read, rfl⟩, key.symm, fun x some_ => congrArg some (known x some_)⟩
  · next params rest working =>
    obtain ⟨-, taken⟩ := Option.ite_none_left_eq_some.mp taken
    cases taken
    cases found : s.options.read i params.key with
    | none =>
      refine .goesOn _ fun intent member => .inr ⟨intent, ?_, rfl, fun _ => id⟩
      rw [working]
      exact List.mem_cons_of_mem _ member
    | some row => exact .updatesOption params row rest working found
  · cases taken
    exact .commitsOptions
  · cases taken

theorem step_moves {s t : BarDatabase ι} {event : Event ι} (taken : step s event = some t) : ∃ i, Moves s i t := by
  cases event with
  | statement i => exact ⟨i, statement_moves taken⟩
  | failure i =>
    cases taken
    exact ⟨i, .aborts⟩

structure Sound (s : BarDatabase ι) : Prop where
  options : s.options.Guards Follows
  underlyings : s.underlyings.Guards Kept
  intended : ∀ i, ∀ intent ∈ intents (s.task i),
    ∃ row, s.options.committed.lookup intent.1 = some row ∧ row.greeksSource ≠ some .live

theorem unread {allowed : BarKey → OptionBar1m → OptionBar1m → Prop} (same : ∀ key row, allowed key row row)
    {store : Versions ι BarKey OptionBar1m} (guards : store.Guards allowed) {i : ι} {key : BarKey}
    (free : store.read i key = none) : store.committed.lookup key = none := by
  by_contra stored
  obtain ⟨row, found⟩ := Option.ne_none_iff_exists'.mp stored
  obtain ⟨seen, read, -⟩ := Versions.read_allowed same guards i found
  rw [free] at read
  cases read

theorem Moves.options {s t : BarDatabase ι} {i : ι} (moves : Moves s i t) (sound : Sound s) :
    Versions.Change Follows s.options i t.options := by
  cases moves with
  | goesOn task backed => exact .none
  | insertsOption key row task free nothing =>
    have absent := unread Follows.refl sound.options free
    exact .write key row fun old stored => by simp [absent] at stored
  | updatesOption params row rest working found =>
    refine .write params.key (params.apply row) fun old stored => ?_
    obtain ⟨seen, read, follows⟩ := Versions.read_allowed Follows.refl sound.options i stored
    rw [found, Option.some_inj] at read
    subst read
    obtain ⟨known, held, other⟩ := sound.intended i (params.key, some params.iv) (by simp [working, intents])
    rw [stored, Option.some_inj] at held
    subst held
    exact apply_follows params follows other
  | insertsUnderlying key row task free nothing => exact .none
  | commitsOptions => exact .commit
  | commitsUnderlyings => exact .none
  | aborts => exact .rollback

theorem Moves.underlyings {s t : BarDatabase ι} {i : ι} (moves : Moves s i t) (sound : Sound s) :
    Versions.Change Kept s.underlyings i t.underlyings := by
  cases moves with
  | insertsUnderlying key row task free nothing =>
    refine .write key row fun old stored => ?_
    obtain ⟨seen, read, -⟩ := Versions.read_allowed Kept.refl sound.underlyings i stored
    rw [free] at read
    cases read
  | commitsUnderlyings => exact .commit
  | aborts => exact .rollback
  | goesOn | insertsOption | updatesOption | commitsOptions => exact .none

theorem Moves.backed {s t : BarDatabase ι} {i j : ι} (moves : Moves s i t) {intent : BarKey × Option Number}
    (member : intent ∈ intents (t.task j)) : Backed s j intent := by
  have before (old : intent ∈ intents (s.task j)) : Backed s j intent := .inr ⟨intent, old, rfl, fun _ => id⟩
  have other (task : BarTask) (different : j ≠ i) (member : intent ∈ intents (s.become i task j)) :
      Backed s j intent := before (by rwa [become, Function.update_of_ne different] at member)
  by_cases same : j = i
  · subst same
    cases moves <;> simp only [abort, become, Function.update_self] at member
    · next task backed => exact backed intent member
    · next key row task free nothing => simp [nothing] at member
    · next params row rest working found =>
      apply before
      rw [working]
      exact List.mem_cons_of_mem _ member
    · next key row task free nothing => simp [nothing] at member
    all_goals simp [intents] at member
  · cases moves <;> exact other _ same member

theorem Sound.step {s t : BarDatabase ι} {i : ι} (sound : Sound s) (moves : Moves s i t) : Sound t where
  options := (moves.options sound).guards sound.options
  underlyings := (moves.underlyings sound).guards sound.underlyings
  intended j intent member := by
    have known : ∃ row, s.options.committed.lookup intent.1 = some row ∧ row.greeksSource ≠ some .live := by
      rcases moves.backed member with ⟨row, stored, missing, -⟩ | ⟨old, earlier, same, -⟩
      · exact ⟨row, stored, by rw [missing]; nofun⟩
      · exact same ▸ sound.intended j old earlier
    rcases known with ⟨row, stored, other⟩
    obtain ⟨row', stored', follows⟩ := (moves.options sound).follows Follows.refl sound.options stored
    exact ⟨row', stored', follows.2.2 other⟩

def KeepsIv (key : BarKey) (x : Number) (k : BarKey) (row row' : OptionBar1m) : Prop :=
  k = key → row.iv = some x → row'.iv = some x

theorem KeepsIv.refl (key : BarKey) (x : Number) (k : BarKey) (row : OptionBar1m) : KeepsIv key x k row row :=
  fun _ known => known

structure IvKept (key : BarKey) (x : Number) (s : BarDatabase ι) : Prop where
  guards : s.options.Guards (KeepsIv key x)
  stored : ∃ row, s.options.committed.lookup key = some row ∧ row.iv = some x
  intended : ∀ i, ∀ intent ∈ intents (s.task i), intent.1 = key → intent.2 = some x

theorem IvKept.step {s t : BarDatabase ι} {i : ι} {key : BarKey} {x : Number} (kept : IvKept key x s)
    (moves : Moves s i t) : IvKept key x t := by
  have change : Versions.Change (KeepsIv key x) s.options i t.options := by
    cases moves with
    | insertsOption k row task free nothing =>
      have absent := unread (KeepsIv.refl key x) kept.guards free
      exact .write k row fun old stored => by simp [absent] at stored
    | updatesOption params row rest working found =>
      refine .write params.key (params.apply row) fun old stored same known => ?_
      exact kept.intended i (params.key, some params.iv) (by simp [working, intents]) same
    | commitsOptions => exact .commit
    | aborts => exact .rollback
    | goesOn | insertsUnderlying | commitsUnderlyings => exact .none
  refine ⟨change.guards kept.guards, ?_, fun j intent member same => ?_⟩
  · obtain ⟨row, stored, known⟩ := kept.stored
    obtain ⟨row', stored', follows⟩ := change.follows (KeepsIv.refl key x) kept.guards stored
    exact ⟨row', stored', follows rfl known⟩
  · rcases moves.backed member with ⟨row, held, -, iv⟩ | ⟨old, earlier, equal, known⟩
    · obtain ⟨row', stored, has⟩ := kept.stored
      rw [same, stored, Option.some_inj] at held
      subst held
      exact iv.trans has
    · exact known x (kept.intended j old earlier (equal.trans same))

theorem Moves.appears {s t : BarDatabase ι} {i : ι} {key : BarKey} {row : OptionBar1m} {x : Number}
    (moves : Moves s i t) (sound : Sound s) (absent : s.options.committed.lookup key = none)
    (stored : t.options.committed.lookup key = some row) (known : row.iv = some x) : IvKept key x t := by
  have unknown (j : ι) (intent : BarKey × Option Number) (member : intent ∈ intents (t.task j))
      (same : intent.1 = key) : False := by
    rcases moves.backed member with ⟨old, held, -⟩ | ⟨old, earlier, equal, -⟩
    · rw [same, absent] at held
      cases held
    · obtain ⟨held, found, -⟩ := sound.intended j old earlier
      rw [equal, same, absent] at found
      cases found
  refine ⟨?_, ⟨row, stored, known⟩, fun j intent member same => (unknown j intent member same).elim⟩
  intro k owner version found old held same
  subst same
  cases moves with
  | commitsOptions =>
    obtain ⟨pending, other⟩ := Versions.lookup_others.mp found
    rw [Versions.lookup_commit, Versions.read_of_other pending other, absent] at stored
    cases stored
  | goesOn | insertsOption | updatesOption | insertsUnderlying | commitsUnderlyings | aborts =>
    exact absurd (absent.symm.trans stored) nofun

structure Fresh (s : BarDatabase ι) : Prop where
  options : s.options.pending = ∅
  underlyings : s.underlyings.pending = ∅
  begins : ∀ i, (s.task i).Begins

omit [DecidableEq ι] in
theorem Fresh.unread {s : BarDatabase ι} (fresh : Fresh s) (i : ι) : intents (s.task i) = [] := by
  have begins := fresh.begins i
  generalize s.task i = task at begins
  cases begins <;> rfl

omit [DecidableEq ι] in
theorem Fresh.sound {s : BarDatabase ι} (fresh : Fresh s) : Sound s where
  options key owner row found := by simp [fresh.options] at found
  underlyings key owner row found := by simp [fresh.underlyings] at found
  intended i intent member := by simp [fresh.unread i] at member

omit [DecidableEq ι] in
theorem Fresh.ivKept {s : BarDatabase ι} (fresh : Fresh s) {key : BarKey} {row : OptionBar1m} {x : Number}
    (stored : s.options.committed.lookup key = some row) (known : row.iv = some x) : IvKept key x s where
  guards k owner version found := by simp [fresh.options] at found
  stored := ⟨row, stored, known⟩
  intended i intent member := by simp [fresh.unread i] at member

def Appears (start : BarDatabase ι) (past : List (Event ι)) (key : BarKey) : Prop :=
  past = [] ∨ ∃ before event s, past = before ++ [event] ∧ run step start before = some s ∧
    s.options.committed.lookup key = none

theorem run_sound {s t : BarDatabase ι} {events : List (Event ι)} (sound : Sound s)
    (reached : run step s events = some t) : Sound t := by
  have keep (u : BarDatabase ι) (event : Event ι) (v : BarDatabase ι) (sound : Sound u)
      (taken : step u event = some v) : Sound v :=
    let ⟨_, moves⟩ := step_moves taken
    sound.step moves
  exact run_invariant keep sound reached

theorem run_follows {s t : BarDatabase ι} {events : List (Event ι)} (sound : Sound s)
    (reached : run step s events = some t) {key : BarKey} {row : OptionBar1m}
    (stored : s.options.committed.lookup key = some row) :
    ∃ row', t.options.committed.lookup key = some row' ∧ Follows key row row' := by
  have keep (u : BarDatabase ι) (event : Event ι) (v : BarDatabase ι)
      (holds : Sound u ∧ ∃ row', u.options.committed.lookup key = some row' ∧ Follows key row row')
      (taken : step u event = some v) :
      Sound v ∧ ∃ row', v.options.committed.lookup key = some row' ∧ Follows key row row' := by
    obtain ⟨i, moves⟩ := step_moves taken
    obtain ⟨sound, row', stored, follows⟩ := holds
    obtain ⟨row'', stored', follows'⟩ := (moves.options sound).follows Follows.refl sound.options stored
    exact ⟨sound.step moves, row'', stored', follows.trans follows'⟩
  exact (run_invariant keep ⟨sound, row, stored, Follows.refl key row⟩ reached).2

theorem run_underlying {s t : BarDatabase ι} {events : List (Event ι)} (sound : Sound s)
    (reached : run step s events = some t) {key : BarKey} {row : UnderlyingBar1m}
    (stored : s.underlyings.committed.lookup key = some row) : t.underlyings.committed.lookup key = some row := by
  have keep (u : BarDatabase ι) (event : Event ι) (v : BarDatabase ι)
      (holds : Sound u ∧ u.underlyings.committed.lookup key = some row) (taken : step u event = some v) :
      Sound v ∧ v.underlyings.committed.lookup key = some row := by
    obtain ⟨i, moves⟩ := step_moves taken
    obtain ⟨row', stored', same⟩ := (moves.underlyings holds.1).follows Kept.refl holds.1.underlyings holds.2
    exact ⟨holds.1.step moves, same ▸ stored'⟩
  exact (run_invariant keep ⟨sound, stored⟩ reached).2

theorem ivKept_of_appears {start s : BarDatabase ι} {past : List (Event ι)} (fresh : Fresh start)
    (reached : run step start past = some s) {key : BarKey} (appears : Appears start past key)
    {row : OptionBar1m} {x : Number} (stored : s.options.committed.lookup key = some row)
    (known : row.iv = some x) : IvKept key x s := by
  rcases appears with rfl | ⟨before, event, u, rfl, earlier, absent⟩
  · cases reached
    exact fresh.ivKept stored known
  · obtain ⟨u', earlier', last⟩ := run_concat_some.mp reached
    rw [earlier] at earlier'
    cases earlier'
    obtain ⟨i, moves⟩ := step_moves last
    exact moves.appears (run_sound fresh.sound earlier) absent stored known

theorem run_iv {s t : BarDatabase ι} {events : List (Event ι)} {key : BarKey} {x : Number} (kept : IvKept key x s)
    (reached : run step s events = some t) : IvKept key x t := by
  have keep (u : BarDatabase ι) (event : Event ι) (v : BarDatabase ι) (kept : IvKept key x u)
      (taken : step u event = some v) : IvKept key x v :=
    let ⟨_, moves⟩ := step_moves taken
    kept.step moves
  exact run_invariant keep kept reached

/-- First writer wins, at any two points of a run of all the writers. -/
theorem first_writer_wins {start s t : BarDatabase ι} {past rest : List (Event ι)} (fresh : Fresh start)
    (reached : run step start past = some s) (later : run step s rest = some t) :
    (∀ key row, s.options.committed.lookup key = some row →
      ∃ row', t.options.committed.lookup key = some row' ∧ SameBar row row' ∧
        (row.greeksSource = some .live → row' = row) ∧
        (Appears start past key → ∀ x, row.iv = some x → row'.iv = some x)) ∧
    (∀ key row, s.underlyings.committed.lookup key = some row → t.underlyings.committed.lookup key = some row) ∧
    (t.options.committed.items.map Prod.fst).Nodup ∧ (t.underlyings.committed.items.map Prod.fst).Nodup := by
  have sound := run_sound fresh.sound reached
  refine ⟨fun key row stored => ?_, fun key row stored => run_underlying sound later stored,
    Dict.items_nodup _, Dict.items_nodup _⟩
  obtain ⟨row', stored', same, live, -⟩ := run_follows sound later stored
  refine ⟨row', stored', same, live, fun appears x known => ?_⟩
  obtain ⟨final, found, iv⟩ := (run_iv (ivKept_of_appears fresh reached appears stored known) later).stored
  rw [stored', Option.some_inj] at found
  exact found ▸ iv

def sampleContract : ResolvedContract where
  contractId := "SPY_C450"
  underlyingTicker := "SPY"
  expirationDate := 1
  strike := 450
  right := .call
  settlementType := none

def flatJob : GreeksBackfillJob where
  pricing := ⟨fun date => date * 86400000,
    fun _ _ _ _ _ _ _ => some (some ⟨.val 1, .val 1, .val 1, .val 1, .val 1, .val 1⟩)⟩
  riskFreeRate := .val 0

def gapCandle : Candle := { time := some 0, close := some (.val 5), impVolatility := some (.val (3 / 10)) }

def threeWriters : BarDatabase (Fin 3) where
  options := { committed := ∅ }
  underlyings := { committed := (∅ : UnderlyingTable).insert ("SPY", 0) { close := some (.val 452) } }
  task := ![.optionBars (.checking (candleOffers (optionPass "SPY_C450" sampleContract) [gapCandle]) none),
    .greeksSelect flatJob 2000 none 0 ∅,
    .optionBars (.ignoring (optionRows ((∅ : Tracked).insert "SPY_C450" sampleContract)
      [(("SPY_C450", 0), { close := some (.val 6) })]))]

def othersAfter : List (Event (Fin 3)) := ([1, 1, 2, 1, 1, 2] : List (Fin 3)).map .statement

theorem first_writer_wins_backfilled :
    ∃ s t row', run step threeWriters [.statement 0, .statement 0, .statement 0] = some s ∧
      run step s othersAfter = some t ∧ t.options.committed.lookup ("SPY_C450", 0) = some row' ∧
      SameBar (optionCandleRow sampleContract gapCandle) row' ∧ row'.iv = some (.val (3 / 10)) := by
  have fresh : Fresh threeWriters := by
    refine ⟨rfl, rfl, fun i => ?_⟩
    fin_cases i
    · exact .backfillOptionContract _ _ _
    · exact .greeksBatch _ _ _ _ _
    · exact .liveOptions _ _
  obtain ⟨s, reached⟩ : ∃ s, run step threeWriters [.statement 0, .statement 0, .statement 0] = some s :=
    Option.isSome_iff_exists.mp (by decide +kernel)
  have goesOn : ((run step threeWriters [.statement 0, .statement 0, .statement 0]).bind fun s =>
      run step s othersAfter).isSome := by decide +kernel
  have stored : (run step threeWriters [.statement 0, .statement 0, .statement 0]).bind (fun s =>
      s.options.committed.lookup ("SPY_C450", 0)) = some (optionCandleRow sampleContract gapCandle) := by
    decide +kernel
  have absent : (run step threeWriters [.statement 0, .statement 0]).map (fun s =>
      s.options.committed.lookup ("SPY_C450", 0)) = some none := by decide +kernel
  rw [reached, Option.bind_some] at goesOn stored
  obtain ⟨t, later⟩ := Option.isSome_iff_exists.mp goesOn
  obtain ⟨u, earlier, missing⟩ := Option.map_eq_some_iff.mp absent
  obtain ⟨row', found, same, -, iv⟩ := (first_writer_wins fresh reached later).1 _ _ stored
  exact ⟨s, t, row', reached, later, found, same,
    iv (.inr ⟨[.statement 0, .statement 0], .statement 0, u, rfl, earlier, missing⟩) _ (by decide +kernel)⟩

end OptionsProof.BarWriters
