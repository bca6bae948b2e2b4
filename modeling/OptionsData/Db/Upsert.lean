import OptionsData.Kit.Dict
import OptionsData.Sources.AsyncUtils

namespace OptionsModel

open Kit

variable {ν : Type}

inductive Dialect where
  | postgresql
  | sqlite
  | other (name : String)

abbrev RowValues (ν : Type) := Dict String ν

abbrev KeyedTable (ν : Type) := Dict (List (Option ν)) (RowValues ν)

def keyOf (primaryKey : List String) (row : RowValues ν) : List (Option ν) := primaryKey.map row.lookup

structure InsertStatement (ν : Type) where
  rows : List (RowValues ν)
  onConflictDoNothing : Bool

def InsertStatement.parameters (statement : InsertStatement ν) : ℕ :=
  (statement.rows.map fun row => row.keys.length).sum

def MAX_BIND_PARAMS : ℕ := 30000

def batchSize (first : RowValues ν) : ℕ := max 1 (MAX_BIND_PARAMS / max 1 first.keys.length)

def conflictTolerant : Dialect → Bool
  | .postgresql => true
  | .sqlite => true
  | .other _ => false

def insertStatements (dialect : Dialect) (rows : List (RowValues ν)) : List (InsertStatement ν) :=
  match rows with
  | [] => []
  | first :: _ =>
    if conflictTolerant dialect then (chunked rows (batchSize first)).map fun batch => ⟨batch, true⟩
    else rows.map fun row => ⟨[row], false⟩

structure Transaction (ν : Type) where
  committed : KeyedTable ν
  seen : KeyedTable ν

def Transaction.commit (tx : Transaction ν) : Transaction ν := { tx with committed := tx.seen }

def Transaction.rollback (tx : Transaction ν) : Transaction ν := { tx with seen := tx.committed }

variable [DecidableEq ν]

def insertPlain (primaryKey : List String) (table : KeyedTable ν) (row : RowValues ν) : Option (KeyedTable ν) :=
  if keyOf primaryKey row ∈ table then none else some (table.insert (keyOf primaryKey row) row)

/-- What the statement leaves of the table; a plain INSERT of a key that is taken raises. -/
def InsertStatement.execute (primaryKey : List String) (statement : InsertStatement ν) (table : KeyedTable ν) :
    Option (KeyedTable ν) :=
  if statement.onConflictDoNothing then
    some (table.insertAll (statement.rows.map fun row => (keyOf primaryKey row, row)))
  else statement.rows.foldlM (insertPlain primaryKey) table

/-- `outcome` is how the driver and the database answer each `session.execute`. -/
def executeAll (primaryKey : List String) (outcome : ℕ → Await) :
    List (InsertStatement ν) → Transaction ν → Transaction ν × Ended
  | [], tx => (tx, .returned)
  | statement :: rest, tx =>
    match outcome 0, statement.execute primaryKey tx.seen with
    | .returns, some seen => executeAll primaryKey (fun i => outcome (i + 1)) rest { tx with seen }
    | _, _ => (tx, .raised)

def insertIgnore (primaryKey : List String) (dialect : Dialect) (rows : List (RowValues ν)) (outcome : ℕ → Await)
    (tx : Transaction ν) : Transaction ν × Ended :=
  executeAll primaryKey outcome (insertStatements dialect rows) tx

/-- The caller's transaction: its commit if `insert_ignore` returns, else the rollback as the session is closed. -/
def insertRows (primaryKey : List String) (dialect : Dialect) (rows : List (RowValues ν)) (outcome : ℕ → Await)
    (table : KeyedTable ν) : Transaction ν × Ended :=
  match insertIgnore primaryKey dialect rows outcome ⟨table, table⟩ with
  | (tx, .returned) => (tx.commit, .returned)
  | (tx, .raised) => (tx.rollback, .raised)

end OptionsModel

namespace OptionsProof.Upsert

open Kit OptionsModel

variable {ν : Type} {primaryKey : List String} {dialect : Dialect} {rows : List (RowValues ν)}

def SameShaped (rows : List (RowValues ν)) : Prop := ∀ row ∈ rows, ∀ other ∈ rows, row.keys.Perm other.keys

theorem statements_complete (dialect : Dialect) (rows : List (RowValues ν)) :
    (insertStatements dialect rows).flatMap InsertStatement.rows = rows := by
  cases rows with
  | nil => rfl
  | cons first rest =>
    simp only [insertStatements]
    split
    · rw [List.flatMap_map, List.flatMap_id', flatten_chunked]
      exact Nat.le_max_left 1 _
    · rw [List.flatMap_map]
      exact List.flatMap_singleton' _

theorem parameters_le {statement : InsertStatement ν} {width : ℕ}
    (wide : ∀ row ∈ statement.rows, row.keys.length ≤ width) :
    statement.parameters ≤ statement.rows.length * width := by
  rw [InsertStatement.parameters, ← List.length_map (fun row : RowValues ν => row.keys.length), ← smul_eq_mul]
  apply List.sum_le_card_nsmul
  intro count listed
  obtain ⟨row, member, rfl⟩ := List.mem_map.mp listed
  exact wide row member

theorem batch_parameters {first : RowValues ν} (narrow : first.keys.length ≤ MAX_BIND_PARAMS) :
    batchSize first * first.keys.length ≤ MAX_BIND_PARAMS := by
  rw [batchSize]
  rcases Nat.eq_zero_or_pos first.keys.length with none | positive
  · rw [none, Nat.mul_zero]
    exact Nat.zero_le _
  · have width : max 1 first.keys.length = first.keys.length := max_eq_right positive
    rw [width, max_eq_right (Nat.div_pos narrow positive)]
    exact Nat.div_mul_le_self _ _

theorem statements_capped (shaped : SameShaped rows) (narrow : ∀ row ∈ rows, row.keys.length ≤ MAX_BIND_PARAMS)
    {statement : InsertStatement ν} (listed : statement ∈ insertStatements dialect rows) :
    statement.parameters ≤ MAX_BIND_PARAMS := by
  have own (row : RowValues ν) (member : row ∈ statement.rows) : row ∈ rows := by
    rw [← statements_complete dialect rows]
    exact List.mem_flatMap.mpr ⟨statement, listed, member⟩
  cases rows with
  | nil => cases listed
  | cons first rest =>
    simp only [insertStatements] at listed
    split at listed
    · obtain ⟨batch, chunk, rfl⟩ := List.mem_map.mp listed
      have wide (row : RowValues ν) (member : row ∈ batch) : row.keys.length ≤ first.keys.length :=
        (shaped row (own row member) first List.mem_cons_self).length_eq.le
      calc InsertStatement.parameters ⟨batch, true⟩
          ≤ batch.length * first.keys.length := parameters_le wide
        _ ≤ batchSize first * first.keys.length := Nat.mul_le_mul_right _ (length_le_of_mem_chunked chunk)
        _ ≤ MAX_BIND_PARAMS := batch_parameters (narrow first List.mem_cons_self)
    · obtain ⟨row, member, rfl⟩ := List.mem_map.mp listed
      simpa [InsertStatement.parameters] using narrow row member

variable [DecidableEq ν] {outcome : ℕ → Await} {table : KeyedTable ν}

def insertEach (primaryKey : List String) (table : KeyedTable ν) (rows : List (RowValues ν)) : KeyedTable ν :=
  rows.foldl (fun table row => table.insertNew (keyOf primaryKey row) row) table

def firstWith (primaryKey : List String) (rows : List (RowValues ν)) (k : List (Option ν)) : Option (RowValues ν) :=
  rows.find? fun row => keyOf primaryKey row = k

structure ChunkTransparent (primaryKey : List String) (dialect : Dialect) (rows : List (RowValues ν))
    (table : KeyedTable ν) : Prop where
  capped : ∀ statement ∈ insertStatements dialect rows, statement.parameters ≤ MAX_BIND_PARAMS
  complete : (insertStatements dialect rows).flatMap InsertStatement.rows = rows
  inserted : ∀ outcome tx, insertRows primaryKey dialect rows outcome table = (tx, .returned) →
    tx.committed = insertEach primaryKey table rows
  failed : ∀ outcome tx, insertRows primaryKey dialect rows outcome table = (tx, .raised) →
    tx = ⟨table, table⟩
  kept : ∀ k row, table.lookup k = some row → (insertEach primaryKey table rows).lookup k = some row
  first : ∀ k, table.lookup k = none →
    (insertEach primaryKey table rows).lookup k = firstWith primaryKey rows k
  tolerant : conflictTolerant dialect = true → ∀ outcome, (∀ i, outcome i = Await.returns) →
    (insertRows primaryKey dialect rows outcome table).2 = .returned

theorem insertEach_eq (primaryKey : List String) (table : KeyedTable ν) (rows : List (RowValues ν)) :
    insertEach primaryKey table rows = table.insertAll (rows.map fun row => (keyOf primaryKey row, row)) := by
  rw [insertEach, Dict.insertAll, List.foldl_map]

theorem insertEach_append (primaryKey : List String) (table : KeyedTable ν) (rows later : List (RowValues ν)) :
    insertEach primaryKey table (rows ++ later) = insertEach primaryKey (insertEach primaryKey table rows) later :=
  List.foldl_append

theorem lookup_insertEach (k : List (Option ν)) : (insertEach primaryKey table rows).lookup k =
    (table.lookup k).or (firstWith primaryKey rows k) := by
  rw [insertEach_eq, Dict.lookup_insertAll]
  congr 1
  rw [Dict.firstRow, List.find?_map, Option.map_map, firstWith]
  exact congrFun Option.map_id _

theorem insertPlain_some {row : RowValues ν} {t : KeyedTable ν}
    (inserted : insertPlain primaryKey table row = some t) :
    t = table.insertNew (keyOf primaryKey row) row := by
  rw [insertPlain] at inserted
  split at inserted
  · cases inserted
  · next absent =>
    cases inserted
    exact (if_neg absent).symm

theorem execute_some {statement : InsertStatement ν} {t : KeyedTable ν}
    (executed : statement.execute primaryKey table = some t) : t = insertEach primaryKey table statement.rows := by
  rw [InsertStatement.execute] at executed
  split at executed
  · rw [insertEach_eq]
    exact (Option.some.inj executed).symm
  · generalize statement.rows = rows at executed
    induction rows generalizing table with
    | nil => exact (Option.some.inj executed).symm
    | cons row rows ih =>
      rw [List.foldlM_cons] at executed
      obtain ⟨u, first, rest⟩ := Option.bind_eq_some_iff.mp executed
      rw [ih rest, insertPlain_some first]
      rfl

theorem executeAll_committed (statements : List (InsertStatement ν)) (outcome : ℕ → Await) (tx : Transaction ν) :
    (executeAll primaryKey outcome statements tx).1.committed = tx.committed := by
  induction statements generalizing outcome tx with
  | nil => rfl
  | cons statement rest ih =>
    rw [executeAll]
    split
    · rw [ih]
    · rfl

theorem executeAll_returned {statements : List (InsertStatement ν)} {tx tx' : Transaction ν}
    (ran : executeAll primaryKey outcome statements tx = (tx', .returned)) :
    tx'.seen = insertEach primaryKey tx.seen (statements.flatMap InsertStatement.rows) := by
  induction statements generalizing outcome tx with
  | nil =>
    cases ran
    rfl
  | cons statement rest ih =>
    rw [executeAll] at ran
    split at ran
    · next seen _ executed =>
      rw [ih ran, List.flatMap_cons, insertEach_append, ← execute_some executed]
    · cases ran

theorem executeAll_tolerant {statements : List (InsertStatement ν)}
    (tolerant : ∀ statement ∈ statements, statement.onConflictDoNothing = true)
    (returns : ∀ i, outcome i = .returns) (tx : Transaction ν) :
    (executeAll primaryKey outcome statements tx).2 = .returned := by
  induction statements generalizing outcome tx with
  | nil => rfl
  | cons statement rest ih =>
    have executed : statement.execute primaryKey tx.seen = some _ := if_pos (tolerant statement List.mem_cons_self)
    rw [executeAll, returns 0, executed]
    exact ih (fun later listed => tolerant later (List.mem_cons_of_mem _ listed)) (fun i => returns (i + 1)) _

theorem insertRows_returned {tx : Transaction ν}
    (ran : insertRows primaryKey dialect rows outcome table = (tx, .returned)) :
    tx.committed = insertEach primaryKey table rows := by
  rw [insertRows] at ran
  split at ran
  · next u finished =>
    cases ran
    have seen := executeAll_returned finished
    rwa [statements_complete] at seen
  · cases ran

theorem insertRows_raised {tx : Transaction ν}
    (ran : insertRows primaryKey dialect rows outcome table = (tx, .raised)) : tx = ⟨table, table⟩ := by
  rw [insertRows] at ran
  split at ran
  · cases ran
  · next u stopped =>
    cases ran
    have unchanged : (insertIgnore primaryKey dialect rows outcome ⟨table, table⟩).1.committed = table :=
      executeAll_committed (insertStatements dialect rows) outcome ⟨table, table⟩
    rw [stopped] at unchanged
    obtain ⟨committed, seen⟩ := u
    obtain rfl := unchanged
    rfl

theorem insertRows_tolerant (tolerant : conflictTolerant dialect = true) (returns : ∀ i, outcome i = .returns) :
    (insertRows primaryKey dialect rows outcome table).2 = .returned := by
  have all : ∀ statement ∈ insertStatements dialect rows, statement.onConflictDoNothing = true := by
    intro statement listed
    cases rows with
    | nil => cases listed
    | cons first rest =>
      simp only [insertStatements, if_pos tolerant] at listed
      obtain ⟨batch, -, rfl⟩ := List.mem_map.mp listed
      rfl
  have finished : (insertIgnore primaryKey dialect rows outcome ⟨table, table⟩).2 = .returned :=
    executeAll_tolerant all returns _
  rw [insertRows]
  split
  · rfl
  · next u stopped =>
    rw [stopped] at finished
    cases finished

theorem insertIgnore_chunkTransparent (primaryKey : List String) (dialect : Dialect) (table : KeyedTable ν)
    (shaped : SameShaped rows) (narrow : ∀ row ∈ rows, row.keys.length ≤ MAX_BIND_PARAMS) :
    ChunkTransparent primaryKey dialect rows table where
  capped _ listed := statements_capped shaped narrow listed
  complete := statements_complete dialect rows
  inserted _ _ := insertRows_returned
  failed _ _ := insertRows_raised
  kept k row stored := by rw [lookup_insertEach, stored, Option.some_or]
  first k absent := by rw [lookup_insertEach, absent, Option.none_or]
  tolerant tolerant _ := insertRows_tolerant tolerant

def barValues (time close : ℕ) : RowValues ℕ :=
  ⟨[⟨"time", time⟩, ⟨"close", close⟩], by simp [List.NodupKeys, List.keys]⟩

/-- The last row has the key of the first and goes into a second statement. -/
def twoChunks : List (RowValues ℕ) :=
  barValues 0 10 :: ((List.range 14999).map (fun i => barValues (i + 1) 20) ++ [barValues 0 30])

theorem twoChunks_keys : ∀ row ∈ twoChunks, row.keys = ["time", "close"] := by
  intro row member
  rcases List.mem_cons.mp member with rfl | rest
  · rfl
  · rcases List.mem_append.mp rest with inner | last
    · obtain ⟨i, -, rfl⟩ := List.mem_map.mp inner
      rfl
    · rw [List.mem_singleton.mp last]
      rfl

theorem insertIgnore_chunkTransparent_at :
    (insertStatements .sqlite twoChunks).length = 2 ∧
      twoChunks.getLast?.map (keyOf ["time"]) = some (keyOf ["time"] (barValues 0 10)) ∧
      ChunkTransparent ["time"] .sqlite twoChunks ∅ := by
  have width : batchSize (barValues 0 10) = 15000 := by decide +kernel
  refine ⟨?_, ?_, insertIgnore_chunkTransparent _ _ _ (fun row member other member' => ?_) fun row member => ?_⟩
  · simp only [twoChunks, insertStatements, conflictTolerant, if_true, width, chunked]
    simp
  · rw [twoChunks, ← List.cons_append, List.getLast?_concat]
    rfl
  · rw [twoChunks_keys row member, twoChunks_keys other member']
  · rw [twoChunks_keys row member]
    decide

end OptionsProof.Upsert
