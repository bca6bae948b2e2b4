import OptionsData.Ingestion.CandleWriter

namespace OptionsModel

open Kit

variable {ρ : Type*}

structure PassCounts where
  written : ℕ := 0
  skipped : ℕ := 0
  skippedInvalid : ℕ := 0
  skippedNoTime : ℕ := 0
deriving DecidableEq, Repr

/-- Whether each `session.get` and the commit go through. -/
structure PassAnswers where
  gets : ℕ → Bool := fun _ => true
  commits : Bool := true

/-- The session of a write loop: the table as its transaction sees it, and the rows that `session.add` holds back. -/
structure PassSession (ρ : Type*) where
  seen : Dict BarKey ρ
  pending : List (BarKey × ρ) := []
  gets : ℕ := 0
  counts : PassCounts := {}

def flushRow (seen : Dict BarKey ρ) (added : BarKey × ρ) : Option (Dict BarKey ρ) :=
  if added.1 ∈ seen then none else some (seen.insert added.1 added.2)

/-- The INSERTs of the pending rows; one whose key is taken raises. -/
def PassSession.flush (s : PassSession ρ) : Option (PassSession ρ) :=
  (s.pending.foldlM flushRow s.seen).map fun seen => { s with seen := seen, pending := [] }

/-- `session.get` flushes first. -/
def PassSession.writeCandle (identifier : String) (usable : Candle → Bool) (row : Candle → ρ) (answers : PassAnswers)
    (s : PassSession ρ) (candle : Candle) : Option (PassSession ρ) :=
  match candle.time with
  | none => some { s with counts := { s.counts with skippedNoTime := s.counts.skippedNoTime + 1 } }
  | some barTime =>
    if !answers.gets s.gets then none
    else s.flush.map fun flushed =>
      let s := { flushed with gets := flushed.gets + 1 }
      if (identifier, barTime) ∈ s.seen then { s with counts := { s.counts with skipped := s.counts.skipped + 1 } }
      else if !usable candle then
        { s with counts := { s.counts with skippedInvalid := s.counts.skippedInvalid + 1 } }
      else { s with
        pending := s.pending ++ [((identifier, barTime), row candle)]
        counts := { s.counts with written := s.counts.written + 1 } }

structure PassResult (ρ : Type*) where
  table : Dict BarKey ρ
  returned : Option PassCounts

def backfillPass (identifier : String) (usable : Candle → Bool) (row : Candle → ρ) (candles : List Candle)
    (answers : PassAnswers) (table : Dict BarKey ρ) : PassResult ρ :=
  if candles = [] then ⟨table, some {}⟩
  else
    match (candles.foldlM (PassSession.writeCandle identifier usable row answers) { seen := table }).bind
      PassSession.flush with
    | none => ⟨table, none⟩
    | some s => if answers.commits then ⟨s.seen, some s.counts⟩ else ⟨table, none⟩

def backfillUnderlyingPass (ticker : String) : List Candle → PassAnswers → UnderlyingTable →
    PassResult UnderlyingBar1m :=
  backfillPass ticker usableCandle underlyingCandleRow

def backfillOptionContractPass (contractId : String) (resolved : ResolvedContract) : List Candle → PassAnswers →
    OptionTable → PassResult OptionBar1m :=
  backfillPass contractId (fun _ => true) (optionCandleRow resolved)

end OptionsModel

namespace OptionsProof.BackfillPass

open Kit OptionsModel OptionsModel.WriteLoop

variable {ρ : Type*} {identifier : String} {usable : Candle → Bool} {row : Candle → ρ} {candles : List Candle}
  {answers : PassAnswers} {table : Dict BarKey ρ} {s t : PassSession ρ} {loop : WriteLoop ρ} {candle : Candle}
  {counts : PassCounts}

/-- A pass adds the first usable candle of each time without a row, counts what it adds, and adds it once. -/
structure WritesOnce (identifier : String) (usable : Candle → Bool) (row : Candle → ρ) (candles : List Candle)
    (table : Dict BarKey ρ) (pass : PassAnswers → Dict BarKey ρ → PassResult ρ) : Prop where
  completes : ∀ answers, (∀ i, answers.gets i = true) → answers.commits = true → (pass answers table).returned.isSome
  rows : ∀ answers counts, (pass answers table).returned = some counts → ∀ time,
    (pass answers table).table.lookup (identifier, time) =
      (table.lookup (identifier, time)).or ((firstUsable usable time candles).map row)
  others : ∀ answers other, other ≠ identifier → ∀ time,
    (pass answers table).table.lookup (other, time) = table.lookup (other, time)
  added : ∀ answers counts, (pass answers table).returned = some counts →
    (pass answers table).table.keys.length = table.keys.length + counts.written
  counted : ∀ answers counts, (pass answers table).returned = some counts →
    counts.skippedNoTime = candles.countP (·.time.isNone) ∧
      counts.written + counts.skipped + counts.skippedInvalid + counts.skippedNoTime = candles.length
  again : ∀ answers counts, (pass answers table).returned = some counts → ∀ answers' counts',
    (pass answers' (pass answers table).table).returned = some counts' →
      (pass answers' (pass answers table).table).table = (pass answers table).table ∧ counts'.written = 0
  failed : ∀ answers, (pass answers table).returned = none → (pass answers table).table = table

structure Matches (s : PassSession ρ) (loop : WriteLoop ρ) : Prop where
  flushes : s.pending.foldlM flushRow s.seen = some loop.table
  counts : s.counts = ⟨loop.written, loop.skipped, loop.skippedInvalid, loop.skippedNoTime⟩

theorem Matches.flush (matches_ : Matches s loop) : s.flush = some { s with seen := loop.table, pending := [] } := by
  rw [PassSession.flush, matches_.flushes]
  rfl

theorem Matches.writeCandle (matches_ : Matches s loop)
    (taken : s.writeCandle identifier usable row answers candle = some t) :
    Matches t (writeOne identifier usable row loop candle) := by
  have counts := matches_.counts
  unfold PassSession.writeCandle at taken
  unfold writeOne
  cases at_ : candle.time with
  | none =>
    rw [at_] at taken
    cases taken
    exact ⟨matches_.flushes, by rw [counts]⟩
  | some barTime =>
    simp only [at_, matches_.flush, Option.map_some] at taken
    split at taken
    · cases taken
    · obtain rfl := Option.some.inj taken
      dsimp only
      split
      · exact ⟨rfl, by rw [counts]⟩
      · next absent =>
        split
        · exact ⟨rfl, by rw [counts]⟩
        · refine ⟨?_, by rw [counts]⟩
          simp [flushRow, absent]

theorem Matches.completes (matches_ : Matches s loop) (gets : ∀ i, answers.gets i = true) (candle : Candle) :
    (s.writeCandle identifier usable row answers candle).isSome := by
  unfold PassSession.writeCandle
  cases candle.time with
  | none => rfl
  | some barTime => simp [gets, matches_.flush]

theorem matches_all (matches_ : Matches s loop)
    (taken : candles.foldlM (PassSession.writeCandle identifier usable row answers) s = some t) :
    Matches t (candles.foldl (writeOne identifier usable row) loop) := by
  induction candles generalizing s loop with
  | nil =>
    cases taken
    exact matches_
  | cons candle candles ih =>
    rw [List.foldlM_cons] at taken
    obtain ⟨u, first, rest⟩ := Option.bind_eq_some_iff.mp taken
    exact ih (matches_.writeCandle first) rest

theorem completes_all (matches_ : Matches s loop) (gets : ∀ i, answers.gets i = true) :
    ∃ t, candles.foldlM (PassSession.writeCandle identifier usable row answers) s = some t := by
  induction candles generalizing s loop with
  | nil => exact ⟨s, rfl⟩
  | cons candle candles ih =>
    obtain ⟨u, first⟩ : ∃ u, s.writeCandle identifier usable row answers candle = some u :=
      Option.isSome_iff_exists.mp (matches_.completes gets candle)
    rw [List.foldlM_cons, first]
    exact ih (matches_.writeCandle first)

theorem matches_start (table : Dict BarKey ρ) : Matches { seen := table } { table := table } := ⟨rfl, rfl⟩

theorem backfillPass_returned
    (ran : (backfillPass identifier usable row candles answers table).returned = some counts) :
    (backfillPass identifier usable row candles answers table).table =
        (writeAll identifier usable row table candles).table ∧
      counts = ⟨(writeAll identifier usable row table candles).written,
        (writeAll identifier usable row table candles).skipped,
        (writeAll identifier usable row table candles).skippedInvalid,
        (writeAll identifier usable row table candles).skippedNoTime⟩ := by
  unfold backfillPass at ran ⊢
  split at ran
  · next empty =>
    subst empty
    cases ran
    exact ⟨rfl, rfl⟩
  · next some_ =>
    rw [if_neg some_]
    split at ran
    · cases ran
    · next s finished =>
      obtain ⟨u, wrote, flushed⟩ := Option.bind_eq_some_iff.mp finished
      have matches_ := matches_all (matches_start table) wrote
      rw [matches_.flush] at flushed
      obtain rfl := Option.some.inj flushed
      split at ran
      · next commits =>
        rw [if_pos commits]
        exact ⟨rfl, (Option.some.inj ran).symm.trans matches_.counts⟩
      · cases ran

theorem backfillPass_raised (ran : (backfillPass identifier usable row candles answers table).returned = none) :
    (backfillPass identifier usable row candles answers table).table = table := by
  unfold backfillPass at ran ⊢
  split
  · rfl
  · next some_ =>
    rw [if_neg some_] at ran
    split
    · rfl
    · next s finished =>
      rw [finished] at ran
      dsimp only at ran
      split at ran
      · cases ran
      · next fails => rw [if_neg fails]

theorem backfillPass_completes (gets : ∀ i, answers.gets i = true) (commits : answers.commits = true) :
    (backfillPass identifier usable row candles answers table).returned.isSome := by
  unfold backfillPass
  split
  · rfl
  · obtain ⟨t, wrote⟩ : ∃ t, candles.foldlM (PassSession.writeCandle identifier usable row answers)
        { seen := table } = some t := completes_all (matches_start table) gets
    have matches_ := matches_all (matches_start table) wrote
    rw [wrote, Option.bind_some, matches_.flush]
    rfl

theorem writeAll_keys (identifier : String) (usable : Candle → Bool) (row : Candle → ρ) (table : Dict BarKey ρ)
    (candles : List Candle) : (writeAll identifier usable row table candles).table.keys.length =
      table.keys.length + (writeAll identifier usable row table candles).written := by
  suffices general : ∀ s : WriteLoop ρ,
      (candles.foldl (writeOne identifier usable row) s).table.keys.length + s.written =
        s.table.keys.length + (candles.foldl (writeOne identifier usable row) s).written from
    general { table := table }
  intro s
  induction candles generalizing s with
  | nil => rfl
  | cons candle candles ih =>
    have rest := ih (writeOne identifier usable row s candle)
    have first : (writeOne identifier usable row s candle).table.keys.length + s.written =
        s.table.keys.length + (writeOne identifier usable row s candle).written := by
      unfold writeOne
      cases candle.time with
      | none => rfl
      | some barTime =>
        dsimp only
        split
        · rfl
        · next absent =>
          split
          · rfl
          · rw [Dict.keys_insert_new absent, List.length_cons]
            dsimp only
            omega
    rw [List.foldl_cons]
    omega

theorem writeAll_counted (identifier : String) (usable : Candle → Bool) (row : Candle → ρ) (table : Dict BarKey ρ)
    (candles : List Candle) :
    (writeAll identifier usable row table candles).skippedNoTime = candles.countP (·.time.isNone) ∧
      (writeAll identifier usable row table candles).written + (writeAll identifier usable row table candles).skipped +
        (writeAll identifier usable row table candles).skippedInvalid +
        (writeAll identifier usable row table candles).skippedNoTime = candles.length := by
  suffices general : ∀ s : WriteLoop ρ,
      (candles.foldl (writeOne identifier usable row) s).skippedNoTime =
        s.skippedNoTime + candles.countP (·.time.isNone) ∧
      (candles.foldl (writeOne identifier usable row) s).written +
        (candles.foldl (writeOne identifier usable row) s).skipped +
        (candles.foldl (writeOne identifier usable row) s).skippedInvalid +
        (candles.foldl (writeOne identifier usable row) s).skippedNoTime =
          s.written + s.skipped + s.skippedInvalid + s.skippedNoTime + candles.length by
    simpa [writeAll] using general { table := table }
  intro s
  induction candles generalizing s with
  | nil => exact ⟨rfl, rfl⟩
  | cons candle candles ih =>
    obtain ⟨noTime, total⟩ := ih (writeOne identifier usable row s candle)
    have first : (writeOne identifier usable row s candle).skippedNoTime =
          s.skippedNoTime + (if candle.time.isNone then 1 else 0) ∧
        (writeOne identifier usable row s candle).written + (writeOne identifier usable row s candle).skipped +
          (writeOne identifier usable row s candle).skippedInvalid +
          (writeOne identifier usable row s candle).skippedNoTime =
            s.written + s.skipped + s.skippedInvalid + s.skippedNoTime + 1 := by
      unfold writeOne
      cases candle.time with
      | none => exact ⟨rfl, by dsimp only; omega⟩
      | some barTime =>
        dsimp only
        split
        · exact ⟨rfl, by dsimp only; omega⟩
        · split
          · exact ⟨rfl, by dsimp only; omega⟩
          · exact ⟨rfl, by dsimp only; omega⟩
    rw [List.foldl_cons, total, noTime, List.countP_cons, List.length_cons]
    exact ⟨by omega, by omega⟩

theorem backfillPass_writesOnce (identifier : String) (usable : Candle → Bool) (row : Candle → ρ)
    (candles : List Candle) (table : Dict BarKey ρ) :
    WritesOnce identifier usable row candles table (backfillPass identifier usable row candles) where
  completes _ gets commits := backfillPass_completes gets commits
  rows answers counts ran time := by
    rw [(backfillPass_returned ran).1]
    exact writeAll_lookup identifier usable row table candles time
  others answers other different time := by
    cases ran : (backfillPass identifier usable row candles answers table).returned with
    | none => rw [backfillPass_raised ran]
    | some counts =>
      rw [(backfillPass_returned ran).1]
      exact writeAll_other different usable row table candles time
  added answers counts ran := by
    obtain ⟨wrote, rfl⟩ := backfillPass_returned ran
    rw [wrote]
    exact writeAll_keys identifier usable row table candles
  counted answers counts ran := by
    obtain ⟨-, rfl⟩ := backfillPass_returned ran
    exact writeAll_counted identifier usable row table candles
  again answers counts ran answers' counts' rerun := by
    obtain ⟨wrote, -⟩ := backfillPass_returned ran
    rw [wrote] at rerun ⊢
    obtain ⟨same, rfl⟩ := backfillPass_returned rerun
    rw [same]
    apply writeAll_idle
    intro candle listed time at_
    by_cases ok : usable candle = true
    · refine Or.inl ((Dict.mem_iff _ _).mpr (Option.isSome_iff_exists.mp ?_))
      rw [writeAll_lookup, Option.isSome_or, Option.isSome_map]
      have found : (firstUsable usable time candles).isSome :=
        List.find?_isSome.mpr ⟨candle, listed, by simp [at_, ok]⟩
      rw [found, Bool.or_true]
    · exact Or.inr (Bool.not_eq_true _ ▸ ok)
  failed _ ran := backfillPass_raised ran

/-- Both backfill functions; an option candle is usable whatever its close is. -/
theorem backfill_writesOnce :
    (∀ ticker candles table, WritesOnce ticker usableCandle underlyingCandleRow candles table
      (backfillUnderlyingPass ticker candles)) ∧
    ∀ contractId resolved candles table, WritesOnce contractId (fun _ => true) (optionCandleRow resolved) candles table
      (backfillOptionContractPass contractId resolved candles) :=
  ⟨fun _ _ _ => backfillPass_writesOnce _ _ _ _ _, fun _ _ _ _ => backfillPass_writesOnce _ _ _ _ _⟩

end OptionsProof.BackfillPass
