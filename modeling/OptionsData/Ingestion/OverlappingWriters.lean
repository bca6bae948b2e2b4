import OptionsData.Kit.Run
import OptionsData.Kit.ReadCommitted
import OptionsData.Ingestion.CandleWriter

namespace OptionsModel

open Kit

variable {ι ρ : Type}

/-- What a backfill pass writes: which bars it may write, and as what. -/
structure Pass (ρ : Type) where
  identifier : String
  usable : Candle → Bool
  row : Candle → ρ

/-- A task that writes bars in one transaction, at the next statement it has to execute. -/
inductive Writer (ρ : Type) where
  /-- `added` is the bar added to the session but not yet inserted: the next statement inserts it first. -/
  | backfill (pass : Pass ρ) (candles : List Candle) (added : Option (BarKey × ρ))
  | flush (rows : List (BarKey × ρ))
  | finished
  | aborted

def Writer.ended : Writer ρ → Bool
  | .finished | .aborted => true
  | _ => false

def Writer.inserting : Writer ρ → Option BarKey
  | .backfill _ _ (some (key, _)) => some key
  | _ => none

def underlyingPass (ticker : String) : Pass UnderlyingBar1m := ⟨ticker, usableCandle, underlyingCandleRow⟩

def optionPass (contractId : String) (resolved : ResolvedContract) : Pass OptionBar1m :=
  ⟨contractId, fun _ => true, optionCandleRow resolved⟩

structure Writers (ι ρ : Type) where
  store : Store ι BarKey ρ
  writer : ι → Writer ρ

namespace Writers

variable [DecidableEq ι]

def become (s : Writers ι ρ) (i : ι) (w : Writer ρ) : ι → Writer ρ := Function.update s.writer i w

/-- The next statement of one writer; `none` while it waits for another transaction, or is done. -/
def step (s : Writers ι ρ) (i : ι) : Option (Writers ι ρ) :=
  match s.writer i with
  | .backfill pass candles (some (key, row)) =>
    if s.store.waits i key then none
    else if s.store.sees i key then some ⟨s.store.rollback i, s.become i .aborted⟩
    else some ⟨s.store.put i key row, s.become i (.backfill pass candles none)⟩
  | .backfill pass (candle :: candles) none =>
    match candle.time with
    | none => some ⟨s.store, s.become i (.backfill pass candles none)⟩
    | some barTime =>
      if s.store.sees i (pass.identifier, barTime) then some ⟨s.store, s.become i (.backfill pass candles none)⟩
      else if !pass.usable candle then some ⟨s.store, s.become i (.backfill pass candles none)⟩
      else some ⟨s.store, s.become i (.backfill pass candles (some ((pass.identifier, barTime), pass.row candle)))⟩
  | .backfill _ [] none => some ⟨s.store.commit i, s.become i .finished⟩
  | .flush ((key, row) :: rows) =>
    if s.store.waits i key then none
    else if s.store.sees i key then some ⟨s.store, s.become i (.flush rows)⟩
    else some ⟨s.store.put i key row, s.become i (.flush rows)⟩
  | .flush [] => some ⟨s.store.commit i, s.become i .finished⟩
  | .finished => none
  | .aborted => none

def Done (s : Writers ι ρ) : Prop := ∀ i, (s.writer i).ended = true

end Writers

end OptionsModel

namespace OptionsProof.OverlappingWriters

open Kit OptionsModel OptionsModel.Writers

variable {ι ρ : Type} [DecidableEq ι]

def Owes : Writer ρ → BarKey → Prop
  | .backfill pass candles added, key =>
    (∃ row, added = some (key, row)) ∨
      ∃ candle ∈ candles, pass.usable candle = true ∧ candle.time.map (Prod.mk pass.identifier) = some key
  | .flush rows, key => key ∈ rows.map Prod.fst
  | .finished, _ => False
  | .aborted, _ => False

/-- A backfill pass inserts a bar only if nobody has committed that bar since the pass found it missing. -/
def InsertFree (s : Writers ι ρ) (i : ι) : Prop := ∀ key ∈ (s.writer i).inserting, key ∉ s.store.committed

instance (s : Writers ι ρ) (i : ι) : Decidable (InsertFree s i) :=
  match next : (s.writer i).inserting with
  | none => .isTrue fun key member => by simp [next] at member
  | some key => decidable_of_iff (key ∉ s.store.committed) (by simp [InsertFree, next])

def Covered (s : Writers ι ρ) (i : ι) (key : BarKey) : Prop :=
  key ∈ s.store.committed ∨ s.store.Holds i key ∨ Owes (s.writer i) key

structure SoundAt (store : Store ι BarKey ρ) (i : ι) (w : Writer ρ) : Prop where
  alive : w ≠ .aborted
  settled : w = .finished → ∀ key, ¬ store.Holds i key
  fresh : ∀ pass candles key row, w = .backfill pass candles (some (key, row)) → ¬ store.Holds i key

def Sound (s : Writers ι ρ) : Prop := ∀ i, SoundAt s.store i (s.writer i)

inductive Moves (s : Writers ι ρ) (i : ι) : Writers ι ρ → Prop where
  /-- It goes on without touching the store; a bar it drops is visible to it. -/
  | continues (w : Writer ρ) (busy : w ≠ .aborted ∧ w ≠ .finished)
      (drops : ∀ key, Owes (s.writer i) key → Owes w key ∨ key ∈ s.store.committed ∨ s.store.Holds i key)
      (fresh : ∀ pass candles key row, w = .backfill pass candles (some (key, row)) → ¬ s.store.Holds i key) :
      Moves s i ⟨s.store, s.become i w⟩
  | inserts (key : BarKey) (row : ρ) (w : Writer ρ) (free : s.store.waits i key = false)
      (busy : w ≠ .aborted ∧ w ≠ .finished) (drops : ∀ k, Owes (s.writer i) k → Owes w k ∨ k = key)
      (fresh : ∀ pass candles key row, w ≠ .backfill pass candles (some (key, row))) :
      Moves s i ⟨s.store.put i key row, s.become i w⟩
  | commits (nothing : ∀ key, ¬ Owes (s.writer i) key) : Moves s i ⟨s.store.commit i, s.become i .finished⟩

theorem step_moves {s t : Writers ι ρ} {i : ι} (taken : step s i = some t) (free : InsertFree s i)
    (sound : Sound s) : Moves s i t := by
  unfold Writers.step at taken
  split at taken
  · next pass candles key row working =>
    obtain ⟨unblocked, taken⟩ := Option.ite_none_left_eq_some.mp taken
    have unseen : ¬ s.store.sees i key = true := by
      rw [Store.sees_iff]
      exact not_or.mpr ⟨free key (by simp [working, Writer.inserting]), (sound i).fresh pass candles key row working⟩
    rw [if_neg unseen] at taken
    cases taken
    refine .inserts key row _ (Bool.eq_false_iff.mpr unblocked) ⟨nofun, nofun⟩ (fun k owed => ?_) nofun
    rw [working] at owed
    rcases owed with ⟨row', same⟩ | later
    · cases same
      exact .inr rfl
    · exact .inl (.inr later)
  · next pass candle candles working =>
    have skips (t : Writers ι ρ) (same : t = ⟨s.store, s.become i (.backfill pass candles none)⟩)
        (dropped : ∀ key, pass.usable candle = true ∧ candle.time.map (Prod.mk pass.identifier) = some key →
          key ∈ s.store.committed ∨ s.store.Holds i key) : Moves s i t := by
      subst same
      refine .continues _ ⟨nofun, nofun⟩ (fun key owed => ?_) nofun
      rw [working] at owed
      rcases owed with ⟨row, none_⟩ | ⟨c, member, usable⟩
      · cases none_
      · rcases List.mem_cons.mp member with rfl | later
        · exact .inr (dropped key usable)
        · exact .inl (.inr ⟨c, later, usable⟩)
    split at taken
    · next untimed =>
      cases taken
      exact skips _ rfl fun key owed => by simp [untimed] at owed
    · next barTime timed =>
      split at taken
      · next seen =>
        cases taken
        refine skips _ rfl fun key owed => ?_
        rw [timed, Option.map_some, Option.some_inj] at owed
        rw [← owed.2]
        exact Store.sees_iff.mp seen
      · next unseen =>
        split at taken
        · next unusable =>
          cases taken
          exact skips _ rfl fun key owed => by simp [owed.1] at unusable
        · cases taken
          refine .continues _ ⟨nofun, nofun⟩ (fun key owed => .inl ?_) ?_
          · rw [working] at owed
            rcases owed with ⟨row, none_⟩ | ⟨c, member, usable⟩
            · cases none_
            · rcases List.mem_cons.mp member with rfl | later
              · rw [timed, Option.map_some, Option.some_inj] at usable
                exact .inl ⟨_, by rw [usable.2]⟩
              · exact .inr ⟨c, later, usable⟩
          · rintro _ _ _ _ ⟨⟩
            exact fun held => unseen (Store.sees_iff.mpr (.inr held))
  · next pass working =>
    cases taken
    refine .commits fun key owed => ?_
    rw [working] at owed
    rcases owed with ⟨_, none_⟩ | ⟨_, member, -⟩
    · cases none_
    · cases member
  · next key row rows working =>
    obtain ⟨unblocked, taken⟩ := Option.ite_none_left_eq_some.mp taken
    split at taken
    · next seen =>
      cases taken
      refine .continues _ ⟨nofun, nofun⟩ (fun k owed => ?_) nofun
      rw [working] at owed
      rcases List.mem_cons.mp owed with rfl | later
      · exact .inr (Store.sees_iff.mp seen)
      · exact .inl later
    · cases taken
      refine .inserts key row _ (Bool.eq_false_iff.mpr unblocked) ⟨nofun, nofun⟩ (fun k owed => ?_) nofun
      rw [working] at owed
      rcases List.mem_cons.mp owed with rfl | later
      · exact .inr rfl
      · exact .inl later
  · next working =>
    cases taken
    refine .commits fun key owed => ?_
    rw [working] at owed
    cases owed
  · cases taken
  · cases taken

theorem become_self (s : Writers ι ρ) (i : ι) (w : Writer ρ) : s.become i w i = w := Function.update_self ..

theorem become_other (s : Writers ι ρ) {i j : ι} (other : j ≠ i) (w : Writer ρ) : s.become i w j = s.writer j :=
  Function.update_of_ne other ..

omit [DecidableEq ι] in
theorem SoundAt.frame {store store' : Store ι BarKey ρ} {i : ι} {w : Writer ρ} (sound : SoundAt store i w)
    (keeps : ∀ key, store'.Holds i key → store.Holds i key) : SoundAt store' i w where
  alive := sound.alive
  settled done key held := sound.settled done key (keeps key held)
  fresh pass candles key row working held := sound.fresh pass candles key row working (keeps key held)

theorem Sound.step {s t : Writers ι ρ} {i : ι} (sound : Sound s) (moves : Moves s i t) : Sound t := by
  intro j
  by_cases same : j = i
  · subst same
    cases moves with
    | continues w busy drops fresh =>
      show SoundAt s.store j (s.become j w j)
      rw [become_self]
      exact ⟨busy.1, fun done => absurd done busy.2, fresh⟩
    | inserts key row w free busy drops fresh =>
      show SoundAt (s.store.put j key row) j (s.become j w j)
      rw [become_self]
      exact ⟨busy.1, fun done => absurd done busy.2,
        fun pass candles k row' working => absurd working (fresh pass candles k row')⟩
    | commits nothing =>
      show SoundAt (s.store.commit j) j (s.become j .finished j)
      rw [become_self]
      exact ⟨nofun, fun _ key held => (Store.holds_commit.mp held).2 rfl, nofun⟩
  · cases moves with
    | continues w busy drops fresh =>
      show SoundAt s.store j (s.become i w j)
      rw [become_other s same]
      exact sound j
    | inserts key row w free busy drops fresh =>
      show SoundAt (s.store.put i key row) j (s.become i w j)
      rw [become_other s same]
      exact (sound j).frame fun k held => ((Store.holds_put free).mp held).resolve_right fun own => same own.1
    | commits nothing =>
      show SoundAt (s.store.commit i) j (s.become i .finished j)
      rw [become_other s same]
      exact (sound j).frame fun key held => (Store.holds_commit.mp held).1

theorem Covered.step {s t : Writers ι ρ} {i j : ι} {key : BarKey} (covered : Covered s j key)
    (moves : Moves s i t) : Covered t j key := by
  by_cases same : j = i
  · subst same
    cases moves with
    | continues w busy drops fresh =>
      show key ∈ s.store.committed ∨ s.store.Holds j key ∨ Owes (s.become j w j) key
      rw [become_self]
      rcases covered with stored | held | owed
      · exact .inl stored
      · exact .inr (.inl held)
      · rcases drops key owed with still | stored | held
        · exact .inr (.inr still)
        · exact .inl stored
        · exact .inr (.inl held)
    | inserts k row w free busy drops fresh =>
      show key ∈ s.store.committed ∨ (s.store.put j k row).Holds j key ∨ Owes (s.become j w j) key
      rw [become_self, Store.holds_put free]
      rcases covered with stored | held | owed
      · exact .inl stored
      · exact .inr (.inl (.inl held))
      · rcases drops key owed with still | rfl
        · exact .inr (.inr still)
        · exact .inr (.inl (.inr ⟨rfl, rfl⟩))
    | commits nothing =>
      left
      rw [Store.mem_commit]
      exact covered.imp_right fun rest => rest.resolve_right (nothing key)
  · cases moves with
    | continues w busy drops fresh =>
      show key ∈ s.store.committed ∨ s.store.Holds j key ∨ Owes (s.become i w j) key
      rw [become_other s same]
      exact covered
    | inserts k row w free busy drops fresh =>
      show key ∈ s.store.committed ∨ (s.store.put i k row).Holds j key ∨ Owes (s.become i w j) key
      rw [become_other s same, Store.holds_put free]
      exact covered.imp_right (Or.imp_left .inl)
    | commits nothing =>
      show key ∈ (s.store.commit i).committed ∨ (s.store.commit i).Holds j key ∨ Owes (s.become i .finished j) key
      rw [become_other s same, Store.mem_commit, Store.holds_commit]
      exact covered.imp .inl (Or.imp_left fun held => ⟨held, same⟩)

def Fresh (s : Writers ι ρ) : Prop :=
  s.store.uncommitted = ∅ ∧
    ∀ i, (∃ pass candles, s.writer i = .backfill pass candles none) ∨ ∃ rows, s.writer i = .flush rows

omit [DecidableEq ι] in
theorem Fresh.sound {s : Writers ι ρ} (fresh : Fresh s) : Sound s := by
  have nothing (i : ι) (key : BarKey) : ¬ s.store.Holds i key := by
    intro premise
    rcases premise with ⟨row, found⟩
    rw [fresh.1, AList.lookup_empty] at found
    cases found
  intro i
  refine ⟨?_, fun _ key => nothing i key, fun _ _ key _ _ => nothing i key⟩
  rcases fresh.2 i with ⟨pass, candles, starts⟩ | ⟨rows, starts⟩ <;> rw [starts] <;> nofun

/-- If no backfill pass meets a duplicate that was committed after its check, every usable bar that any of the
writers received has a row once they are all done. -/
theorem done_covers {s t : Writers ι ρ} {schedule : List ι} (fresh : Fresh s)
    (guarded : Guarded step InsertFree s schedule) (reached : run step s schedule = some t) (done : Done t)
    (i : ι) (key : BarKey) (received : Owes (s.writer i) key) : key ∈ t.store.committed := by
  have keep (u : Writers ι ρ) (j : ι) (v : Writers ι ρ) (kept : Sound u ∧ Covered u i key) (free : InsertFree u j)
      (taken : step u j = some v) : Sound v ∧ Covered v i key :=
    have moves := step_moves taken free kept.1
    ⟨kept.1.step moves, kept.2.step moves⟩
  obtain ⟨sound, covered⟩ := run_guarded_invariant keep ⟨fresh.sound, .inr (.inr received)⟩ guarded reached
  have finished : t.writer i = .finished := by
    have ended := done i
    have alive := (sound i).alive
    cases worker : t.writer i <;> simp [worker, Writer.ended] at ended alive ⊢
  rcases covered with stored | held | owed
  · exact stored
  · exact absurd held ((sound i).settled finished key)
  · rw [finished] at owed
    cases owed

def twoPasses (pass : Pass ρ) (first second : List Candle) : Writers Bool ρ where
  store := { committed := ∅ }
  writer second? := .backfill pass (if second? then second else first) none

def candleAt (time : ℤ) : Candle := { time := some time, close := some (.val 20) }

/-- The second pass commits the bar of minute 0 between the check and the insert of the first. -/
theorem overlap_loses_candle :
    ¬ ∀ (pass : Pass UnderlyingBar1m) (first second : List Candle) (schedule : List Bool)
      (t : Writers Bool UnderlyingBar1m),
      (∀ candle ∈ first ++ second, pass.usable candle = true) →
      run step (twoPasses pass first second) schedule = some t → Done t →
      ∀ candle ∈ first ++ second, ∀ time ∈ candle.time, (pass.identifier, time) ∈ t.store.committed := by
  intro covers
  obtain ⟨t, reached⟩ : ∃ t, run step
      (twoPasses (underlyingPass "VIX") [candleAt 0, candleAt 60000] [candleAt 0])
      [false, true, true, true, false] = some t := Option.isSome_iff_exists.mp (by decide +kernel)
  have outcome : (run step (twoPasses (underlyingPass "VIX") [candleAt 0, candleAt 60000] [candleAt 0])
      [false, true, true, true, false]).map (fun t => ((t.writer false).ended, (t.writer true).ended,
        decide (("VIX", 60000) ∈ t.store.committed))) = some (true, true, false) := by decide +kernel
  rw [reached, Option.map_some, Option.some_inj, Prod.mk.injEq, Prod.mk.injEq] at outcome
  rcases outcome with ⟨one, two, absent⟩
  have stored := covers (underlyingPass "VIX") _ _ _ t (by decide +kernel) reached
    (by intro i; cases i <;> assumption) (candleAt 60000) (by simp) 60000 rfl
  exact of_decide_eq_false absent stored

theorem done_covers_sequential :
    ∃ t, run step (twoPasses (underlyingPass "VIX") [candleAt 0] [candleAt 0]) [false, false, false, true, true] =
      some t ∧ ("VIX", 0) ∈ t.store.committed := by
  obtain ⟨t, reached⟩ : ∃ t, run step (twoPasses (underlyingPass "VIX") [candleAt 0] [candleAt 0])
      [false, false, false, true, true] = some t := Option.isSome_iff_exists.mp (by decide +kernel)
  have ended : (run step (twoPasses (underlyingPass "VIX") [candleAt 0] [candleAt 0])
      [false, false, false, true, true]).map (fun t => ((t.writer false).ended, (t.writer true).ended)) =
      some (true, true) := by decide +kernel
  rw [reached, Option.map_some, Option.some_inj, Prod.mk.injEq] at ended
  refine ⟨t, reached, done_covers ⟨rfl, fun i => .inl ⟨_, _, rfl⟩⟩ (by decide +kernel) reached
    (fun i => ?_) false ("VIX", 0) (.inr ⟨candleAt 0, by simp, by decide +kernel, rfl⟩)⟩
  cases i
  · exact ended.1
  · exact ended.2

end OptionsProof.OverlappingWriters
