import OptionsData.Db.BarWriters

namespace OptionsModel

open Kit

variable {ι : Type} [DecidableEq ι]

/-- What a writer of underlying bars brings to its write: candles that it received, or bars that it popped. -/
inductive LockedCall where
  | pollTicker (ticker : String) (candles : List Candle)
  | pollTickerTrades (barRows : List (BarKey × TradeBucket))

namespace LockedCall

/-- Then the call returns before it asks for the lock. -/
def nothing : LockedCall → Bool
  | .pollTicker _ candles => candles.isEmpty
  | .pollTickerTrades barRows => barRows.isEmpty

def offers : LockedCall → List (BarKey × Option UnderlyingBar1m)
  | .pollTicker ticker candles => candleOffers (underlyingPass ticker) candles
  | .pollTickerTrades barRows => tradeOffers barRows

end LockedCall

inductive LockedPhase where
  | idle
  | waiting (call : LockedCall)
  | writing (call : LockedCall) (insertion : Insertion UnderlyingBar1m)
  /-- The transaction is over, and the lock still held. -/
  | closing

def LockedPhase.holds : LockedPhase → Bool
  | .writing _ _ | .closing => true
  | .idle | .waiting _ => false

structure LockedWriters (ι : Type) where
  store : Versions ι BarKey UnderlyingBar1m
  lock : Option ι := none
  phase : ι → LockedPhase := fun _ => .idle
  /-- The calls in the order in which they took the lock. -/
  acquired : List LockedCall := []
  /-- Those whose transaction is over, and whether it was committed. -/
  ended : List (LockedCall × Bool) := []

namespace LockedWriters

inductive Action (ι : Type) where
  | request (i : ι) (call : LockedCall)
  | acquire (i : ι)
  | statement (i : ι)
  /-- Whatever the task awaits raises or is cancelled. -/
  | failure (i : ι)
  | release (i : ι)

def become (s : LockedWriters ι) (i : ι) (phase : LockedPhase) : ι → LockedPhase := Function.update s.phase i phase

def rollback (s : LockedWriters ι) (i : ι) (call : LockedCall) : LockedWriters ι :=
  { s with store := s.store.rollback i, phase := s.become i .closing, ended := s.ended ++ [(call, false)] }

def step (s : LockedWriters ι) : Action ι → Option (LockedWriters ι)
  | .request i call => match s.phase i with
    | .idle => some { s with phase := s.become i (if call.nothing then .idle else .waiting call) }
    | _ => none
  | .acquire i => match s.phase i with
    | .waiting call =>
      if s.lock.isSome then none
      else some { s with
        lock := some i
        phase := s.become i (.writing call (.checking call.offers none))
        acquired := s.acquired ++ [call] }
    | _ => none
  | .statement i => match s.phase i with
    | .writing call insertion => match insertion.next s.store i with
      | .waits => none
      | .goesOn store rest => some { s with store := store, phase := s.become i (.writing call rest) }
      | .commits => some { s with
          store := s.store.commit i, phase := s.become i .closing, ended := s.ended ++ [(call, true)] }
      | .fails => some (s.rollback i call)
    | _ => none
  | .failure i => match s.phase i with
    | .waiting _ => some { s with phase := s.become i .idle }
    -- leaving the session rolls back; the lock is released after that
    | .writing call _ => some (s.rollback i call)
    | _ => none
  | .release i => match s.phase i with
    | .closing => some { s with lock := none, phase := s.become i .idle }
    | _ => none

end LockedWriters

end OptionsModel

namespace OptionsProof.LockedWriters

open Kit OptionsModel OptionsModel.LockedWriters

variable {ι : Type} [DecidableEq ι] {s t : LockedWriters ι} {i j : ι} {call : LockedCall}
  {insertion : Insertion UnderlyingBar1m} {initial : UnderlyingTable}

def usable (offers : List (BarKey × Option UnderlyingBar1m)) : List (BarKey × UnderlyingBar1m) :=
  offers.filterMap fun offer => offer.2.map fun row => (offer.1, row)

/-- The first row that the call has for the key, among those with a usable close. -/
def rowFor (call : LockedCall) (key : BarKey) : Option UnderlyingBar1m := Dict.firstRow (usable call.offers) key

inductive Moves (s : LockedWriters ι) (i : ι) : LockedWriters ι → Prop
  | turns (phase : LockedPhase) (before : (s.phase i).holds = false) (after : phase.holds = false) :
      Moves s i { s with phase := s.become i phase }
  | acquires (call : LockedCall) (waiting : s.phase i = .waiting call) (free : s.lock = none) :
      Moves s i { s with
        lock := some i
        phase := s.become i (.writing call (.checking call.offers none))
        acquired := s.acquired ++ [call] }
  | goesOn (call : LockedCall) (insertion rest : Insertion UnderlyingBar1m)
      (store : Versions ι BarKey UnderlyingBar1m) (writing : s.phase i = .writing call insertion)
      (next : insertion.next s.store i = .goesOn store rest) :
      Moves s i { s with store := store, phase := s.become i (.writing call rest) }
  | commits (call : LockedCall) (insertion : Insertion UnderlyingBar1m) (writing : s.phase i = .writing call insertion)
      (next : insertion.next s.store i = .commits) :
      Moves s i { s with
        store := s.store.commit i, phase := s.become i .closing, ended := s.ended ++ [(call, true)] }
  | rollsBack (call : LockedCall) (insertion : Insertion UnderlyingBar1m)
      (writing : s.phase i = .writing call insertion) : Moves s i (s.rollback i call)
  | releases (closing : s.phase i = .closing) : Moves s i { s with lock := none, phase := s.become i .idle }

theorem step_moves {a : Action ι} (taken : step s a = some t) : ∃ i, Moves s i t := by
  cases a with
  | request i call =>
    refine ⟨i, ?_⟩
    unfold step at taken
    dsimp only at taken
    split at taken
    · next idle =>
      cases taken
      refine .turns _ (by rw [idle]; rfl) ?_
      split <;> rfl
    · cases taken
  | acquire i =>
    refine ⟨i, ?_⟩
    unfold step at taken
    dsimp only at taken
    split at taken
    · next call waiting =>
      split at taken
      · cases taken
      · next free =>
        cases taken
        exact .acquires call waiting (Option.not_isSome_iff_eq_none.mp free)
    · cases taken
  | statement i =>
    refine ⟨i, ?_⟩
    unfold step at taken
    dsimp only at taken
    split at taken
    · next call insertion writing =>
      split at taken
      · cases taken
      · next store rest next_ =>
        cases taken
        exact .goesOn call insertion rest store writing next_
      · next next_ =>
        cases taken
        exact .commits call insertion writing next_
      · cases taken
        exact .rollsBack call insertion writing
    · cases taken
  | failure i =>
    refine ⟨i, ?_⟩
    unfold step at taken
    dsimp only at taken
    split at taken
    · next call waiting =>
      cases taken
      exact .turns _ (by rw [waiting]; rfl) rfl
    · next call insertion writing =>
      cases taken
      exact .rollsBack call insertion writing
    · cases taken
  | release i =>
    refine ⟨i, ?_⟩
    unfold step at taken
    dsimp only at taken
    split at taken
    · next closing =>
      cases taken
      exact .releases closing
    · cases taken

structure Progress (store : Versions ι BarKey UnderlyingBar1m) (i : ι) (call : LockedCall)
    (done rest : List (BarKey × Option UnderlyingBar1m)) (added : Option (BarKey × UnderlyingBar1m)) : Prop where
  split : call.offers = done ++ rest
  fresh : ∀ key row, added = some (key, row) → store.read i key = none
  seen : ∀ key, (store.read i key).or (Dict.firstRow added.toList key) =
    (store.committed.lookup key).or (Dict.firstRow (usable done) key)

def Progresses (store : Versions ι BarKey UnderlyingBar1m) (i : ι) (call : LockedCall)
    (insertion : Insertion UnderlyingBar1m) : Prop :=
  ∃ done rest added, insertion = .checking rest added ∧ Progress store i call done rest added

structure Sound (initial : UnderlyingTable) (s : LockedWriters ι) : Prop where
  holder : ∀ i, (s.phase i).holds = true ↔ s.lock = some i
  pending : ∀ key owner row, s.store.pending.lookup key = some (owner, row) →
    ∃ call insertion, s.phase owner = .writing call insertion
  writing : ∀ i call insertion, s.phase i = .writing call insertion →
    Progresses s.store i call insertion ∧ s.acquired = s.ended.map Prod.fst ++ [call]
  resting : (∀ i call insertion, s.phase i ≠ .writing call insertion) → s.acquired = s.ended.map Prod.fst
  table : ∀ key, s.store.committed.lookup key = (initial.lookup key).or
    (s.ended.findSome? fun call => if call.2 then rowFor call.1 key else none)

theorem usable_concat (done : List (BarKey × Option UnderlyingBar1m)) (offer : BarKey × Option UnderlyingBar1m)
    (key : BarKey) : Dict.firstRow (usable (done ++ [offer])) key =
      (Dict.firstRow (usable done) key).or (Dict.firstRow (usable [offer]) key) := by
  rw [usable, List.filterMap_append, Dict.firstRow_append]
  rfl

theorem read_write (store : Versions ι BarKey UnderlyingBar1m) (i : ι) (key : BarKey) (row : UnderlyingBar1m)
    (k : BarKey) : (store.write i key row).read i k = if k = key then some row else store.read i k := by
  unfold Versions.read Versions.write
  rw [Dict.lookup_insert]
  by_cases same : k = key
  · simp [same]
  · rw [if_neg same, if_neg same]

theorem firstRow_single (key k : BarKey) (row : UnderlyingBar1m) :
    Dict.firstRow [(key, row)] k = if k = key then some row else none := by
  rw [Dict.firstRow_cons, Dict.firstRow_nil, Option.or_none]

section Progress

variable {store : Versions ι BarKey UnderlyingBar1m} {done rest : List (BarKey × Option UnderlyingBar1m)}
  {key : BarKey} {row : UnderlyingBar1m} {offer : Option UnderlyingBar1m}

theorem Progress.inserts (progress : Progress store i call done rest (some (key, row))) :
    Progress (store.write i key row) i call done rest none := by
  have free := progress.fresh key row rfl
  refine ⟨progress.split, (fun k r added => by cases added), fun k => ?_⟩
  have seen := progress.seen k
  rw [Option.toList_some, firstRow_single] at seen
  rw [read_write, Option.toList_none, Dict.firstRow_nil, Option.or_none]
  by_cases same : k = key
  · rw [if_pos same, same, free, Option.none_or] at seen
    rw [if_pos same, same]
    exact seen
  · rw [if_neg same, Option.or_none] at seen
    rw [if_neg same]
    exact seen

theorem Progress.skips (progress : Progress store i call done ((key, offer) :: rest) none)
    (nothing : (store.read i key).isSome ∨ offer = none) :
    Progress store i call (done ++ [(key, offer)]) rest none := by
  refine ⟨by rw [progress.split, List.append_cons], (fun k r added => by cases added), fun k => ?_⟩
  have seen := progress.seen k
  rw [usable_concat, ← Option.or_assoc, ← seen, Option.toList_none, Dict.firstRow_nil, Option.or_none]
  cases offer with
  | none => exact Option.or_none.symm
  | some row =>
    show _ = (store.read i k).or (Dict.firstRow [(key, row)] k)
    rw [firstRow_single]
    rcases nothing with stored | wrong
    · by_cases same : k = key
      · subst same
        exact (Option.or_of_isSome stored).symm
      · rw [if_neg same, Option.or_none]
    · cases wrong

theorem Progress.adds (progress : Progress store i call done ((key, some row) :: rest) none)
    (free : store.read i key = none) :
    Progress store i call (done ++ [(key, some row)]) rest (some (key, row)) := by
  refine ⟨by rw [progress.split, List.append_cons], (fun k r added => by cases added; exact free), fun k => ?_⟩
  have seen := progress.seen k
  rw [Option.toList_none, Dict.firstRow_nil, Option.or_none] at seen
  rw [usable_concat, ← Option.or_assoc, ← seen]
  rfl

def Lawful (store : Versions ι BarKey UnderlyingBar1m) (i : ι) (call : LockedCall) :
    Inserting ι UnderlyingBar1m → Prop
  | .waits => True
  | .goesOn store' insertion => Progresses store' i call insertion ∧ store'.committed = store.committed ∧
      ∀ key owner row, store'.pending.lookup key = some (owner, row) →
        owner = i ∨ store.pending.lookup key = some (owner, row)
  | .commits => ∀ key, store.read i key = (store.committed.lookup key).or (rowFor call key)
  | .fails => False

theorem Progresses.next (progresses : Progresses store i call insertion) :
    Lawful store i call (insertion.next store i) := by
  obtain ⟨done, rest, added, rfl, progress⟩ := progresses
  cases added with
  | some pending =>
    obtain ⟨key, row⟩ := pending
    simp only [Insertion.next, progress.fresh key row rfl, Option.isSome_none, Bool.false_eq_true, if_false]
    split
    · trivial
    · refine ⟨⟨done, rest, none, rfl, progress.inserts⟩, rfl, fun k owner r held => ?_⟩
      rw [Versions.write, Dict.lookup_insert] at held
      split at held
      · cases held
        exact .inl rfl
      · exact .inr held
  | none =>
    cases rest with
    | nil =>
      intro key
      have seen := progress.seen key
      rw [Option.toList_none, Dict.firstRow_nil, Option.or_none] at seen
      rw [seen, rowFor, progress.split, List.append_nil]
    | cons first rest =>
      obtain ⟨key, offer⟩ := first
      unfold Insertion.next
      dsimp only
      split
      · next stored => exact ⟨⟨_, rest, none, rfl, progress.skips (.inl stored)⟩, rfl, fun _ _ _ => .inr⟩
      · next free =>
        split
        · exact ⟨⟨_, rest, none, rfl, progress.skips (.inr rfl)⟩, rfl, fun _ _ _ => .inr⟩
        · have unseen := Option.not_isSome_iff_eq_none.mp free
          exact ⟨⟨_, rest, _, rfl, progress.adds unseen⟩, rfl, fun _ _ _ => .inr⟩

end Progress

omit [DecidableEq ι] in
theorem holds_of_writing (writing : s.phase i = .writing call insertion) : (s.phase i).holds = true := by
  rw [writing]
  rfl

omit [DecidableEq ι] in
theorem not_writing (idle : (s.phase i).holds = false) : s.phase i ≠ .writing call insertion := by
  intro writing
  rw [holds_of_writing writing] at idle
  cases idle

theorem become_self (s : LockedWriters ι) (i : ι) (phase : LockedPhase) : s.become i phase i = phase := by
  rw [become, Function.update_self]

theorem become_of_ne (s : LockedWriters ι) {i j : ι} (other : j ≠ i) (phase : LockedPhase) :
    s.become i phase j = s.phase j := by
  rw [become, Function.update_of_ne other]

theorem become_writing {phase : LockedPhase} (busy : s.become i phase j = .writing call insertion) :
    (j = i ∧ phase = .writing call insertion) ∨ (j ≠ i ∧ s.phase j = .writing call insertion) := by
  by_cases same : j = i
  · subst same
    rw [become_self] at busy
    exact .inl ⟨rfl, busy⟩
  · rw [become_of_ne s same] at busy
    exact .inr ⟨same, busy⟩

theorem Sound.only (sound : Sound initial s) (held : (s.phase i).holds = true) (other : j ≠ i) :
    (s.phase j).holds = false := by
  cases theirs : (s.phase j).holds with
  | false => rfl
  | true =>
    have mine := (sound.holder i).mp held
    rw [(sound.holder j).mp theirs] at mine
    exact absurd (Option.some.inj mine) other

theorem Sound.alone (sound : Sound initial s) (writing : s.phase i = .writing call insertion) {key : BarKey}
    {owner : ι} {row : UnderlyingBar1m} (held : s.store.pending.lookup key = some (owner, row)) : owner = i := by
  obtain ⟨other, unfinished, busy⟩ := sound.pending key owner row held
  by_contra apart
  exact not_writing (sound.only (holds_of_writing writing) apart) busy

theorem Sound.nobody (sound : Sound initial s) (free : s.lock = none) (i : ι) : (s.phase i).holds = false := by
  cases held : (s.phase i).holds with
  | false => rfl
  | true =>
    have locked := (sound.holder i).mp held
    rw [free] at locked
    cases locked

theorem Sound.nothing_pending (sound : Sound initial s) (free : s.lock = none) (key : BarKey) :
    s.store.pending.lookup key = none := by
  cases held : s.store.pending.lookup key with
  | none => rfl
  | some entry =>
    obtain ⟨call, insertion, busy⟩ := sound.pending key entry.1 entry.2 held
    exact absurd busy (not_writing (sound.nobody free entry.1))

theorem Sound.stays (sound : Sound initial s) (held : (s.phase i).holds = true) {phase : LockedPhase}
    (still : phase.holds = true) (j : ι) : (s.become i phase j).holds = true ↔ s.lock = some j := by
  by_cases same : j = i
  · subst same
    rw [become_self, still, (sound.holder j).mp held]
    simp
  · rw [become_of_ne s same]
    exact sound.holder j

theorem Sound.turns (sound : Sound initial s) {phase : LockedPhase} (before : (s.phase i).holds = false)
    (after : phase.holds = false) : Sound initial { s with phase := s.become i phase } where
  holder j := by
    by_cases same : j = i
    · subst same
      have theirs := sound.holder j
      rw [before] at theirs
      simpa only [become_self, after] using theirs
    · simpa only [become_of_ne s same] using sound.holder j
  pending key owner row held := by
    obtain ⟨call, insertion, writing⟩ := sound.pending key owner row held
    have other : owner ≠ i := by
      intro same
      subst same
      exact not_writing before writing
    exact ⟨call, insertion, (become_of_ne s other phase).trans writing⟩
  writing j call insertion busy := by
    rcases become_writing busy with ⟨-, same⟩ | ⟨-, writing⟩
    · subst same
      cases after
    · exact sound.writing j call insertion writing
  resting quiet := by
    apply sound.resting
    intro j call insertion writing
    have other : j ≠ i := by
      intro same
      subst same
      exact not_writing before writing
    exact quiet j call insertion ((become_of_ne s other phase).trans writing)
  table := sound.table

theorem Sound.acquires (sound : Sound initial s) (free : s.lock = none) : Sound initial { s with
    lock := some i
    phase := s.become i (.writing call (.checking call.offers none))
    acquired := s.acquired ++ [call] } where
  holder j := by
    by_cases same : j = i
    · subst same
      simp only [become_self]
      simp [LockedPhase.holds]
    · simp only [become_of_ne s same, sound.nobody free j]
      exact iff_of_false Bool.false_ne_true fun mine => same (Option.some.inj mine).symm
  pending key owner row held := by
    rw [sound.nothing_pending free key] at held
    cases held
  writing j other insertion busy := by
    rcases become_writing busy with ⟨rfl, same⟩ | ⟨-, writing⟩
    · cases same
      constructor
      · refine ⟨[], call.offers, none, rfl, rfl, (fun key row added => by cases added), fun key => ?_⟩
        rw [Versions.read, sound.nothing_pending free key]
        rfl
      · rw [sound.resting fun k _ _ => not_writing (sound.nobody free k)]
    · exact absurd writing (not_writing (sound.nobody free j))
  resting quiet := absurd (become_self s i _) (quiet i _ _)
  table := sound.table

theorem Sound.goesOn (sound : Sound initial s) (writing : s.phase i = .writing call insertion)
    {store : Versions ι BarKey UnderlyingBar1m} {rest : Insertion UnderlyingBar1m}
    (next : insertion.next s.store i = .goesOn store rest) :
    Sound initial { s with store := store, phase := s.become i (.writing call rest) } := by
  obtain ⟨progresses, order⟩ := sound.writing i call insertion writing
  have lawful := progresses.next
  rw [next] at lawful
  obtain ⟨progresses, same, fewer⟩ := lawful
  have held := holds_of_writing writing
  refine ⟨sound.stays held rfl, fun key owner row found => ?_, fun j other insertion busy => ?_, fun quiet => ?_,
    fun key => ?_⟩
  · obtain rfl : owner = i := (fewer key owner row found).elim id (sound.alone writing)
    exact ⟨call, rest, become_self s owner _⟩
  · rcases become_writing busy with ⟨rfl, same⟩ | ⟨apart, theirs⟩
    · cases same
      exact ⟨progresses, order⟩
    · exact absurd theirs (not_writing (sound.only held apart))
  · exact absurd (become_self s i _) (quiet i _ _)
  · rw [same]
    exact sound.table key

theorem Sound.ends (sound : Sound initial s) (writing : s.phase i = .writing call insertion) (committed : Bool)
    {store : Versions ι BarKey UnderlyingBar1m}
    (discards : ∀ key owner row, store.pending.lookup key = some (owner, row) →
      s.store.pending.lookup key = some (owner, row) ∧ owner ≠ i)
    (result : ∀ key, store.committed.lookup key =
      (s.store.committed.lookup key).or (if committed then rowFor call key else none)) :
    Sound initial { s with
      store := store, phase := s.become i .closing, ended := s.ended ++ [(call, committed)] } where
  holder := sound.stays (holds_of_writing writing) rfl
  pending key owner row found := by
    obtain ⟨before, other⟩ := discards key owner row found
    exact absurd (sound.alone writing before) other
  writing j other insertion busy := by
    rcases become_writing busy with ⟨-, same⟩ | ⟨apart, theirs⟩
    · cases same
    · exact absurd theirs (not_writing (sound.only (holds_of_writing writing) apart))
  resting _ := by
    rw [(sound.writing i call insertion writing).2, List.map_append]
    rfl
  table key := by
    rw [result, sound.table, Option.or_assoc, List.findSome?_append]
    cases committed <;> simp

theorem Sound.releases (sound : Sound initial s) (closing : s.phase i = .closing) :
    Sound initial { s with lock := none, phase := s.become i .idle } := by
  have held : (s.phase i).holds = true := by
    rw [closing]
    rfl
  have quiet (j : ι) (call : LockedCall) (insertion : Insertion UnderlyingBar1m) :
      s.phase j ≠ .writing call insertion := by
    by_cases same : j = i
    · subst same
      rw [closing]
      exact nofun
    · exact not_writing (sound.only held same)
  refine ⟨fun j => ?_, fun key owner row found => ?_, fun j call insertion busy => ?_, fun _ => ?_, sound.table⟩
  · by_cases same : j = i
    · subst same
      simp only [become_self]
      exact iff_of_false Bool.false_ne_true nofun
    · simp only [become_of_ne s same, sound.only held same]
      exact iff_of_false Bool.false_ne_true nofun
  · obtain ⟨call, insertion, writing⟩ := sound.pending key owner row found
    exact absurd writing (quiet owner call insertion)
  · rcases become_writing busy with ⟨-, same⟩ | ⟨-, writing⟩
    · cases same
    · exact absurd writing (quiet j call insertion)
  · exact sound.resting quiet

theorem Sound.keep (sound : Sound initial s) (moves : Moves s i t) : Sound initial t := by
  cases moves with
  | turns phase before after => exact sound.turns before after
  | acquires call waiting free => exact sound.acquires free
  | goesOn call insertion rest store writing next => exact sound.goesOn writing next
  | commits call insertion writing next =>
    have lawful := (sound.writing i call insertion writing).1.next
    rw [next] at lawful
    refine sound.ends writing true (fun key owner row => Versions.lookup_others.mp) fun key => ?_
    rw [Versions.lookup_commit]
    exact lawful key
  | rollsBack call insertion writing =>
    exact sound.ends writing false (fun key owner row => Versions.lookup_others.mp) fun key => Option.or_none.symm
  | releases closing => exact sound.releases closing

theorem initial_sound (initial : UnderlyingTable) :
    Sound initial ({ store := { committed := initial } } : LockedWriters ι) where
  holder _ := iff_of_false Bool.false_ne_true nofun
  pending _ _ _ held := by simp at held
  writing _ _ _ := nofun
  resting _ := rfl
  table _ := Option.or_none.symm

/-- Whichever calls share the lock, no insert meets a duplicate key, and a key has the row that was there, or else that
of the first committed call, in the order of taking the lock, that has one with a usable close. -/
theorem lockedWriters_serial {actions : List (Action ι)}
    (reached : run step ({ store := { committed := initial } } : LockedWriters ι) actions = some s) :
    (∀ i call insertion, s.phase i = .writing call insertion → insertion.next s.store i ≠ .fails) ∧
    (∀ key, s.store.committed.lookup key = (initial.lookup key).or
      (s.ended.findSome? fun call => if call.2 then rowFor call.1 key else none)) ∧
    s.ended.map Prod.fst <+: s.acquired := by
  have sound : Sound initial s := by
    refine run_invariant (fun u a v sound taken => ?_) (initial_sound initial) reached
    obtain ⟨i, moves⟩ := step_moves taken
    exact sound.keep moves
  refine ⟨fun i call insertion writing fails => ?_, sound.table, ?_⟩
  · have lawful := (sound.writing i call insertion writing).1.next
    rw [fails] at lawful
    exact lawful
  · by_cases busy : ∃ i call insertion, s.phase i = .writing call insertion
    · obtain ⟨i, call, insertion, writing⟩ := busy
      rw [(sound.writing i call insertion writing).2]
      exact List.prefix_append _ _
    · rw [sound.resting fun i call insertion writing => busy ⟨i, call, insertion, writing⟩]

def boundaryMinute : List (Action Bool) :=
  [.request true (.pollTickerTrades [(("NDX", 0), { toOhlc := .single 20 })]),
    .request false (.pollTicker "NDX" [{ time := some 0, close := some (.val 21) }]),
    .acquire true, .statement true, .statement true, .statement true, .release true,
    .acquire false, .statement false, .statement false, .release false]

theorem lockedWriters_serial_boundary :
    ∃ s : LockedWriters Bool, run step { store := { committed := ∅ } } boundaryMinute = some s ∧
      s.ended.map Prod.snd = [true, true] ∧ s.ended.map Prod.fst <+: s.acquired ∧
      ∀ key, s.store.committed.lookup key =
        s.ended.findSome? fun call => if call.2 then rowFor call.1 key else none := by
  obtain ⟨s, reached⟩ : ∃ s : LockedWriters Bool, run step { store := { committed := ∅ } } boundaryMinute = some s :=
    Option.isSome_iff_exists.mp (by decide +kernel)
  have both : (run step ({ store := { committed := ∅ } } : LockedWriters Bool) boundaryMinute).map (fun s =>
      s.ended.map Prod.snd) = some [true, true] := by decide +kernel
  rw [reached, Option.map_some, Option.some_inj] at both
  obtain ⟨-, table, order⟩ := lockedWriters_serial reached
  exact ⟨s, reached, both, order, table⟩

end OptionsProof.LockedWriters
