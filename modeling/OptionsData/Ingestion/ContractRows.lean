import OptionsData.Ingestion.Pipeline
import OptionsData.Ingestion.LiveOptions
import OptionsData.Ingestion.ContractHistories

namespace OptionsModel

open Kit

inductive Activity (ι : Type*) where
  /-- In `refresh`, before the metadata is committed. -/
  | refreshing (owner : ι) (resolved : Tracked)
  /-- In `refresh`, after that and before `_tracked` is assigned. -/
  | persisted (owner : ι) (resolved : Tracked)
  | refreshed (owner : ι) (current : Tracked)
  /-- In `poll_ticker`, before the fallback is persisted. -/
  | polling (candidates : Tracked) (fallback : List ResolvedContract)
  | writing (candidates : Tracked)
  | flushing (rows : List (BarKey × OptionBar1m))

/-- The database, the tracked set of each process and what its tasks are in the middle of. -/
structure ContractSystem (ι : Type*) where
  contracts : ContractTable := ∅
  options : OptionTable := ∅
  tracked : ι → Tracked := fun _ => ∅
  activities : List (Activity ι) := []

inductive ContractAction (ι : Type*) where
  | refresh (owner : ι) (answers : ℕ → TickerAnswers)
  | persist (task : ℕ) (now : ℤ)
  | assign (task : ℕ)
  | startBackfill (task : ℕ) (startDate : ℤ)
  | startPoll (task : ℕ) (startDate : ℤ) (pass : PollPass)
  | persistFallback (task : ℕ) (now : ℤ)
  | writeContract (task : ℕ) (contractId : String) (candles : List Candle)
  | startFlush (owner : ι) (ready : Popped)
  | commitFlush (task : ℕ)
  /-- The task is done, or it has failed and its transaction is rolled back. -/
  | leave (task : ℕ)
  | restart (owner : ι)

namespace ContractSystem

variable {ι : Type*} [DecidableEq ι]

def goOn (s : ContractSystem ι) (task : ℕ) (next : Activity ι) : ContractSystem ι :=
  { s with activities := s.activities.set task next }

def step (tickers : ι → List TickerConfig) (s : ContractSystem ι) :
    ContractAction ι → Option (ContractSystem ι)
  | .refresh owner answers =>
    let resolved := resolveAll ⟨tickers owner, s.tracked owner⟩ answers
    some { s with activities := s.activities ++ [.refreshing owner resolved] }
  | .persist task now =>
    match s.activities[task]? with
    | some (.refreshing owner resolved) =>
      some ({ s with contracts := persist s.contracts (resolved.items.map Prod.snd) now }.goOn task
        (.persisted owner resolved))
    | _ => none
  | .assign task =>
    match s.activities[task]? with
    | some (.persisted owner resolved) =>
      some ({ s with tracked := Function.update s.tracked owner resolved }.goOn task (.refreshed owner resolved))
    | _ => none
  | .startBackfill task startDate =>
    match s.activities[task]? with
    | some (.refreshed owner current) =>
      some (s.goOn task (.writing (getBackfillCandidates (tickers owner) s.contracts current startDate)))
    | _ => none
  | .startPoll task startDate pass =>
    match s.activities[task]? with
    | some (.refreshed owner current) =>
      some (s.goOn task (.polling (pass.known (tickers owner) s.contracts current startDate)
        (pass.fallback (tickers owner))))
    | _ => none
  | .persistFallback task now =>
    match s.activities[task]? with
    | some (.polling candidates fallback) =>
      some ({ s with contracts := persist s.contracts (newFallback candidates fallback) now }.goOn task
        (.writing (withFallback candidates fallback)))
    | _ => none
  | .writeContract task contractId candles =>
    match s.activities[task]? with
    | some (.writing candidates) => (candidates.lookup contractId).map fun resolved =>
        { s with options := (backfillOptionContract contractId resolved s.options candles).1 }
    | _ => none
  | .startFlush owner ready =>
    some { s with activities := s.activities ++ [.flushing (optionRows (s.tracked owner) ready)] }
  | .commitFlush task =>
    match s.activities[task]? with
    | some (.flushing rows) =>
      some { s with options := s.options.insertAll rows, activities := s.activities.eraseIdx task }
    | _ => none
  | .leave task => some { s with activities := s.activities.eraseIdx task }
  | .restart owner => some { s with tracked := Function.update s.tracked owner ∅ }

end ContractSystem

/-- What a contract is: the columns that an option bar repeats. -/
structure ContractTerms where
  underlyingTicker : String
  expirationDate : ℤ
  strike : ℚ
  right : OptionRight
deriving DecidableEq, Repr

def ResolvedContract.terms (rc : ResolvedContract) : ContractTerms :=
  ⟨rc.underlyingTicker, rc.expirationDate, rc.strike, rc.right⟩

def ContractRow.terms (row : ContractRow) : ContractTerms :=
  ⟨row.underlyingTicker, row.expirationDate, row.strike, row.right⟩

def OptionBar1m.terms (row : OptionBar1m) : ContractTerms :=
  ⟨row.underlyingTicker, row.expirationDate, row.strike, row.right⟩

end OptionsModel

namespace OptionsProof.ContractRows

open Kit OptionsModel

variable {ι : Type*} {tickers : ι → List TickerConfig} {denotes : String → ContractTerms} {s t : ContractSystem ι}
  {contracts grown : ContractTable} {cid : String} {rc : ResolvedContract}

/-- What the feed offers for a ticker on an expiration is what the symbol denotes. -/
def Offers (denotes : String → ContractTerms) (cfg : TickerConfig) (expiration : ℤ) (opt : ChainOption) : Prop :=
  denotes opt.streamerSymbol = ⟨cfg.ticker, expiration, opt.strikePrice, optionRight opt⟩

/-- A symbol denotes the same contract in every answer of the feed. -/
def Truthful (denotes : String → ContractTerms) (tickers : ι → List TickerConfig) : ContractAction ι → Prop
  | .refresh owner answers => ∀ i cfg, (tickers owner)[i]? = some cfg → ∀ chain ∈ (answers i).chain, ∀ opt ∈ chain,
      Offers denotes cfg opt.expirationDate opt
  | .startPoll _ _ pass => ∀ owner, ∀ cfg ∈ tickers owner, cfg.ticker = pass.ticker → ∀ listed ∈ pass.chain,
      ∀ opt ∈ listed.2, Offers denotes cfg listed.1 opt
  | _ => True

def Named (denotes : String → ContractTerms) (cid : String) (rc : ResolvedContract) : Prop :=
  rc.contractId = cid ∧ rc.terms = denotes cid

def Backed (denotes : String → ContractTerms) (contracts : ContractTable) (held : Tracked) : Prop :=
  ∀ cid rc, held.lookup cid = some rc → Named denotes cid rc ∧ cid ∈ contracts

def GoodActivity (denotes : String → ContractTerms) (contracts : ContractTable) : Activity ι → Prop
  | .refreshing _ resolved => ∀ cid rc, resolved.lookup cid = some rc → Named denotes cid rc
  | .persisted _ resolved => Backed denotes contracts resolved
  | .refreshed _ current => Backed denotes contracts current
  | .polling candidates fallback =>
    Backed denotes contracts candidates ∧ ∀ rc ∈ fallback, rc.terms = denotes rc.contractId
  | .writing candidates => Backed denotes contracts candidates
  | .flushing rows => ∀ row ∈ rows, row.1.1 ∈ contracts ∧ row.2.terms = denotes row.1.1

structure Good (denotes : String → ContractTerms) (s : ContractSystem ι) : Prop where
  contracts : ∀ cid row, s.contracts.lookup cid = some row → row.terms = denotes cid
  options : ∀ key row, s.options.lookup key = some row → key.1 ∈ s.contracts ∧ row.terms = denotes key.1
  tracked : ∀ owner, Backed denotes s.contracts (s.tracked owner)
  activities : ∀ activity ∈ s.activities, GoodActivity denotes s.contracts activity

theorem Backed.grow {held : Tracked} (backed : Backed denotes contracts held)
    (grows : ∀ cid, cid ∈ contracts → cid ∈ grown) : Backed denotes grown held :=
  fun cid rc found => ⟨(backed cid rc found).1, grows cid (backed cid rc found).2⟩

theorem GoodActivity.grow {activity : Activity ι} (good : GoodActivity denotes contracts activity)
    (grows : ∀ cid, cid ∈ contracts → cid ∈ grown) : GoodActivity denotes grown activity := by
  cases activity with
  | refreshing owner resolved => exact good
  | persisted owner resolved => exact Backed.grow good grows
  | refreshed owner current => exact Backed.grow good grows
  | polling candidates fallback => exact ⟨good.1.grow grows, good.2⟩
  | writing candidates => exact Backed.grow good grows
  | flushing rows => exact fun row listed => ⟨grows _ (good row listed).1, (good row listed).2⟩

theorem mem_persistOne (now : ℤ) (table : ContractTable) (rc : ResolvedContract) :
    cid ∈ persistOne now table rc ↔ cid = rc.contractId ∨ cid ∈ table := by
  unfold persistOne
  split
  all_goals exact Dict.mem_insert _ _ _ _

theorem mem_persist (now : ℤ) (table : ContractTable) (list : List ResolvedContract) :
    cid ∈ persist table list now ↔ cid ∈ table ∨ ∃ rc ∈ list, rc.contractId = cid := by
  induction list generalizing table with
  | nil => simp [persist]
  | cons rc list ih =>
    rw [persist, List.foldl_cons, ← persist, ih, mem_persistOne, List.exists_mem_cons_iff]
    constructor
    · intro premise
      rcases premise with (rfl | before) | later
      · exact Or.inr (Or.inl rfl)
      · exact Or.inl before
      · exact Or.inr (Or.inr later)
    · intro premise
      rcases premise with before | rfl | later
      · exact Or.inl (Or.inr before)
      · exact Or.inl (Or.inl rfl)
      · exact Or.inr later

theorem persist_terms {now : ℤ} {table : ContractTable} {list : List ResolvedContract}
    (right : ∀ cid row, table.lookup cid = some row → row.terms = denotes cid)
    (named : ∀ rc ∈ list, rc.terms = denotes rc.contractId) :
    ∀ cid row, (persist table list now).lookup cid = some row → row.terms = denotes cid := by
  induction list generalizing table with
  | nil => exact right
  | cons rc list ih =>
    rw [persist, List.foldl_cons, ← persist]
    apply ih _ fun later listed => named later (List.mem_cons_of_mem _ listed)
    intro cid row found
    unfold persistOne at found
    split at found
    · next existing there =>
      rw [Dict.lookup_insert] at found
      split at found
      · next same =>
        obtain rfl := Option.some.inj found
        exact same ▸ right _ existing there
      · exact right cid row found
    · rw [Dict.lookup_insert] at found
      split at found
      · next same =>
        obtain rfl := Option.some.inj found
        exact same ▸ named rc List.mem_cons_self
      · exact right cid row found

theorem items_named {resolved : Tracked}
    (named : ∀ cid rc, resolved.lookup cid = some rc → Named denotes cid rc) :
    ∀ rc ∈ resolved.items.map Prod.snd, rc.terms = denotes rc.contractId := by
  intro rc listed
  obtain ⟨⟨cid, rc⟩, member, rfl⟩ := List.mem_map.mp listed
  obtain ⟨rfl, terms⟩ := named cid rc (Dict.mem_items.mp member)
  exact terms

theorem persist_backed {resolved : Tracked} (now : ℤ)
    (named : ∀ cid rc, resolved.lookup cid = some rc → Named denotes cid rc) :
    Backed denotes (persist contracts (resolved.items.map Prod.snd) now) resolved := by
  intro cid rc found
  have listed : rc ∈ resolved.items.map Prod.snd := List.mem_map.mpr ⟨(cid, rc), Dict.mem_items.mpr found, rfl⟩
  exact ⟨named cid rc found, (mem_persist _ _ _).mpr (Or.inr ⟨rc, listed, (named cid rc found).1⟩)⟩

theorem resolveAll_named {mgr : ContractManager} {answers : ℕ → TickerAnswers}
    (tracked : Backed denotes contracts mgr.tracked)
    (offers : ∀ i cfg, mgr.tickers[i]? = some cfg → ∀ chain ∈ (answers i).chain, ∀ opt ∈ chain,
      Offers denotes cfg opt.expirationDate opt) :
    ∀ cid rc, (resolveAll mgr answers).lookup cid = some rc → Named denotes cid rc := by
  intro cid rc held
  obtain ⟨i, cfg, member, inside⟩ := ContractHistories.of_lookup_resolveAll held
  rcases ContractHistories.part_origin inside with ⟨kept, -⟩ | ⟨chain, offered, opt, listed, rfl, -, rfl⟩
  · exact (tracked cid rc kept).1
  · exact ⟨rfl, (offers i cfg member chain offered opt listed).symm⟩

theorem candidates_backed {list : List TickerConfig} {current : Tracked} (startDate : ℤ)
    (right : ∀ cid row, contracts.lookup cid = some row → row.terms = denotes cid)
    (backed : Backed denotes contracts current) :
    Backed denotes contracts (getBackfillCandidates list contracts current startDate) := by
  unfold getBackfillCandidates
  split
  · exact backed
  · intro cid rc held
    rw [Dict.lookup_insertAll, Option.or_eq_some_iff] at held
    rcases held with live | ⟨-, row⟩
    · exact backed cid rc live
    · obtain ⟨stored, member, same⟩ := List.mem_map.mp (Dict.mem_of_firstRow row)
      cases same
      have there := Dict.mem_items.mp (List.mem_filter.mp member).1
      exact ⟨⟨rfl, right _ _ there⟩, (Dict.mem_iff _ _).mpr ⟨_, there⟩⟩

theorem known_backed {list : List TickerConfig} {current : Tracked} (pass : PollPass) (startDate : ℤ)
    (right : ∀ cid row, contracts.lookup cid = some row → row.terms = denotes cid)
    (backed : Backed denotes contracts current) :
    Backed denotes contracts (pass.known list contracts current startDate) := by
  intro cid rc held
  rw [PollPass.known, Dict.lookup_filter, Option.filter_eq_some_iff] at held
  exact candidates_backed startDate right backed cid rc held.1

theorem fallback_named {list : List TickerConfig} {pass : PollPass}
    (offers : ∀ cfg ∈ list, cfg.ticker = pass.ticker → ∀ listed ∈ pass.chain, ∀ opt ∈ listed.2,
      Offers denotes cfg listed.1 opt) :
    ∀ rc ∈ pass.fallback list, rc.terms = denotes rc.contractId := by
  intro rc member
  unfold PollPass.fallback at member
  cases found : list.find? fun cfg => cfg.ticker = pass.ticker with
  | none =>
    rw [found] at member
    cases member
  | some cfg =>
    rw [found, Option.elim_some, filterChainForToday, List.mem_flatMap] at member
    obtain ⟨listed, today, member⟩ := member
    obtain ⟨offered, day⟩ := List.mem_filter.mp today
    obtain ⟨opt, kept, rfl⟩ := List.mem_map.mp member
    have ticker := List.find?_some found
    have denoted := offers cfg (List.mem_of_find?_eq_some found) (of_decide_eq_true ticker) listed offered opt
      (List.mem_filter.mp kept).1
    rw [of_decide_eq_true day] at denoted
    exact denoted.symm

theorem withFallback_backed {candidates : Tracked} {fallback : List ResolvedContract} (now : ℤ)
    (backed : Backed denotes contracts candidates) (named : ∀ rc ∈ fallback, rc.terms = denotes rc.contractId) :
    Backed denotes (persist contracts (newFallback candidates fallback) now) (withFallback candidates fallback) := by
  intro cid rc held
  rw [withFallback, Dict.lookup_insertAll, Option.or_eq_some_iff] at held
  rw [mem_persist]
  rcases held with known | ⟨unknown, new⟩
  · exact ⟨(backed cid rc known).1, Or.inl (backed cid rc known).2⟩
  · obtain ⟨rc, member, same⟩ := List.mem_map.mp (Dict.mem_of_firstRow new)
    cases same
    have fresh : rc ∈ newFallback candidates fallback :=
      List.mem_filter.mpr ⟨member, decide_eq_true (AList.lookup_eq_none.mp unknown)⟩
    exact ⟨⟨rfl, named rc member⟩, Or.inr ⟨rc, fresh, rfl⟩⟩

theorem backfilled_row {table : OptionTable} {candles : List Candle} {key : BarKey} {row : OptionBar1m}
    (found : (backfillOptionContract cid rc table candles).1.lookup key = some row) :
    table.lookup key = some row ∨ key.1 = cid ∧ row.terms = rc.terms := by
  obtain ⟨other, time⟩ := key
  rw [backfillOptionContract_table] at found
  by_cases same : other = cid
  · subst same
    rw [WriteLoop.writeAll_lookup, Option.or_eq_some_iff] at found
    rcases found with before | ⟨-, written⟩
    · exact Or.inl before
    · obtain ⟨candle, -, rfl⟩ := Option.map_eq_some_iff.mp written
      exact Or.inr ⟨rfl, rfl⟩
  · rw [WriteLoop.writeAll_other same] at found
    exact Or.inl found

theorem optionRows_terms {tracked : Tracked} {ready : Popped} (backed : Backed denotes contracts tracked) :
    ∀ row ∈ optionRows tracked ready, row.1.1 ∈ contracts ∧ row.2.terms = denotes row.1.1 := by
  intro row listed
  obtain ⟨popped, -, built⟩ := List.mem_filterMap.mp listed
  obtain ⟨resolved, held, rfl⟩ := Option.map_eq_some_iff.mp built
  obtain ⟨named, there⟩ := backed _ _ held
  exact ⟨there, named.2⟩

section Steps

variable (good : Good denotes s)

include good

theorem Good.goOn {task : ℕ} {next : Activity ι} (right : GoodActivity denotes s.contracts next) :
    Good denotes (s.goOn task next) where
  contracts := good.contracts
  options := good.options
  tracked := good.tracked
  activities activity listed := by
    rcases List.mem_or_eq_of_mem_set listed with before | rfl
    · exact good.activities activity before
    · exact right

theorem Good.persist {list : List ResolvedContract} (now : ℤ)
    (named : ∀ rc ∈ list, rc.terms = denotes rc.contractId) :
    Good denotes { s with contracts := persist s.contracts list now } := by
  have grows (cid : String) (there : cid ∈ s.contracts) : cid ∈ OptionsModel.persist s.contracts list now :=
    (mem_persist now s.contracts list).mpr (Or.inl there)
  exact {
    contracts := persist_terms good.contracts named
    options := fun key row found => ⟨grows _ (good.options key row found).1, (good.options key row found).2⟩
    tracked := fun owner => (good.tracked owner).grow grows
    activities := fun activity listed => (good.activities activity listed).grow grows }

theorem Good.options_written {options : OptionTable} (right : ∀ key row, options.lookup key = some row →
      s.options.lookup key = some row ∨ key.1 ∈ s.contracts ∧ row.terms = denotes key.1) :
    Good denotes { s with options := options } where
  contracts := good.contracts
  options key row found := by
    rcases right key row found with before | new
    · exact good.options key row before
    · exact new
  tracked := good.tracked
  activities := good.activities

theorem Good.erase (task : ℕ) : Good denotes { s with activities := s.activities.eraseIdx task } where
  contracts := good.contracts
  options := good.options
  tracked := good.tracked
  activities activity listed := good.activities activity (List.mem_of_mem_eraseIdx listed)

theorem Good.start {activity : Activity ι} (right : GoodActivity denotes s.contracts activity) :
    Good denotes { s with activities := s.activities ++ [activity] } where
  contracts := good.contracts
  options := good.options
  tracked := good.tracked
  activities other listed := by
    rcases List.mem_append.mp listed with before | new
    · exact good.activities other before
    · obtain rfl := List.mem_singleton.mp new
      exact right

theorem Good.assign [DecidableEq ι] {owner : ι} {resolved : Tracked} (right : Backed denotes s.contracts resolved) :
    Good denotes { s with tracked := Function.update s.tracked owner resolved } where
  contracts := good.contracts
  options := good.options
  tracked other := by
    by_cases same : other = owner
    · subst same
      simpa only [Function.update_self] using right
    · simpa only [Function.update_of_ne same] using good.tracked other
  activities := good.activities

end Steps

theorem step_good [DecidableEq ι] {action : ContractAction ι} (good : Good denotes s)
    (truthful : Truthful denotes tickers action) (taken : s.step tickers action = some t) : Good denotes t := by
  have held {task : ℕ} {activity : Activity ι} (at_ : s.activities[task]? = some activity) :
      GoodActivity denotes s.contracts activity := good.activities activity (List.mem_of_getElem? at_)
  cases action with
  | refresh owner answers =>
    cases taken
    exact good.start (resolveAll_named (good.tracked owner) truthful)
  | persist task now =>
    simp only [ContractSystem.step] at taken
    split at taken
    · next owner resolved at_ =>
      cases taken
      exact (good.persist now (items_named (held at_))).goOn (persist_backed now (held at_))
    · cases taken
  | assign task =>
    simp only [ContractSystem.step] at taken
    split at taken
    · next owner resolved at_ =>
      cases taken
      have backed : Backed denotes s.contracts resolved := held at_
      exact (good.assign backed).goOn backed
    · cases taken
  | startBackfill task startDate =>
    simp only [ContractSystem.step] at taken
    split at taken
    · next owner current at_ =>
      cases taken
      exact good.goOn (candidates_backed startDate good.contracts (held at_))
    · cases taken
  | startPoll task startDate pass =>
    simp only [ContractSystem.step] at taken
    split at taken
    · next owner current at_ =>
      cases taken
      exact good.goOn ⟨known_backed pass startDate good.contracts (held at_), fallback_named (truthful owner)⟩
    · cases taken
  | persistFallback task now =>
    simp only [ContractSystem.step] at taken
    split at taken
    · next candidates fallback at_ =>
      cases taken
      obtain ⟨backed, named⟩ := held at_
      have fresh (rc : ResolvedContract) (listed : rc ∈ newFallback candidates fallback) :=
        named rc (List.mem_of_mem_filter listed)
      exact (good.persist now fresh).goOn (withFallback_backed now backed named)
    · cases taken
  | writeContract task contractId candles =>
    simp only [ContractSystem.step] at taken
    split at taken
    · next candidates at_ =>
      obtain ⟨resolved, found, rfl⟩ := Option.map_eq_some_iff.mp taken
      obtain ⟨⟨-, terms⟩, there⟩ := held at_ contractId resolved found
      apply good.options_written
      intro key row stored
      rcases backfilled_row stored with before | ⟨rfl, same⟩
      · exact Or.inl before
      · exact Or.inr ⟨there, same.trans terms⟩
    · cases taken
  | startFlush owner ready =>
    cases taken
    exact good.start (optionRows_terms (good.tracked owner))
  | commitFlush task =>
    simp only [ContractSystem.step] at taken
    split at taken
    · next rows at_ =>
      cases taken
      refine (good.erase task).options_written fun key row stored => ?_
      rw [Dict.lookup_insertAll, Option.or_eq_some_iff] at stored
      rcases stored with before | ⟨-, new⟩
      · exact Or.inl before
      · exact Or.inr (held at_ _ (Dict.mem_of_firstRow new))
    · cases taken
  | leave task =>
    cases taken
    exact good.erase task
  | restart owner =>
    cases taken
    apply good.assign
    intro cid rc found
    cases found

/-- Every option bar repeats the columns of the row of its contract, and every tracked contract has a row. -/
theorem option_bars_agree [DecidableEq ι] (tickers : ι → List TickerConfig) (denotes : String → ContractTerms)
    (actions : List (ContractAction ι)) (truthful : ∀ action ∈ actions, Truthful denotes tickers action)
    (s : ContractSystem ι) (reached : run (ContractSystem.step tickers) {} actions = some s) :
    (∀ key row, s.options.lookup key = some row →
      ∃ contract, s.contracts.lookup key.1 = some contract ∧ row.terms = contract.terms) ∧
    ∀ owner cid, cid ∈ s.tracked owner → cid ∈ s.contracts := by
  have guarded : Guarded (ContractSystem.step tickers) (fun _ action => Truthful denotes tickers action)
      ({} : ContractSystem ι) actions := guarded_of_forall (fun action listed _ => truthful action listed) _
  have start : Good denotes ({} : ContractSystem ι) := by
    refine ⟨?_, ?_, ?_, ?_⟩
    · intro cid row found
      cases found
    · intro key row found
      cases found
    · intro owner cid rc found
      cases found
    · intro activity listed
      cases listed
  have good := run_guarded_invariant (fun _ _ _ good meets taken => step_good good meets taken) start guarded reached
  constructor
  · intro key row stored
    obtain ⟨there, terms⟩ := good.options key row stored
    obtain ⟨contract, found⟩ := (Dict.mem_iff _ _).mp there
    exact ⟨contract, found, terms.trans (good.contracts _ _ found).symm⟩
  · intro owner cid held
    obtain ⟨rc, found⟩ := (Dict.mem_iff _ _).mp held
    exact (good.tracked owner cid rc found).2

def oneBackfill : List (ContractAction Unit) :=
  [.refresh () (ContractHistories.spyCall (some [ContractHistories.spy450])).2.ticker, .persist 0 0, .assign 0,
    .startBackfill 0 20690, .writeContract 0 ".SPY450C" [{ time := some 60000 }]]

/-- One pass of the backfill, which writes one bar of the contract that it has resolved. -/
theorem option_bars_agree_backfill : ∃ s : ContractSystem Unit,
    run (ContractSystem.step fun _ => [{ ticker := "SPY" }]) {} oneBackfill = some s ∧
      (".SPY450C", 60000) ∈ s.options ∧
      ∀ key row, s.options.lookup key = some row →
        ∃ contract, s.contracts.lookup key.1 = some contract ∧ row.terms = contract.terms := by
  have truthful : ∀ action ∈ oneBackfill, Truthful (fun _ => ⟨"SPY", 20700, 450, .call⟩)
      (fun _ => [{ ticker := "SPY" }]) action := by
    intro action listed
    have either : action = .refresh () (ContractHistories.spyCall (some [ContractHistories.spy450])).2.ticker ∨
        action = .persist 0 0 ∨ action = .assign 0 ∨ action = .startBackfill 0 20690 ∨
        action = .writeContract 0 ".SPY450C" [{ time := some 60000 }] := by
      simpa only [oneBackfill, List.mem_cons, List.not_mem_nil, or_false] using listed
    rcases either with rfl | rfl | rfl | rfl | rfl
    · intro i cfg member chain answered opt offered
      obtain rfl := List.mem_singleton.mp (List.mem_of_getElem? member)
      obtain rfl := Option.mem_some_iff.mp answered
      obtain rfl := List.mem_singleton.mp offered
      rfl
    all_goals trivial
  have ends : (run (ContractSystem.step fun _ : Unit => [{ ticker := "SPY" }]) {} oneBackfill).any
      (fun s => (".SPY450C", 60000) ∈ s.options) = true := by decide +kernel
  obtain ⟨s, reached, written⟩ := (Option.any_eq_true _ _).mp ends
  exact ⟨s, reached, of_decide_eq_true written, (option_bars_agree _ _ oneBackfill truthful s reached).1⟩

end OptionsProof.ContractRows
