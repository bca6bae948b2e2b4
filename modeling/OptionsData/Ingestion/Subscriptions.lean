import OptionsData.Kit.Run
import OptionsData.Ingestion.ContractManager

namespace OptionsModel

open Kit

/-- What calls that returned have told the source about each contract since it was last tracked anew or left. -/
structure Ledger where
  quoted : Finset String := ∅
  greeked : Finset String := ∅
  /-- Contracts that have left the tracked set and not come back. -/
  left : Finset String := ∅
  released : Finset String := ∅
deriving DecidableEq

def Ledger.commit (l : Ledger) (added removed : List String) : Ledger where
  quoted := l.quoted \ added.toFinset
  greeked := l.greeked \ added.toFinset
  left := l.left \ added.toFinset ∪ removed.toFinset
  released := l.released \ removed.toFinset

structure Subscriptions where
  manager : ContractManager
  contracts : ContractTable := ∅
  underlyingTickers : List String := []
  underlyingStreamerSymbols : Dict String String := ∅
  underlyingSymbolsResolved : Bool := false
  ledger : Ledger := {}

structure CycleAnswers where
  /-- `get_underlying_streamer_symbol`; `none` stands for an exception. -/
  streamerSymbol : String → Option String := some
  refresh : RefreshAnswers
  subscribeQuotes : Await := .returns
  subscribeGreeks : Await := .returns
  unsubscribe : Await := .returns

namespace Subscriptions

def resolveUnderlyingSymbols (s : Subscriptions) (streamerSymbol : String → Option String) : Subscriptions :=
  if s.underlyingSymbolsResolved then s
  else { s with
    underlyingSymbolsResolved := true
    underlyingStreamerSymbols := Dict.assign s.underlyingStreamerSymbols
      (s.underlyingTickers.map fun ticker => (ticker, (streamerSymbol ticker).getD ticker)) }

/-- The three source calls of a cycle; each is made only when it has symbols to pass. -/
def callSource (ledger : Ledger) (allQuoteSymbols added removed : List String) (answers : CycleAnswers) :
    Await × Ledger :=
  if allQuoteSymbols ≠ [] ∧ answers.subscribeQuotes ≠ .returns then (answers.subscribeQuotes, ledger)
  else
    let ledger := { ledger with quoted := ledger.quoted ∪ allQuoteSymbols.toFinset }
    if added ≠ [] ∧ answers.subscribeGreeks ≠ .returns then (answers.subscribeGreeks, ledger)
    else
      let ledger := { ledger with greeked := ledger.greeked ∪ added.toFinset }
      if removed ≠ [] ∧ answers.unsubscribe ≠ .returns then (answers.unsubscribe, ledger)
      else (.returns, { ledger with released := ledger.released ∪ removed.toFinset })

def allQuoteSymbols (s : Subscriptions) (diff : ContractDiff) : List String :=
  diff.added.keys ++ s.underlyingStreamerSymbols.items.map Prod.snd

def refreshAndSubscribe (s : Subscriptions) (answers : CycleAnswers) : Await × Subscriptions :=
  let s := s.resolveUnderlyingSymbols answers.streamerSymbol
  match s.manager.refresh s.contracts answers.refresh with
  | none => (.raises, s)
  | some (diff, manager, contracts) =>
    let called := callSource (s.ledger.commit diff.added.keys diff.removed) (s.allQuoteSymbols diff)
      diff.added.keys diff.removed answers
    (called.1, { s with manager := manager, contracts := contracts, ledger := called.2 })

end Subscriptions

/-- `IngestionPipeline.run` between two refresh cycles. -/
structure PipelineRun where
  subscriptions : Subscriptions
  /-- `run` has awaited the first cycle and left the others to `_refresh_loop`. -/
  looping : Bool := false
  ended : Bool := false

namespace PipelineRun

def start (tickers : List TickerConfig) (underlyingTickers : List String) : PipelineRun where
  subscriptions := { manager := { tickers := tickers }, underlyingTickers := underlyingTickers }

/-- An exception of the first cycle ends the run; `_refresh_loop` logs the others and goes on. -/
def step (r : PipelineRun) (answers : CycleAnswers) : Option PipelineRun :=
  if r.ended then none
  else
    let cycle := r.subscriptions.refreshAndSubscribe answers
    some {
      subscriptions := cycle.2
      looping := true
      ended := cycle.1 = .cancelled || cycle.1 = .raises && !r.looping }

end PipelineRun

end OptionsModel

namespace OptionsProof.Subscriptions

open Kit OptionsModel OptionsModel.Subscriptions OptionsModel.PipelineRun

def ServedBy (tracked : Tracked) (ledger : Ledger) : Prop :=
  (∀ cid ∈ tracked, cid ∈ ledger.quoted ∧ cid ∈ ledger.greeked) ∧ ∀ cid ∈ ledger.left, cid ∈ ledger.released

def Served (s : Subscriptions) : Prop := ServedBy s.manager.tracked s.ledger

def CallsReturn (answers : CycleAnswers) (quoteSymbols added removed : List String) : Prop :=
  (quoteSymbols ≠ [] → answers.subscribeQuotes = .returns) ∧ (added ≠ [] → answers.subscribeGreeks = .returns) ∧
    (removed ≠ [] → answers.unsubscribe = .returns)

/-- A cycle whose refresh changes the tracked set meets no source call that raises. -/
def ChangesServed (s : Subscriptions) (answers : CycleAnswers) : Prop :=
  let s := s.resolveUnderlyingSymbols answers.streamerSymbol
  ∀ outcome ∈ s.manager.refresh s.contracts answers.refresh,
    outcome.1.added.keys = [] ∧ outcome.1.removed = [] ∨
      CallsReturn answers (s.allQuoteSymbols outcome.1) outcome.1.added.keys outcome.1.removed

theorem callSource_returns {ledger : Ledger} {symbols added removed : List String} {answers : CycleAnswers}
    (returns : CallsReturn answers symbols added removed) :
    (callSource ledger symbols added removed answers).2 =
      { quoted := ledger.quoted ∪ symbols.toFinset
        greeked := ledger.greeked ∪ added.toFinset
        left := ledger.left
        released := ledger.released ∪ removed.toFinset } := by
  rcases returns with ⟨quotes, greeks, releases⟩
  unfold callSource
  rw [if_neg fun bad => bad.2 (quotes bad.1), if_neg fun bad => bad.2 (greeks bad.1),
    if_neg fun bad => bad.2 (releases bad.1)]

theorem callSource_callsReturn {ledger : Ledger} {symbols added removed : List String} {answers : CycleAnswers}
    (returned : (callSource ledger symbols added removed answers).1 = .returns) :
    CallsReturn answers symbols added removed := by
  unfold callSource at returned
  dsimp only at returned
  split at returned
  · next bad => exact absurd returned bad.2
  · next quotes =>
    split at returned
    · next bad => exact absurd returned bad.2
    · next greeks =>
      split at returned
      · next bad => exact absurd returned bad.2
      · next releases =>
        exact ⟨fun some => of_not_not fun bad => quotes ⟨some, bad⟩, fun some => of_not_not fun bad => greeks ⟨some, bad⟩,
          fun some => of_not_not fun bad => releases ⟨some, bad⟩⟩

theorem callSource_unchanged (ledger : Ledger) (symbols : List String) (answers : CycleAnswers) :
    ∃ quoted, ledger.quoted ⊆ quoted ∧
      (callSource ledger symbols [] [] answers).2 = { ledger with quoted := quoted } := by
  unfold callSource
  split
  · exact ⟨ledger.quoted, subset_rfl, rfl⟩
  · exact ⟨ledger.quoted ∪ symbols.toFinset, Finset.subset_union_left, by simp⟩

theorem commit_nothing (ledger : Ledger) : ledger.commit [] [] = ledger := by
  simp [Ledger.commit]

theorem ServedBy.callSource {mgr : ContractManager} {ledger : Ledger} {resolved : Tracked} {symbols : List String}
    {answers : CycleAnswers} (served : ServedBy mgr.tracked ledger)
    (listed : ∀ cid ∈ (mgr.diff resolved).added.keys, cid ∈ symbols)
    (good : (mgr.diff resolved).added.keys = [] ∧ (mgr.diff resolved).removed = [] ∨
      CallsReturn answers symbols (mgr.diff resolved).added.keys (mgr.diff resolved).removed) :
    ServedBy resolved (callSource (ledger.commit (mgr.diff resolved).added.keys (mgr.diff resolved).removed) symbols
      (mgr.diff resolved).added.keys (mgr.diff resolved).removed answers).2 := by
  rcases served with ⟨kept, gone⟩
  have anew (cid : String) (tracked : cid ∈ resolved) : cid ∈ (mgr.diff resolved).added.keys ∨
      cid ∉ (mgr.diff resolved).added.keys ∧ cid ∈ ledger.quoted ∧ cid ∈ ledger.greeked := by
    rw [← AList.mem_keys, mem_added]
    by_cases before : cid ∈ mgr.tracked
    · exact .inr ⟨fun new => new.2 before, kept cid before⟩
    · exact .inl ⟨tracked, before⟩
  rcases good with ⟨nobody, nothing⟩ | returns
  · rw [nobody] at anew
    rw [nobody, nothing, commit_nothing]
    obtain ⟨quoted, grown, same⟩ := callSource_unchanged ledger symbols answers
    rw [same]
    refine ⟨fun cid tracked => ?_, gone⟩
    obtain ⟨-, quotes, greeks⟩ := (anew cid tracked).resolve_left List.not_mem_nil
    exact ⟨grown quotes, greeks⟩
  · rw [callSource_returns returns]
    refine ⟨fun cid tracked => ?_, fun cid lost => ?_⟩
    · rcases anew cid tracked with new | ⟨old, quotes, greeks⟩
      · simp [new, listed cid new]
      · simp [Ledger.commit, old, quotes, greeks]
    · simp only [Ledger.commit, Finset.mem_union, Finset.mem_sdiff, List.mem_toFinset] at lost ⊢
      rcases lost with ⟨before, -⟩ | removed
      · by_cases removed : cid ∈ (mgr.diff resolved).removed
        · exact .inr removed
        · exact .inl ⟨gone cid before, removed⟩
      · exact .inr removed

theorem resolve_frame (s : Subscriptions) (streamerSymbol : String → Option String) :
    (s.resolveUnderlyingSymbols streamerSymbol).manager = s.manager ∧
      (s.resolveUnderlyingSymbols streamerSymbol).ledger = s.ledger := by
  unfold resolveUnderlyingSymbols
  split <;> exact ⟨rfl, rfl⟩

theorem Served.cycle {s : Subscriptions} {answers : CycleAnswers} (served : Served s)
    (good : ChangesServed s answers) : Served (s.refreshAndSubscribe answers).2 := by
  obtain ⟨manager, ledger⟩ := resolve_frame s answers.streamerSymbol
  have served' : Served (s.resolveUnderlyingSymbols answers.streamerSymbol) := by
    rw [Served, manager, ledger]
    exact served
  unfold refreshAndSubscribe
  dsimp only
  split
  · exact served'
  · next diff next contracts refreshed =>
    have guard := good _ refreshed
    obtain ⟨-, change⟩ := refresh_cases refreshed
    subst change
    exact served'.callSource (fun cid new => List.mem_append_left _ new) guard

theorem changesServed_of_returns {s : Subscriptions} {answers : CycleAnswers}
    (returned : (s.refreshAndSubscribe answers).1 = .returns) : ChangesServed s answers := by
  unfold refreshAndSubscribe at returned
  dsimp only at returned
  split at returned
  · cases returned
  · next diff next contracts refreshed =>
    intro outcome same
    rw [refreshed] at same
    cases same
    exact .inr (callSource_callsReturn returned)

theorem step_served {r t : PipelineRun} {answers : CycleAnswers}
    (served : r.ended = false → Served r.subscriptions)
    (good : r.looping = true → ChangesServed r.subscriptions answers) (taken : r.step answers = some t)
    (going : t.ended = false) : Served t.subscriptions := by
  unfold PipelineRun.step at taken
  split at taken
  · cases taken
  · next alive =>
    cases taken
    apply Served.cycle (served (Bool.not_eq_true _ ▸ alive))
    cases looping : r.looping with
    | true => exact good looping
    | false =>
      apply changesServed_of_returns
      rw [looping] at going
      cases outcome : (r.subscriptions.refreshAndSubscribe answers).1 with
      | returns => rfl
      | raises => simp [outcome] at going
      | cancelled => simp [outcome] at going

/-- As long as no cycle of the refresh loop that changes the tracked set meets a source call that fails, every tracked
contract is subscribed to and every contract that has left is unsubscribed, after every cycle that does not end the
run. -/
theorem tracked_subscribed {tickers : List TickerConfig} {underlyingTickers : List String}
    {cycles : List CycleAnswers} {r : PipelineRun}
    (guarded : Guarded step (fun r answers => r.looping = true → ChangesServed r.subscriptions answers)
      (start tickers underlyingTickers) cycles)
    (reached : run step (start tickers underlyingTickers) cycles = some r) (going : r.ended = false) :
    Served r.subscriptions := by
  have first : (start tickers underlyingTickers).ended = false →
      Served (start tickers underlyingTickers).subscriptions :=
    fun _ => ⟨fun _ tracked => absurd tracked (AList.notMem_empty _),
      fun _ lost => absurd lost (Finset.notMem_empty _)⟩
  exact run_guarded_invariant (fun _ _ _ served good taken => step_served served good taken) first guarded reached going

def spx : TickerConfig := { ticker := "SPX" }

def answersOf (chain : List ChainOption) : RefreshAnswers where
  ticker _ :=
    { chain := some chain
      snapshot := fun _ => some (Dict.assign ∅ [("C1", some (.val (1 / 2)))]) }
  persists := true
  now := 0

def noChain : RefreshAnswers := answersOf []

def oneCall : RefreshAnswers := answersOf [⟨"C1", 20000, 6000, "C", none, some 0⟩]

/-- The contract appears in the second cycle, whose quote subscription raises; the third has nothing new. -/
theorem lostDiff_unserved :
    ¬ ∀ (tickers : List TickerConfig) (underlyingTickers : List String) (past : List CycleAnswers)
      (answers : CycleAnswers) (r : PipelineRun),
      run step (start tickers underlyingTickers) past = some r → r.ended = false →
      (r.subscriptions.refreshAndSubscribe answers).1 = .returns →
      Served (r.subscriptions.refreshAndSubscribe answers).2 := by
  intro serves
  have served := (serves [spx] [] [{ refresh := noChain }, { refresh := oneCall, subscribeQuotes := .raises }]
    { refresh := oneCall } _ rfl (by decide +kernel) (by decide +kernel)).1 "C1" (by decide +kernel)
  revert served
  decide +kernel

theorem tracked_subscribed_twice :
    ∃ r, run step (start [spx] ["SPX"]) [{ refresh := noChain }, { refresh := oneCall }] = some r ∧
      Served r.subscriptions :=
  have guarded : Guarded step (fun r answers => r.looping = true → ChangesServed r.subscriptions answers)
      (start [spx] ["SPX"]) [{ refresh := noChain }, { refresh := oneCall }] :=
    ⟨fun early => absurd early Bool.false_ne_true, fun _ taken => ⟨fun _ _ _ => .inr (by
      cases taken
      exact ⟨fun _ => rfl, fun _ => rfl, fun _ => rfl⟩), fun _ _ => trivial⟩⟩
  ⟨_, rfl, tracked_subscribed guarded rfl (by decide +kernel)⟩

end OptionsProof.Subscriptions
