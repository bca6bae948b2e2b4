import OptionsData.Kit.Run
import OptionsData.Ingestion.CandleWriter

namespace OptionsModel

open Kit

def latestBarTime (table : UnderlyingTable) (ticker : String) : Option ℤ := latestBar table ticker

/-- Where `catch_up_ticker` starts, in microseconds: the newest bar, but no earlier than the lookback. -/
def catchUpStart (now lookback : ℤ) (latest : Option ℤ) : ℤ :=
  latest.elim (now - lookback) fun latest => max (latest * 1000) (now - lookback)

structure CatchUp where
  remaining : List String
  requesting : Option String := none
  requests : List (String × ℤ) := []
  table : UnderlyingTable

namespace CatchUp

inductive Action where
  /-- The newest bar of the next ticker is read, and its request issued unless it is current. -/
  | read
  /-- The request returns and its candles are written; `none` stands for an exception on the way. -/
  | answer (candles : Option (List Candle))
  | flush (rows : List (BarKey × UnderlyingBar1m))

def step (now lookback : ℤ) (s : CatchUp) : Action → Option CatchUp
  | .read => match s.requesting, s.remaining with
    | none, ticker :: remaining =>
      let start := catchUpStart now lookback (latestBarTime s.table ticker)
      if now - start < 60000000 then some { s with remaining := remaining }
      else some { s with
        remaining := remaining
        requesting := some ticker
        requests := s.requests ++ [(ticker, start)] }
    | _, _ => none
  | .answer candles => match s.requesting with
    | some ticker =>
      some { s with
        requesting := none
        table := candles.elim s.table fun candles => (pollTicker ticker s.table candles).1 }
    | none => none
  | .flush rows => some { s with table := s.table.insertAll rows }

end CatchUp

end OptionsModel

namespace OptionsProof.CatchUp

open Kit OptionsModel OptionsModel.CatchUp

theorem latestBarTime_le {table : UnderlyingTable} {ticker : String} {bound : ℤ} :
    (∀ latest ∈ latestBarTime table ticker, latest * 1000 ≤ bound) ↔
      ∀ barTime, (ticker, barTime) ∈ table → barTime * 1000 ≤ bound := by
  have whole (time : ℤ) : time * 1000 ≤ bound ↔ time ≤ bound / 1000 := by omega
  simp only [whole]
  exact latestBar_le

theorem catchUpStart_le {now lookback bound : ℤ} {table : UnderlyingTable} {ticker : String} :
    catchUpStart now lookback (latestBarTime table ticker) ≤ bound ↔
      now - lookback ≤ bound ∧ ∀ barTime, (ticker, barTime) ∈ table → barTime * 1000 ≤ bound := by
  rw [← latestBarTime_le]
  cases latestBarTime table ticker with
  | none => simp [catchUpStart]
  | some latest => simp [catchUpStart, and_comm]

def issued (now lookback : ℤ) (s : CatchUp) : Option (String × ℤ) :=
  s.remaining.head?.bind fun ticker =>
    let start := catchUpStart now lookback (latestBarTime s.table ticker)
    if now - start < 60000000 then none else some (ticker, start)

theorem read_requests {now lookback : ℤ} {s t : CatchUp} (taken : step now lookback s .read = some t) :
    t.requests = s.requests ++ (issued now lookback s).toList := by
  rw [CatchUp.step] at taken
  split at taken
  · next ticker remaining _ queued =>
    dsimp only at taken
    by_cases current : now - catchUpStart now lookback (latestBarTime s.table ticker) < 60000000
    · rw [if_pos current] at taken
      cases taken
      simp [issued, queued, current]
    · rw [if_neg current] at taken
      cases taken
      simp [issued, queued, current]
  · cases taken

theorem other_requests {now lookback : ℤ} {s t : CatchUp} {a : Action} (other : a ≠ .read)
    (taken : step now lookback s a = some t) : t.requests = s.requests := by
  cases a with
  | read => exact absurd rfl other
  | answer candles =>
    rw [CatchUp.step] at taken
    split at taken <;> cases taken
    rfl
  | flush rows =>
    cases taken
    rfl

theorem requests_iff {now lookback : ℤ} {s t : CatchUp} {actions : List Action} (fresh : s.requests = [])
    (reached : run (step now lookback) s actions = some t) (request : String × ℤ) :
    request ∈ t.requests ↔ ∃ past rest u, actions = past ++ .read :: rest ∧
      run (step now lookback) s past = some u ∧ issued now lookback u = some request := by
  let holds (past : List Action) (u : CatchUp) : Prop := run (step now lookback) s past = some u ∧
    (request ∈ u.requests ↔ ∃ first rest v, past = first ++ .read :: rest ∧
      run (step now lookback) s first = some v ∧ issued now lookback v = some request)
  have initial : holds [] s := ⟨rfl, by simp [fresh]⟩
  have keep (past : List Action) (u : CatchUp) (a : Action) (v : CatchUp) (kept : holds past u)
      (taken : step now lookback u a = some v) : holds (past ++ [a]) v := by
    rcases kept with ⟨before, logged⟩
    refine ⟨run_concat_some.mpr ⟨u, before, taken⟩, ?_⟩
    have earlier : (∃ first rest w, past ++ [a] = first ++ .read :: rest ∧
        run (step now lookback) s first = some w ∧ issued now lookback w = some request) ↔
        request ∈ u.requests ∨ a = .read ∧ issued now lookback u = some request := by
      rw [logged]
      constructor
      · intro premise
        rcases premise with ⟨first, rest, w, split, started, made⟩
        rcases concat_eq_append_cons.mp split with ⟨rfl, rfl, rfl⟩ | ⟨rest', rfl, rfl⟩
        · cases before.symm.trans started
          exact .inr ⟨rfl, made⟩
        · exact .inl ⟨first, rest', w, rfl, started, made⟩
      · intro premise
        rcases premise with ⟨first, rest, w, rfl, started, made⟩ | ⟨rfl, made⟩
        · exact ⟨first, rest ++ [a], w, by simp, started, made⟩
        · exact ⟨past, [], u, rfl, before, made⟩
    rw [earlier]
    by_cases reads : a = .read
    · subst reads
      rw [read_requests taken, List.mem_append, Option.mem_toList]
      simp
    · rw [other_requests reads taken]
      simp [reads]
  exact (run_history initial keep reached).2

/-- A ticker with a gap of a minute gets a request that covers the gap exactly when, at a turn of the ticker, no
bar newer than the start of the gap has been stored for it. -/
theorem catch_up_covers_iff {now lookback : ℤ} {tickers : List String} {table : UnderlyingTable}
    {actions : List Action} {s : CatchUp} {ticker : String} {base : ℤ}
    (gapStart : base = catchUpStart now lookback (latestBarTime table ticker)) (gap : 60000000 ≤ now - base)
    (reached : run (step now lookback) { remaining := tickers, table := table } actions = some s) :
    (∃ start ≤ base, (ticker, start) ∈ s.requests) ↔
      ∃ past rest u, actions = past ++ .read :: rest ∧
        run (step now lookback) { remaining := tickers, table := table } past = some u ∧
        u.remaining.head? = some ticker ∧ ∀ barTime, (ticker, barTime) ∈ u.table → barTime * 1000 ≤ base := by
  have floor : now - lookback ≤ base := (catchUpStart_le.mp gapStart.ge).1
  constructor
  · intro premise
    rcases premise with ⟨start, early, logged⟩
    obtain ⟨past, rest, u, split, before, made⟩ := (requests_iff rfl reached _).mp logged
    obtain ⟨head, turn, made⟩ := Option.bind_eq_some_iff.mp made
    obtain ⟨-, same⟩ := Option.ite_none_left_eq_some.mp made
    cases same
    exact ⟨past, rest, u, split, before, turn, (catchUpStart_le.mp early).2⟩
  · intro premise
    rcases premise with ⟨past, rest, u, split, before, turn, rows⟩
    have early : catchUpStart now lookback (latestBarTime u.table ticker) ≤ base :=
      catchUpStart_le.mpr ⟨floor, rows⟩
    refine ⟨_, early, (requests_iff rfl reached _).mpr ⟨past, rest, u, split, before, ?_⟩⟩
    have due : ¬ now - catchUpStart now lookback (latestBarTime u.table ticker) < 60000000 := by omega
    rw [issued, turn, Option.bind_some, if_neg due]

def storedBefore : UnderlyingTable := Dict.assign ∅ [(("VIX", 0), {}), (("NDX", 0), {})]

def overtaken : List Action := [.read, .flush [(("NDX", 3540000), {})], .answer none, .read]

theorem overtaken_uncovered :
    ¬ ∀ (now lookback : ℤ) (tickers : List String) (table : UnderlyingTable) (actions : List Action) (s : CatchUp),
      run (step now lookback) { remaining := tickers, table := table } actions = some s → s.remaining = [] →
      ∀ ticker ∈ tickers, 60000000 ≤ now - catchUpStart now lookback (latestBarTime table ticker) →
        ∃ start ≤ catchUpStart now lookback (latestBarTime table ticker), (ticker, start) ∈ s.requests := by
  intro covers
  obtain ⟨s, reached⟩ : ∃ s, run (step 3600000000 28800000000)
      { remaining := ["VIX", "NDX"], table := storedBefore } overtaken = some s :=
    Option.isSome_iff_exists.mp (by decide +kernel)
  have logged : (run (step 3600000000 28800000000) { remaining := ["VIX", "NDX"], table := storedBefore }
      overtaken).map (fun s => (s.remaining, s.requests)) = some ([], [("VIX", 0), ("NDX", 3540000000)]) := by
    decide +kernel
  rw [reached, Option.map_some, Option.some_inj, Prod.mk.injEq] at logged
  obtain ⟨start, early, member⟩ := covers 3600000000 28800000000 ["VIX", "NDX"] storedBefore overtaken s reached
    logged.1 "NDX" (by decide) (by decide +kernel)
  have bound : catchUpStart 3600000000 28800000000 (latestBarTime storedBefore "NDX") = 0 := by decide +kernel
  rw [logged.2] at member
  simp at member
  omega

theorem catch_up_covers_first :
    ∃ s, run (step 3600000000 28800000000) { remaining := ["VIX", "NDX"], table := storedBefore } overtaken = some s ∧
      ∃ start ≤ 0, ("VIX", start) ∈ s.requests := by
  obtain ⟨s, reached⟩ : ∃ s, run (step 3600000000 28800000000)
      { remaining := ["VIX", "NDX"], table := storedBefore } overtaken = some s :=
    Option.isSome_iff_exists.mp (by decide +kernel)
  refine ⟨s, reached, (catch_up_covers_iff (by decide +kernel) (by decide) reached).mpr
    ⟨[], _, _, rfl, rfl, rfl, latestBarTime_le.mp ?_⟩⟩
  decide +kernel

end OptionsProof.CatchUp
