import OptionsData.Ingestion.ContractRows

namespace OptionsProof.PolledContracts

open Kit OptionsModel OptionsProof.ContractRows

variable {z : Zone} {call : PollCall} {polled : Polled} {cid : String} {row : ContractRow}

/-- A persisted contract of the ticker that expires on the Eastern day of the call. -/
structure Due (z : Zone) (call : PollCall) (cid : String) (row : ContractRow) : Prop where
  stored : call.contracts.lookup cid = some row
  ticker : row.underlyingTicker = call.ticker
  today : row.expirationDate = easternToday z call.now.instant

def fallbackOf (z : Zone) (call : PollCall) : List ResolvedContract :=
  (pollPass z call.underlyings call.ticker call.now.instant call.strikeWindowPct (call.chain.getD [])).fallback
    call.mgr.tickers

def resolvedIn (call : PollCall) : Tracked := resolveAll call.mgr call.refresh.ticker

/-- The chain lists the contract, it is resolved live as what its row says, or its row is left to the query, which asks
for the day of the call in its own zone. -/
def Reached (z : Zone) (call : PollCall) (cid : String) : Prop :=
  (∃ rc ∈ fallbackOf z call, rc.contractId = cid) ∨
    ((resolvedIn call).lookup cid).elim (call.now.day ≤ easternToday z call.now.instant) fun rc =>
      rc.underlyingTicker = call.ticker ∧ rc.expirationDate = easternToday z call.now.instant

theorem persistOne_keeps (now : ℤ) {table : ContractTable} (rc : ResolvedContract)
    (found : table.lookup cid = some row) :
    ∃ kept, (persistOne now table rc).lookup cid = some kept ∧ kept.terms = row.terms := by
  unfold persistOne
  split
  · next existing there =>
    rw [Dict.lookup_insert]
    split
    · next same =>
      subst same
      obtain rfl := Option.some.inj (there.symm.trans found)
      exact ⟨_, rfl, rfl⟩
    · exact ⟨row, found, rfl⟩
  · next absent =>
    rw [Dict.lookup_insert]
    split
    · next same =>
      subst same
      cases absent.symm.trans found
    · exact ⟨row, found, rfl⟩

theorem persist_keeps (now : ℤ) {table : ContractTable} (list : List ResolvedContract)
    (found : table.lookup cid = some row) :
    ∃ kept, (persist table list now).lookup cid = some kept ∧ kept.terms = row.terms := by
  induction list generalizing table row with
  | nil => exact ⟨row, found, rfl⟩
  | cons rc list ih =>
    obtain ⟨next, there, same⟩ := persistOne_keeps now rc found
    obtain ⟨kept, held, equal⟩ := ih there
    exact ⟨kept, held, equal.trans same⟩

theorem lookup_candidates {tickers : List TickerConfig} (nonempty : tickers ≠ []) (contracts : ContractTable)
    (current : Tracked) (startDate : ℤ) (cid : String) :
    (getBackfillCandidates tickers contracts current startDate).lookup cid = (current.lookup cid).or
      (((contracts.lookup cid).filter fun row =>
        decide (row.underlyingTicker ∈ tickers.map TickerConfig.ticker ∧ startDate ≤ row.expirationDate)).map
        fun row => resolvedRow (cid, row)) := by
  rw [getBackfillCandidates, if_neg nonempty, Dict.lookup_insertAll, Dict.firstRow_select]

theorem mem_known {pass : PollPass} {tickers : List TickerConfig} {contracts : ContractTable} {current : Tracked}
    {startDate : ℤ} (configured : pass.ticker ∈ tickers.map TickerConfig.ticker)
    (stored : contracts.lookup cid = some row) (ticker : row.underlyingTicker = pass.ticker)
    (today : row.expirationDate = pass.today) : cid ∈ pass.known tickers contracts current startDate ↔
      (current.lookup cid).elim (startDate ≤ pass.today) fun rc =>
        rc.underlyingTicker = pass.ticker ∧ rc.expirationDate = pass.today := by
  have nonempty : tickers ≠ [] := by
    intro empty
    rw [empty] at configured
    cases configured
  rw [Dict.mem_iff, PollPass.known]
  simp only [Dict.lookup_filter, lookup_candidates nonempty, stored, Option.filter_eq_some_iff]
  cases live : current.lookup cid with
  | some rc => simp
  | none =>
    rw [Option.none_or, Option.elim_none]
    by_cases early : startDate ≤ pass.today
    · simp [Option.filter, resolvedRow, ticker, today, early, List.mem_map.mp configured]
    · simp [Option.filter, today, early]

theorem pollTicker_cases (done : call.pollTicker z = some polled)
    (configured : call.ticker ∈ call.mgr.tickers.map TickerConfig.ticker) :
    polled.attempted = withFallback
      ((pollPass z call.underlyings call.ticker call.now.instant call.strikeWindowPct (call.chain.getD [])).known
        call.mgr.tickers (persist call.contracts ((resolvedIn call).items.map Prod.snd) call.refresh.now)
        (resolvedIn call) call.now.day)
      (fallbackOf z call) := by
  obtain ⟨⟨diff, mgr, contracts⟩, refreshed, pass⟩ := Option.bind_eq_some_iff.mp done
  have known : mgr.tickers.any (fun cfg => cfg.ticker = call.ticker) = true ∧ mgr.tickers = call.mgr.tickers ∧
      diff.current = resolvedIn call ∧
      contracts = persist call.contracts ((resolvedIn call).items.map Prod.snd) call.refresh.now := by
    unfold ContractManager.refresh at refreshed
    dsimp only at refreshed
    split at refreshed
    · cases refreshed
    · cases refreshed
      obtain ⟨cfg, member, same⟩ := List.mem_map.mp configured
      exact ⟨List.any_eq_true.mpr ⟨cfg, member, decide_eq_true same⟩, rfl, rfl, rfl⟩
  obtain ⟨found, tickers, current, written⟩ := known
  dsimp only at pass
  rw [if_pos found, tickers, current, written] at pass
  obtain ⟨chain, answered, rfl⟩ := Option.map_eq_some_iff.mp pass
  rw [fallbackOf, answered, Option.getD_some]

theorem attempted_iff (done : call.pollTicker z = some polled)
    (configured : call.ticker ∈ call.mgr.tickers.map TickerConfig.ticker) (due : Due z call cid row) :
    cid ∈ polled.attempted ↔ Reached z call cid := by
  obtain ⟨kept, stored, same⟩ := persist_keeps call.refresh.now ((resolvedIn call).items.map Prod.snd) due.stored
  have ticker : kept.underlyingTicker = call.ticker :=
    (congrArg ContractTerms.underlyingTicker same).trans due.ticker
  have today : kept.expirationDate = easternToday z call.now.instant :=
    (congrArg ContractTerms.expirationDate same).trans due.today
  rw [pollTicker_cases done configured, withFallback, Dict.mem_insertAll, mem_known configured stored ticker today,
    List.map_map, or_comm, List.mem_map]
  rfl

theorem polls_due_iff (z : Zone) (call : PollCall) (configured : call.ticker ∈ call.mgr.tickers.map TickerConfig.ticker) :
    ∀ polled ∈ call.pollTicker z,
      (∀ cid row, Due z call cid row → cid ∈ polled.attempted) ↔ ∀ cid row, Due z call cid row → Reached z call cid := by
  intro polled done
  exact forall₂_congr fun cid row => imp_congr_right fun due => attempted_iff done configured due

/-- Nothing is resolved live as another contract than the row of its symbol says. -/
def Agreeing (call : PollCall) : Prop :=
  ∀ cid row rc, call.contracts.lookup cid = some row → (resolvedIn call).lookup cid = some rc → rc.terms = row.terms

def oneRow (ticker : String) (cid : String) (row : ContractRow) (now : AwareTime) : PollCall where
  mgr := { tickers := [{ ticker := ticker }] }
  contracts := Dict.assign ∅ [(cid, row)]
  underlyings := ∅
  ticker := ticker
  now := now
  strikeWindowPct := 5
  refresh := { ticker := fun _ => ⟨some [], fun _ => none⟩, persists := true, now := now.instant }
  chain := some []
  persistedAt := now.instant

theorem oneRow_polls (ticker cid : String) (row : ContractRow) (now : AwareTime) :
    ∃ polled, (oneRow ticker cid row now).pollTicker z = some polled := by
  rw [PollCall.pollTicker]
  have refreshed : (oneRow ticker cid row now).mgr.refresh (oneRow ticker cid row now).contracts
      (oneRow ticker cid row now).refresh =
        some (⟨∅, [], ∅⟩, (oneRow ticker cid row now).mgr, (oneRow ticker cid row now).contracts) := rfl
  rw [refreshed, Option.bind_some]
  simp [oneRow]

theorem polls_always_iff (z : Zone) (now : AwareTime) :
    (∀ call polled, call.now = now → call.ticker ∈ call.mgr.tickers.map TickerConfig.ticker → Agreeing call →
      call.pollTicker z = some polled → ∀ cid row, Due z call cid row → cid ∈ polled.attempted) ↔
      now.day ≤ easternToday z now.instant := by
  constructor
  · intro all
    let row : ContractRow := ⟨"NDX", easternToday z now.instant, 25000, .call, some .pm, 0, 0⟩
    have configured : (oneRow "NDX" ".NDXP" row now).ticker ∈
        (oneRow "NDX" ".NDXP" row now).mgr.tickers.map TickerConfig.ticker := List.mem_singleton_self _
    have due : Due z (oneRow "NDX" ".NDXP" row now) ".NDXP" row := ⟨rfl, rfl, rfl⟩
    obtain ⟨polled, done⟩ := oneRow_polls (z := z) "NDX" ".NDXP" row now
    have attempted := all _ polled rfl configured (fun _ _ _ _ impossible => by cases impossible) done _ _ due
    rcases (attempted_iff done configured due).mp attempted with listed | early
    · obtain ⟨rc, impossible, -⟩ := listed
      cases impossible
    · exact early
  · intro early call polled same configured agreeing done cid row due
    subst same
    refine (attempted_iff done configured due).mpr (Or.inr ?_)
    cases live : (resolvedIn call).lookup cid with
    | none => exact early
    | some rc =>
      have terms := agreeing cid row rc due.stored live
      exact ⟨(congrArg ContractTerms.underlyingTicker terms).trans due.ticker,
        (congrArg ContractTerms.expirationDate terms).trans due.today⟩

def ndxRow : ContractRow := ⟨"NDX", 20467, 25000, .call, some .pm, 0, 0⟩

theorem polls_due_iff_morning :
    ∃ polled ∈ (oneRow "NDX" ".NDXP260114C25000" ndxRow ⟨1768402800000000, 0, by decide⟩).pollTicker
      GapDetection.standardTime, ".NDXP260114C25000" ∈ polled.attempted := by
  set call := oneRow "NDX" ".NDXP260114C25000" ndxRow ⟨1768402800000000, 0, by decide⟩
  obtain ⟨polled, done⟩ := oneRow_polls (z := GapDetection.standardTime) "NDX" ".NDXP260114C25000" ndxRow
    ⟨1768402800000000, 0, by decide⟩
  have due : Due GapDetection.standardTime call ".NDXP260114C25000" ndxRow := ⟨rfl, rfl, by decide⟩
  have polls := polls_due_iff GapDetection.standardTime call (List.mem_singleton_self _) polled done
  refine ⟨polled, done, polls.mpr (fun cid row _ => Or.inr ?_) _ _ due⟩
  show (1768402800000000 + 0) / DAY ≤ (1768402800000000 + -18000000000) / DAY
  decide

/-- At half past seven in the evening in New York it is the next day in UTC. -/
theorem evening_poll_misses :
    ¬ ∀ z call polled, call.ticker ∈ call.mgr.tickers.map TickerConfig.ticker → call.pollTicker z = some polled →
      ∀ cid row, Due z call cid row → cid ∈ polled.attempted := by
  intro all
  let call := oneRow "NDX" ".NDXP260114C25000" ndxRow ⟨1768437000000000, 0, by decide⟩
  obtain ⟨polled, done⟩ := oneRow_polls (z := GapDetection.standardTime) "NDX" ".NDXP260114C25000" ndxRow
    ⟨1768437000000000, 0, by decide⟩
  have due : Due GapDetection.standardTime call ".NDXP260114C25000" ndxRow := ⟨rfl, rfl, by decide⟩
  have attempted := all GapDetection.standardTime call polled (List.mem_singleton_self _) done _ _ due
  rcases (attempted_iff done (List.mem_singleton_self _) due).mp attempted with listed | early
  · obtain ⟨rc, impossible, -⟩ := listed
    cases impossible
  · revert early
    show ¬ (1768437000000000 + 0) / DAY ≤ (1768437000000000 + -18000000000) / DAY
    decide

end OptionsProof.PolledContracts
