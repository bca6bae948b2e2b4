import OptionsData.Ingestion.GapDetection
import OptionsData.Ingestion.BackfillJob

namespace OptionsModel

open Kit

def easternToday (z : Zone) (now : ℤ) : ℤ := date (z.wall now)

def resolvedRow (row : String × ContractRow) : ResolvedContract where
  contractId := row.1
  underlyingTicker := row.2.underlyingTicker
  expirationDate := row.2.expirationDate
  strike := row.2.strike
  right := row.2.right
  settlementType := row.2.settlementType

/-- `_get_backfill_candidates`; what is resolved live wins over the rows. -/
def getBackfillCandidates (tickers : List TickerConfig) (contracts : ContractTable) (liveResolved : Tracked)
    (startDate : ℤ) : Tracked :=
  if tickers = [] then liveResolved
  else
    let rows := contracts.items.filter fun row =>
      row.2.underlyingTicker ∈ tickers.map TickerConfig.ticker ∧ startDate ≤ row.2.expirationDate
    Dict.insertAll liveResolved (rows.map fun row => (row.1, resolvedRow row))

def lastUnderlyingClose (table : UnderlyingTable) (ticker : String) : Option Number :=
  (latestBar table ticker).bind fun time => (table.lookup (ticker, time)).bind UnderlyingBar1m.close

/-- Without a positive price there is no window, and every strike is in. -/
def inStrikeWindow (spot : Option Number) (strikeWindowPct strike : ℚ) : Bool :=
  match spot with
  | some (.val spot) => !(0 < spot) ||
      (spot - spot * strikeWindowPct / 100 ≤ strike && strike ≤ spot + spot * strikeWindowPct / 100)
  | _ => true

/-- `chain` has the options of each expiration. -/
def filterChainForToday (chain : List (ℤ × List ChainOption)) (cfg : TickerConfig) (day : ℤ) (spot : Option Number)
    (strikeWindowPct : ℚ) : List ResolvedContract :=
  (chain.filter fun listed => listed.1 = day).flatMap fun listed =>
    let kept := listed.2.filter fun opt =>
      isCandidate cfg opt && inStrikeWindow spot strikeWindowPct opt.strikePrice
    kept.map fun opt => { resolveOption cfg opt with expirationDate := day }

structure PollPass where
  ticker : String
  today : ℤ
  spot : Option Number
  strikeWindowPct : ℚ
  chain : List (ℤ × List ChainOption)

def pollPass (z : Zone) (underlyings : UnderlyingTable) (ticker : String) (now : ℤ) (strikeWindowPct : ℚ)
    (chain : List (ℤ × List ChainOption)) : PollPass where
  ticker := ticker
  today := easternToday z now
  spot := lastUnderlyingClose underlyings ticker
  strikeWindowPct := strikeWindowPct
  chain := chain

def PollPass.known (pass : PollPass) (tickers : List TickerConfig) (contracts : ContractTable) (current : Tracked)
    (startDate : ℤ) : Tracked :=
  (getBackfillCandidates tickers contracts current startDate).filter fun _ rc =>
    rc.underlyingTicker = pass.ticker && rc.expirationDate = pass.today

def PollPass.fallback (pass : PollPass) (tickers : List TickerConfig) : List ResolvedContract :=
  (tickers.find? fun cfg => cfg.ticker = pass.ticker).elim [] fun cfg =>
    filterChainForToday pass.chain cfg pass.today pass.spot pass.strikeWindowPct

def newFallback (candidates : Tracked) (fallback : List ResolvedContract) : List ResolvedContract :=
  fallback.filter fun rc => rc.contractId ∉ candidates

def withFallback (candidates : Tracked) (fallback : List ResolvedContract) : Tracked :=
  Dict.insertAll candidates (fallback.map fun rc => (rc.contractId, rc))

/-- A timezone-aware `datetime`: an instant, and how far the clock of its own zone is ahead of UTC then. -/
structure AwareTime where
  instant : ℤ
  utcOffset : ℤ
  inDay : |utcOffset| < DAY

def AwareTime.day (time : AwareTime) : ℤ := date (time.instant + time.utcOffset)

structure PollCall where
  mgr : ContractManager
  contracts : ContractTable
  underlyings : UnderlyingTable
  ticker : String
  now : AwareTime
  strikeWindowPct : ℚ
  refresh : RefreshAnswers
  /-- `none` when `get_option_chain` raises. -/
  chain : Option (List (ℤ × List ChainOption))
  persistedAt : ℤ

structure Polled where
  contracts : ContractTable
  /-- The contracts that `_backfill_option_contract` is called for. -/
  attempted : Tracked

/-- `none` when `refresh` or the chain lookup raises; an unconfigured ticker has no chain looked up. -/
def PollCall.pollTicker (call : PollCall) (z : Zone) : Option Polled :=
  (call.mgr.refresh call.contracts call.refresh).bind fun (diff, mgr, contracts) =>
    let configured := mgr.tickers.any fun cfg => cfg.ticker = call.ticker
    (if configured then call.chain else some []).map fun chain =>
      let pass := pollPass z call.underlyings call.ticker call.now.instant call.strikeWindowPct chain
      let candidates := pass.known mgr.tickers contracts diff.current call.now.day
      let fallback := pass.fallback mgr.tickers
      { contracts := persist contracts (newFallback candidates fallback) call.persistedAt
        attempted := withFallback candidates fallback }

end OptionsModel
