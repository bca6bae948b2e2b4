import OptionsData.Db.Models

namespace OptionsModel

open Kit

structure TickerConfig where
  ticker : String
  callDeltaMin : ℚ := 15 / 100
  callDeltaMax : ℚ := 85 / 100
  putDeltaMin : ℚ := -85 / 100
  putDeltaMax : ℚ := -15 / 100
  excludeAmSettled : Bool := true
  captureUnderlyingBars : Bool := true
  maxDaysToExpiration : ℤ := 45

structure ChainOption where
  streamerSymbol : String
  expirationDate : ℤ
  strikePrice : ℚ
  optionType : String
  settlementType : Option String
  daysToExpiration : Option ℤ

structure ResolvedContract where
  contractId : String
  underlyingTicker : String
  expirationDate : ℤ
  strike : ℚ
  right : OptionRight
  settlementType : Option SettlementType
deriving DecidableEq, Repr

abbrev Tracked := Dict String ResolvedContract

structure ContractDiff where
  added : Tracked
  removed : List String
  current : Tracked

structure ContractRow where
  underlyingTicker : String
  expirationDate : ℤ
  strike : ℚ
  right : OptionRight
  settlementType : Option SettlementType
  firstSeen : ℤ
  lastSeen : ℤ
deriving DecidableEq, Repr

abbrev ContractTable := Dict String ContractRow

def upper (s : String) : List Char := s.toList.map Char.toUpper

def optionRight (opt : ChainOption) : OptionRight :=
  if (upper opt.optionType).head? = some 'C' then .call else .put

def isAmSettled (opt : ChainOption) : Bool :=
  upper (opt.settlementType.getD "") = "AM".toList

def settlementType (opt : ChainOption) : Option SettlementType :=
  opt.settlementType.bind fun value =>
    if upper value = "AM".toList then some .am
    else if upper value = "PM".toList then some .pm
    else none

/-- What the source answers about one ticker: `none` stands for a call that raises. -/
structure TickerAnswers where
  chain : Option (List ChainOption)
  /-- The delta of each symbol a snapshot of the given symbols returns. -/
  snapshot : List String → Option (Dict String (Option Number))

def isCandidate (cfg : TickerConfig) (opt : ChainOption) : Bool :=
  !(opt.daysToExpiration.any fun dte => cfg.maxDaysToExpiration < dte) &&
    !(cfg.excludeAmSettled && isAmSettled opt)

def inRange (cfg : TickerConfig) (right : OptionRight) : Number → Bool
  | .nan => false
  | .val delta => match right with
    | .call => cfg.callDeltaMin ≤ delta ∧ delta ≤ cfg.callDeltaMax
    | .put => cfg.putDeltaMin ≤ delta ∧ delta ≤ cfg.putDeltaMax

def resolveOption (cfg : TickerConfig) (opt : ChainOption) : ResolvedContract where
  contractId := opt.streamerSymbol
  underlyingTicker := cfg.ticker
  expirationDate := opt.expirationDate
  strike := opt.strikePrice
  right := optionRight opt
  settlementType := settlementType opt

def newlyResolved (cfg : TickerConfig) (greeks : Dict String (Option Number)) (opt : ChainOption) :
    Option (String × ResolvedContract) :=
  (greeks.lookup opt.streamerSymbol).bind fun delta =>
    (getAttrAny [delta]).bind fun delta =>
      if inRange cfg (optionRight opt) delta then some (opt.streamerSymbol, resolveOption cfg opt) else none

/-- `_resolve_ticker`; `none` stands for the exception of a source call that raises. -/
def resolveTicker (tracked : Tracked) (cfg : TickerConfig) (answers : TickerAnswers) : Option Tracked :=
  answers.chain.bind fun chain =>
    let candidates := chain.filter (isCandidate cfg)
    let carriedForward := Dict.assign ∅ (candidates.filterMap fun c =>
      (tracked.lookup c.streamerSymbol).map fun rc => (c.streamerSymbol, rc))
    let newCandidates := candidates.filter fun c => c.streamerSymbol ∉ tracked
    -- without candidates both parts are empty, which is the early `return {}`
    if newCandidates.isEmpty then some carriedForward
    else (answers.snapshot (newCandidates.map ChainOption.streamerSymbol)).map fun greeks =>
      Dict.assign carriedForward (newCandidates.filterMap (newlyResolved cfg greeks))

def carriedFor (tracked : Tracked) (cfg : TickerConfig) : Tracked :=
  tracked.filter fun _ rc => rc.underlyingTicker = cfg.ticker

structure ContractManager where
  tickers : List TickerConfig
  tracked : Tracked := ∅

structure RefreshAnswers where
  ticker : ℕ → TickerAnswers
  persists : Bool
  now : ℤ

def resolveAll (mgr : ContractManager) (answers : ℕ → TickerAnswers) : Tracked :=
  mgr.tickers.zipIdx.foldl (fun resolved cfg =>
    Dict.assign resolved
      ((resolveTicker mgr.tracked cfg.1 (answers cfg.2)).getD (carriedFor mgr.tracked cfg.1)).items) ∅

def persistOne (now : ℤ) (table : ContractTable) (rc : ResolvedContract) : ContractTable :=
  match table.lookup rc.contractId with
  | some existing => table.insert rc.contractId { existing with lastSeen := now }
  | none => table.insert rc.contractId
      { underlyingTicker := rc.underlyingTicker, expirationDate := rc.expirationDate, strike := rc.strike
        right := rc.right, settlementType := rc.settlementType, firstSeen := now, lastSeen := now }

def persist (table : ContractTable) (contracts : List ResolvedContract) (now : ℤ) : ContractTable :=
  contracts.foldl (persistOne now) table

def ContractManager.diff (mgr : ContractManager) (resolved : Tracked) : ContractDiff where
  added := resolved.filter fun cid _ => cid ∉ mgr.tracked
  removed := mgr.tracked.keys.filter fun cid => cid ∉ resolved
  current := resolved

/-- `none` when persisting raises; the tracked set is committed only after that. -/
def ContractManager.refresh (mgr : ContractManager) (table : ContractTable) (answers : RefreshAnswers) :
    Option (ContractDiff × ContractManager × ContractTable) :=
  let resolved := resolveAll mgr answers.ticker
  let contracts := resolved.items.map Prod.snd
  if !contracts.isEmpty && !answers.persists then none
  else some (mgr.diff resolved, { mgr with tracked := resolved }, persist table contracts answers.now)

theorem mem_added {mgr : ContractManager} {resolved : Tracked} {cid : String} :
    cid ∈ (mgr.diff resolved).added ↔ cid ∈ resolved ∧ cid ∉ mgr.tracked := by
  simp only [ContractManager.diff, Dict.mem_iff, Dict.lookup_filter, Option.filter_eq_some_iff,
    decide_eq_true_eq]
  tauto

theorem refresh_cases {mgr next : ContractManager} {table written : ContractTable} {answers : RefreshAnswers}
    {diff : ContractDiff} (done : mgr.refresh table answers = some (diff, next, written)) :
    next = { mgr with tracked := resolveAll mgr answers.ticker } ∧ diff = mgr.diff next.tracked := by
  unfold ContractManager.refresh at done
  dsimp only at done
  split at done
  · cases done
  · cases done
    exact ⟨rfl, rfl⟩

end OptionsModel
