import OptionsData.Kit.Grouping
import OptionsData.Kit.Paging
import OptionsData.Greeks.BackfillJob

namespace OptionsModel

open Kit

/-- PostgreSQL orders NaN after every number. -/
def Number.sqlLe : Number → Number → Bool
  | _, .nan => true
  | .nan, .val _ => false
  | .val a, .val b => a ≤ b

def Number.sqlMax (a b : Number) : Number := if a.sqlLe b then b else a

def Number.sqlMin (a b : Number) : Number := if a.sqlLe b then a else b

def Number.sqlPositive : Number → Bool
  | .nan => true
  | .val q => 0 < q

def Number.mul : Number → Number → Number
  | .val a, .val b => .val (a * b)
  | _, _ => .nan

def Number.div : Number → Number → Number
  | .val a, .val b => .val (a / b)
  | _, _ => .nan

def sqlAggregate (op : Number → Number → Number) (values : List (Option Number)) : Option Number :=
  match values.filterMap id with
  | [] => none
  | value :: values => some (values.foldl op value)

def sqlSum (values : List (Option Number)) : Option Number := sqlAggregate Number.add values

def pickRow {ρ : Type} (before : ℤ → ℤ → Bool) (time : ρ → ℤ) (rows : List ρ) : Option ρ :=
  rows.foldl (fun held row => match held with
    | none => some row
    | some old => if before (time row) (time old) then some row else some old) none

/-- TimescaleDB's `first(value, time)`: the value of the earliest row, NULL if it is NULL there. -/
def firstBy {ρ β : Type} (time : ρ → ℤ) (value : ρ → Option β) (rows : List ρ) : Option β :=
  (pickRow (fun a b => a < b) time rows).bind value

def lastBy {ρ β : Type} (time : ρ → ℤ) (value : ρ → Option β) (rows : List ρ) : Option β :=
  (pickRow (fun a b => b < a) time rows).bind value

def AGG_PERIODS : List String := ["1m", "5m", "15m", "30m", "1h", "1d", "1w"]

def BUCKET_INTERVALS : List (String × String) :=
  [("5m", "5 minutes"), ("15m", "15 minutes"), ("30m", "30 minutes"), ("1h", "1 hour"), ("1d", "1 day"),
    ("1w", "1 week")]

def bucketInterval (agg : String) : Option String := BUCKET_INTERVALS.lookup agg

structure Query (ρ κ : Type) where
  rows : List ρ
  key : ρ → κ
  limit : ℕ
  offset : ℕ

structure OptionBarsRequest where
  ticker : String
  start : ℤ
  end_ : ℤ
  agg : String := "1m"
  right : Option OptionRight := none
  minDelta : Option Number := none
  maxDelta : Option Number := none
  expiration : Option ℤ := none
  contractId : Option String := none
  limit : ℕ := 1000
  offset : ℕ := 0

def OptionBarsRequest.conditions (request : OptionBarsRequest) (row : OptionRow) : Bool :=
  row.2.underlyingTicker = request.ticker && request.start ≤ row.1.2 && row.1.2 ≤ request.end_ &&
    (request.right.all fun right => row.2.right = right) &&
    (request.minDelta.all fun bound => row.2.delta.any bound.sqlLe) &&
    (request.maxDelta.all fun bound => row.2.delta.any fun delta => delta.sqlLe bound) &&
    (request.expiration.all fun date => row.2.expirationDate = date) &&
    (request.contractId.all fun contractId => row.1.1 = contractId)

structure OptionGroup where
  time : ℤ
  contractId : String
  underlyingTicker : String
  expirationDate : ℤ
  strike : ℚ
  right : OptionRight
deriving DecidableEq, Repr

/-- `time_bucket` is TimescaleDB's: of an interval and a time. -/
def optionGroup (timeBucket : String → ℤ → ℤ) (interval : String) (row : OptionRow) : OptionGroup where
  time := timeBucket interval row.1.2
  contractId := row.1.1
  underlyingTicker := row.2.underlyingTicker
  expirationDate := row.2.expirationDate
  strike := row.2.strike
  right := row.2.right

def barTime {ρ : Type} (row : BarKey × ρ) : ℤ := row.1.2

def vwapOf (rows : List OptionRow) : Option Number :=
  (sqlSum (rows.map fun row => row.2.volume)).bind fun volume =>
    if volume.sqlPositive then
      (sqlSum (rows.map fun row => row.2.vwap.bind fun vwap => row.2.volume.map vwap.mul)).map fun total =>
        total.div volume
    else none

def optionAggregate (g : OptionGroup) (rows : List OptionRow) : OptionRow :=
  ((g.contractId, g.time), {
    underlyingTicker := g.underlyingTicker
    expirationDate := g.expirationDate
    strike := g.strike
    right := g.right
    opening := firstBy barTime (fun row => row.2.opening) rows
    high := sqlAggregate Number.sqlMax (rows.map fun row => row.2.high)
    low := sqlAggregate Number.sqlMin (rows.map fun row => row.2.low)
    close := lastBy barTime (fun row => row.2.close) rows
    bid := lastBy barTime (fun row => row.2.bid) rows
    ask := lastBy barTime (fun row => row.2.ask) rows
    delta := lastBy barTime (fun row => row.2.delta) rows
    gamma := lastBy barTime (fun row => row.2.gamma) rows
    theta := lastBy barTime (fun row => row.2.theta) rows
    vega := lastBy barTime (fun row => row.2.vega) rows
    rho := lastBy barTime (fun row => row.2.rho) rows
    iv := lastBy barTime (fun row => row.2.iv) rows
    greeksSource := lastBy barTime (fun row => row.2.greeksSource) rows
    volume := sqlSum (rows.map fun row => row.2.volume)
    openInterest := lastBy barTime (fun row => row.2.openInterest) rows
    vwap := vwapOf rows
    bidVolume := sqlSum (rows.map fun row => row.2.bidVolume)
    askVolume := sqlSum (rows.map fun row => row.2.askVolume) })

def optionBars (timeBucket : String → ℤ → ℤ) (interval : String) (rows : List OptionRow) : List OptionRow :=
  grouped (optionGroup timeBucket interval) optionAggregate rows

/-- `none` stands for the KeyError of a period without an interval. -/
def buildOptionBarsQuery (timeBucket : String → ℤ → ℤ) (request : OptionBarsRequest) (table : OptionTable) :
    Option (Query OptionRow ℤ) :=
  let rows := table.items.filter request.conditions
  if request.agg = "1m" then some ⟨rows, barTime, request.limit, request.offset⟩
  else (bucketInterval request.agg).map fun interval =>
    ⟨optionBars timeBucket interval rows, barTime, request.limit, request.offset⟩

/-- The continuous aggregate that migration 0002 created over the whole table. -/
def optionBarsView (timeBucket : String → ℤ → ℤ) (interval : String) (table : OptionTable) : List OptionRow :=
  optionBars timeBucket interval table.items

abbrev UnderlyingRow := BarKey × UnderlyingBar1m

structure UnderlyingBarsRequest where
  ticker : String
  start : ℤ
  end_ : ℤ
  agg : String := "1m"
  limit : ℕ := 1000
  offset : ℕ := 0

def UnderlyingBarsRequest.conditions (request : UnderlyingBarsRequest) (row : UnderlyingRow) : Bool :=
  row.1.1 = request.ticker && request.start ≤ row.1.2 && row.1.2 ≤ request.end_

def underlyingGroup (timeBucket : String → ℤ → ℤ) (interval : String) (row : UnderlyingRow) : BarKey :=
  (row.1.1, timeBucket interval row.1.2)

def underlyingAggregate (g : BarKey) (rows : List UnderlyingRow) : UnderlyingRow :=
  (g, {
    opening := firstBy barTime (fun row => row.2.opening) rows
    high := sqlAggregate Number.sqlMax (rows.map fun row => row.2.high)
    low := sqlAggregate Number.sqlMin (rows.map fun row => row.2.low)
    close := lastBy barTime (fun row => row.2.close) rows
    volume := sqlSum (rows.map fun row => row.2.volume) })

def underlyingBars (timeBucket : String → ℤ → ℤ) (interval : String) (rows : List UnderlyingRow) :
    List UnderlyingRow :=
  grouped (underlyingGroup timeBucket interval) underlyingAggregate rows

def buildUnderlyingBarsQuery (timeBucket : String → ℤ → ℤ) (request : UnderlyingBarsRequest)
    (table : UnderlyingTable) : Option (Query UnderlyingRow ℤ) :=
  let rows := table.items.filter request.conditions
  if request.agg = "1m" then some ⟨rows, barTime, request.limit, request.offset⟩
  else (bucketInterval request.agg).map fun interval =>
    ⟨underlyingBars timeBucket interval rows, barTime, request.limit, request.offset⟩

end OptionsModel
