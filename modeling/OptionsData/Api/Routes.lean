import OptionsData.Db.Aggregations
import OptionsData.Ingestion.ContractManager

namespace OptionsModel

open Kit

inductive HttpError where
  | badRequest (detail : String)
  /-- A parameter outside its declared bounds. -/
  | unprocessable (parameter : String)
  | internal
deriving DecidableEq, Repr

structure PageResponse (ρ : Type) where
  items : List ρ
  limit : ℕ
  offset : ℕ
  returned : ℕ

def MAX_LIMIT : ℕ := 20000

def limitOk (limit : ℕ) : Bool := 1 ≤ limit && limit ≤ MAX_LIMIT

def invalidAgg (agg : String) : String :=
  "Invalid agg '" ++ agg ++ "'. Valid: ('1m', '5m', '15m', '30m', '1h', '1d', '1w')"

/-- The page of a query, from the order in which the database chooses to return its rows. -/
def respond {ρ κ : Type} (choose : Query ρ κ → List ρ) (query : Query ρ κ) : PageResponse ρ :=
  let rows := page (choose query) query.offset query.limit
  ⟨rows, query.limit, query.offset, rows.length⟩

def getOptionBars (timeBucket : String → ℤ → ℤ) (choose : Query OptionRow ℤ → List OptionRow)
    (table : OptionTable) (request : OptionBarsRequest) : Except HttpError (PageResponse OptionRow) :=
  if !limitOk request.limit then .error (.unprocessable "limit")
  else if request.agg ∉ AGG_PERIODS then .error (.badRequest (invalidAgg request.agg))
  else if request.end_ < request.start then .error (.badRequest "start must be <= end")
  else match buildOptionBarsQuery timeBucket request table with
    | none => .error .internal
    | some query => .ok (respond choose query)

def getUnderlyingBars (timeBucket : String → ℤ → ℤ) (choose : Query UnderlyingRow ℤ → List UnderlyingRow)
    (table : UnderlyingTable) (request : UnderlyingBarsRequest) : Except HttpError (PageResponse UnderlyingRow) :=
  if !limitOk request.limit then .error (.unprocessable "limit")
  else if request.agg ∉ AGG_PERIODS then .error (.badRequest (invalidAgg request.agg))
  else if request.end_ < request.start then .error (.badRequest "start must be <= end")
  else match buildUnderlyingBarsQuery timeBucket request table with
    | none => .error .internal
    | some query => .ok (respond choose query)

structure ContractsRequest where
  ticker : String
  start : Option ℤ := none
  end_ : Option ℤ := none
  right : Option OptionRight := none
  limit : ℕ := 1000
  offset : ℕ := 0

abbrev ContractOut := String × ContractRow

def ContractsRequest.conditions (request : ContractsRequest) (row : ContractOut) : Bool :=
  row.2.underlyingTicker = request.ticker &&
    (request.start.all fun start => start ≤ row.2.expirationDate) &&
    (request.end_.all fun end_ => row.2.expirationDate ≤ end_) &&
    (request.right.all fun right => row.2.right = right)

def expirationStrike (row : ContractOut) : ℤ ×ₗ ℚ := toLex (row.2.expirationDate, row.2.strike)

def contractsQuery (request : ContractsRequest) (table : ContractTable) : Query ContractOut (ℤ ×ₗ ℚ) :=
  ⟨table.items.filter request.conditions, expirationStrike, request.limit, request.offset⟩

def ContractsRequest.reversed (request : ContractsRequest) : Bool :=
  request.start.any fun start => request.end_.any fun end_ => end_ < start

def getContracts (choose : Query ContractOut (ℤ ×ₗ ℚ) → List ContractOut) (table : ContractTable)
    (request : ContractsRequest) : Except HttpError (PageResponse ContractOut) :=
  if !limitOk request.limit then .error (.unprocessable "limit")
  else if request.reversed then .error (.badRequest "start must be <= end")
  else .ok (respond choose (contractsQuery request table))

end OptionsModel
