import OptionsData.Kit.Decimal
import OptionsData.Kit.Dict
import OptionsData.Sources.AsyncUtils

namespace OptionsModel

open Kit

inductive OptionRight where
  | call
  | put
deriving DecidableEq, Repr

inductive SettlementType where
  | am
  | pm
deriving DecidableEq, Repr

inductive GreeksSource where
  | live
  | computed
deriving DecidableEq, Repr

/-- `int(x)` truncates towards zero. -/
def Number.toInt : Number → Option ℤ
  | .val q => some (q.num.tdiv q.den)
  | .nan => none

/-- What a `Numeric` column stores: it rounds to its scale. -/
def Number.numeric (scale : ℕ) : Number → Number
  | .val q => .val (toScale scale q)
  | .nan => .nan

/-- What a `BigInteger` column stores: the driver hands it `int(x)`. -/
def Number.bigInteger (x : Number) : Number := x.toInt.elim .nan fun n => .val n

def Number.fitsNumeric (digits : ℕ) : Number → Bool
  | .val q => |q| < 10 ^ digits
  | .nan => true

def Number.fitsBigInteger : Number → Bool
  | .val q => -9223372036854775808 ≤ q && q ≤ 9223372036854775807
  | .nan => false

def fitNumeric (digits : ℕ) (values : List (Option Number)) : Bool :=
  values.all fun value => value.all (Number.fitsNumeric digits)

def fitBigInteger (values : List (Option Number)) : Bool := values.all fun value => value.all Number.fitsBigInteger

/-- An aware `datetime` in UTC, in microseconds since the epoch; it ends with the year 9999. -/
structure UtcDateTime where
  microseconds : ℤ
  first : -62135596800000000 ≤ microseconds
  last : microseconds < 253402300800000000
deriving DecidableEq, Repr

namespace UtcDateTime

/-- `datetime.fromtimestamp(ms / 1000, tz=timezone.utc)`, which raises outside the years 1 to 9999. -/
def fromTimestamp (ms : ℤ) : Option UtcDateTime :=
  if within : -62135596800000000 ≤ ms * 1000 ∧ ms * 1000 < 253402300800000000 then
    some ⟨ms * 1000, within.1, within.2⟩
  else none

/-- `int(bar_time.timestamp() * 1000)` -/
def timestampMs (time : UtcDateTime) : ℤ := time.microseconds.tdiv 1000

theorem timestampMs_fromTimestamp {ms : ℤ} {time : UtcDateTime} (made : fromTimestamp ms = some time) :
    time.timestampMs = ms := by
  obtain ⟨within, same⟩ := Option.dite_none_right_eq_some.mp made
  cases same
  exact Int.mul_tdiv_cancel ms (by decide)

end UtcDateTime

structure OptionBar1m where
  underlyingTicker : String
  expirationDate : ℤ
  strike : ℚ
  right : OptionRight
  opening : Option Number := none
  high : Option Number := none
  low : Option Number := none
  close : Option Number := none
  bid : Option Number := none
  ask : Option Number := none
  delta : Option Number := none
  gamma : Option Number := none
  theta : Option Number := none
  vega : Option Number := none
  rho : Option Number := none
  iv : Option Number := none
  greeksSource : Option GreeksSource := none
  volume : Option Number := none
  openInterest : Option Number := none
  vwap : Option Number := none
  bidVolume : Option Number := none
  askVolume : Option Number := none
deriving DecidableEq, Repr

def OptionBar1m.fits (row : OptionBar1m) : Bool :=
  fitNumeric 8 [row.opening, row.high, row.low, row.close, row.bid, row.ask] &&
  fitNumeric 3 [row.delta, row.gamma, row.rho, row.iv] && fitNumeric 5 [row.theta, row.vega] &&
  fitNumeric 6 [row.vwap] && fitBigInteger [row.volume, row.openInterest, row.bidVolume, row.askVolume]

structure UnderlyingBar1m where
  opening : Option Number := none
  high : Option Number := none
  low : Option Number := none
  close : Option Number := none
  volume : Option Number := none
deriving DecidableEq, Repr

def UnderlyingBar1m.fits (row : UnderlyingBar1m) : Bool :=
  fitNumeric 8 [row.opening, row.high, row.low, row.close] && fitBigInteger [row.volume]

/-- The primary key of both bar tables: the identifier and the bar time, in milliseconds since the epoch. -/
abbrev BarKey := String × ℤ

instance : LawfulBEq BarKey := inferInstance

abbrev OptionTable := Dict BarKey OptionBar1m
abbrev UnderlyingTable := Dict BarKey UnderlyingBar1m

/-- `func.max(time)` over the rows of one key. -/
def latestBar {ρ : Type*} (table : Dict BarKey ρ) (key : String) : Option ℤ :=
  ((table.keys.filter fun stored => stored.1 = key).map Prod.snd).max?

theorem mem_latestBar {ρ : Type*} {table : Dict BarKey ρ} {key : String} {newest : ℤ} :
    newest ∈ latestBar table key ↔ (key, newest) ∈ table ∧ ∀ time, (key, time) ∈ table → time ≤ newest := by
  have listed (time : ℤ) :
      time ∈ (table.keys.filter fun stored => stored.1 = key).map Prod.snd ↔ (key, time) ∈ table := by
    simp [AList.mem_keys]
  rw [latestBar, Option.mem_def, List.max?_eq_some_iff, listed]
  simp only [listed]

theorem latestBar_le {ρ : Type*} {table : Dict BarKey ρ} {key : String} {bound : ℤ} :
    (∀ newest ∈ latestBar table key, newest ≤ bound) ↔ ∀ time, (key, time) ∈ table → time ≤ bound := by
  constructor
  · intro all time stored
    cases found : latestBar table key with
    | none =>
      have member : time ∈ (table.keys.filter fun stored => stored.1 = key).map Prod.snd := by
        simpa [AList.mem_keys] using stored
      rw [List.max?_eq_none_iff.mp found] at member
      cases member
    | some newest => exact ((mem_latestBar.mp found).2 time stored).trans (all newest found)
  · intro all newest found
    exact all newest (mem_latestBar.mp found).1

/-- asyncpg rejects a statement with more arguments. -/
def MAX_STATEMENT_ARGUMENTS : ℕ := 32767

end OptionsModel
