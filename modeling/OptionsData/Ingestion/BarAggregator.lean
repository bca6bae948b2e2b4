import OptionsData.Kit.Dict
import OptionsData.Kit.Ohlc
import OptionsData.Sources.AsyncUtils

namespace OptionsModel

open Kit

structure Bucket where
  opening : Option Number := none
  high : Option Number := none
  low : Option Number := none
  close : Option Number := none
  bid : Option Number := none
  ask : Option Number := none
  delta : Option Number := none
  gamma : Option Number := none
  theta : Option Number := none
  vega : Option Number := none
  rho : Option Number := none
  iv : Option Number := none
  hasGreeks : Bool := false
deriving DecidableEq, Repr

namespace Bucket

def updatePrice (b : Bucket) (mark : Number) (bid ask : Option Number) : Bucket :=
  { b with
    opening := some (b.opening.getD mark)
    high := some (b.high.elim mark fun high => high.max mark)
    low := some (b.low.elim mark fun low => low.min mark)
    close := some mark
    bid := bid
    ask := ask }

def updateGreeks (b : Bucket) (delta gamma theta vega rho iv : Option Number) : Bucket :=
  { b with
    delta := delta, gamma := gamma, theta := theta, vega := vega, rho := rho, iv := iv
    hasGreeks := true }

/-- Folds a bucket of earlier data for the same minute into this one. -/
def mergeOlder (b older : Bucket) : Bucket :=
  let takesGreeks := !b.hasGreeks && older.hasGreeks
  { opening := older.opening.or b.opening
    high := match older.high, b.high with
      | some old, some new => some (new.max old)
      | some old, none => some old
      | none, new => new
    low := match older.low, b.low with
      | some old, some new => some (new.min old)
      | some old, none => some old
      | none, new => new
    close := b.close.or older.close
    bid := b.bid.or older.bid
    ask := b.ask.or older.ask
    delta := if takesGreeks then older.delta else b.delta
    gamma := if takesGreeks then older.gamma else b.gamma
    theta := if takesGreeks then older.theta else b.theta
    vega := if takesGreeks then older.vega else b.vega
    rho := if takesGreeks then older.rho else b.rho
    iv := if takesGreeks then older.iv else b.iv
    hasGreeks := b.hasGreeks || older.hasGreeks }

def Shows (b : Bucket) (o : Ohlc ℚ) : Prop :=
  b.opening = some (.val o.opening) ∧ b.high = some (.val o.high) ∧
    b.low = some (.val o.low) ∧ b.close = some (.val o.close)

theorem updatePrice_fresh (q : ℚ) (bid ask : Option Number) :
    (updatePrice {} (.val q) bid ask).Shows (.single q) := ⟨rfl, rfl, rfl, rfl⟩

theorem Shows.updatePrice {b : Bucket} {o : Ohlc ℚ} (shows : b.Shows o) (q : ℚ) (bid ask : Option Number) :
    (b.updatePrice (.val q) bid ask).Shows (o.push q) := by
  rcases shows with ⟨opening, high, low, -⟩
  simp [Shows, Bucket.updatePrice, Ohlc.push, opening, high, low]

end Bucket

def minuteEpoch (ts : ℤ) : ℤ := ts / 60000000 * 60

def mark (bid ask : Option Number) : Option Number :=
  let bid := if isNan bid then none else bid
  let ask := if isNan ask then none else ask
  match bid, ask with
  | some b, some a => some (b.add a).half
  | some b, none => some b
  | none, a => a

theorem mark_val {bid ask : Option Number} {m : Number} (found : mark bid ask = some m) : ∃ q, m = .val q := by
  rcases bid with - | - | b <;> rcases ask with - | - | a <;>
    simp [mark, isNan, Number.add, Number.half] at found <;> exact ⟨_, found.symm⟩

structure BarAggregator where
  buckets : Dict (String × ℤ) Bucket := ∅
  flushGrace : ℤ := 5000000

namespace BarAggregator

def onQuote (agg : BarAggregator) (key : String) (bid ask : Option Number) (receivedAt : ℤ) : BarAggregator :=
  match mark bid ask with
  | none => agg
  | some m =>
    let slot := (key, minuteEpoch receivedAt)
    { agg with buckets := agg.buckets.insert slot (((agg.buckets.lookup slot).getD {}).updatePrice m bid ask) }

def onGreeks (agg : BarAggregator) (key : String) (delta gamma theta vega rho iv : Option Number)
    (receivedAt : ℤ) : BarAggregator :=
  let slot := (key, minuteEpoch receivedAt)
  { agg with
    buckets := agg.buckets.insert slot
      (((agg.buckets.lookup slot).getD {}).updateGreeks delta gamma theta vega rho iv) }

def isReady (agg : BarAggregator) (now : ℤ) (slot : String × ℤ) : Bool :=
  (slot.2 + 60) * 1000000 + agg.flushGrace ≤ now

def popReady (agg : BarAggregator) (now : ℤ) : List ((String × ℤ) × Bucket) × BarAggregator :=
  ((agg.buckets.filter fun slot _ => agg.isReady now slot).items,
    { agg with buckets := agg.buckets.filter fun slot _ => !agg.isReady now slot })

def restoreOne (agg : BarAggregator) (popped : (String × ℤ) × Bucket) : BarAggregator :=
  { agg with
    buckets := agg.buckets.insert popped.1
      ((agg.buckets.lookup popped.1).elim popped.2 fun existing => existing.mergeOlder popped.2) }

def restore (agg : BarAggregator) (ready : List ((String × ℤ) × Bucket)) : BarAggregator :=
  ready.foldl restoreOne agg

theorem onQuote_lookup (agg : BarAggregator) (key : String) (bid ask : Option Number) (receivedAt : ℤ)
    (slot : String × ℤ) :
    (agg.onQuote key bid ask receivedAt).buckets.lookup slot =
      match mark bid ask with
      | none => agg.buckets.lookup slot
      | some m =>
        if slot = (key, minuteEpoch receivedAt) then
          some (((agg.buckets.lookup slot).getD {}).updatePrice m bid ask)
        else agg.buckets.lookup slot := by
  unfold onQuote
  cases mark bid ask with
  | none => rfl
  | some m =>
    simp only [Dict.lookup_insert]
    split
    · next same => rw [same]
    · rfl

theorem onGreeks_lookup (agg : BarAggregator) (key : String) (delta gamma theta vega rho iv : Option Number)
    (receivedAt : ℤ) (slot : String × ℤ) :
    (agg.onGreeks key delta gamma theta vega rho iv receivedAt).buckets.lookup slot =
      if slot = (key, minuteEpoch receivedAt) then
        some (((agg.buckets.lookup slot).getD {}).updateGreeks delta gamma theta vega rho iv)
      else agg.buckets.lookup slot := by
  simp only [onGreeks, Dict.lookup_insert]
  split
  · next same => rw [same]
  · rfl

theorem onQuote_grows (agg : BarAggregator) (key : String) (bid ask : Option Number) (receivedAt : ℤ)
    {slot : String × ℤ} (held : slot ∈ agg.buckets) : slot ∈ (agg.onQuote key bid ask receivedAt).buckets := by
  unfold onQuote
  cases mark bid ask with
  | none => exact held
  | some m => exact (AList.mem_insert _).mpr (.inr held)

theorem onGreeks_grows (agg : BarAggregator) (key : String) (delta gamma theta vega rho iv : Option Number)
    (receivedAt : ℤ) {slot : String × ℤ} (held : slot ∈ agg.buckets) :
    slot ∈ (agg.onGreeks key delta gamma theta vega rho iv receivedAt).buckets :=
  (AList.mem_insert _).mpr (.inr held)

@[simp] theorem onQuote_flushGrace (agg : BarAggregator) (key : String) (bid ask : Option Number) (receivedAt : ℤ) :
    (agg.onQuote key bid ask receivedAt).flushGrace = agg.flushGrace := by
  unfold onQuote
  split <;> rfl

@[simp] theorem restore_flushGrace (agg : BarAggregator) (ready : List ((String × ℤ) × Bucket)) :
    (agg.restore ready).flushGrace = agg.flushGrace := by
  induction ready generalizing agg with
  | nil => rfl
  | cons popped ready ih => exact ih _

theorem mem_popReady {agg : BarAggregator} {now : ℤ} {slot : String × ℤ} {b : Bucket} :
    (slot, b) ∈ (agg.popReady now).1 ↔ agg.buckets.lookup slot = some b ∧ agg.isReady now slot = true := by
  rw [popReady, Dict.mem_items, Dict.lookup_filter, Option.filter_eq_some_iff]

theorem mem_popped {agg : BarAggregator} {now : ℤ} {slot : String × ℤ} :
    slot ∈ (agg.popReady now).1.map Prod.fst ↔ slot ∈ agg.buckets ∧ agg.isReady now slot = true := by
  rw [List.mem_map, Dict.mem_iff]
  constructor
  · intro premise
    rcases premise with ⟨⟨_, b⟩, member, rfl⟩
    exact ⟨⟨b, (mem_popReady.mp member).1⟩, (mem_popReady.mp member).2⟩
  · intro premise
    rcases premise with ⟨⟨b, held⟩, ready⟩
    exact ⟨(slot, b), mem_popReady.mpr ⟨held, ready⟩, rfl⟩

theorem popReady_nodup (agg : BarAggregator) (now : ℤ) : ((agg.popReady now).1.map Prod.fst).Nodup :=
  Dict.items_nodup _

theorem popReady_first (agg : BarAggregator) (now : ℤ) (slot : String × ℤ) :
    Dict.firstRow (agg.popReady now).1 slot =
      if agg.isReady now slot then agg.buckets.lookup slot else none := by
  apply Option.ext
  intro b
  constructor
  · intro found
    obtain ⟨held, ready⟩ := mem_popReady.mp (Dict.mem_of_firstRow found)
    simp [held, ready]
  · intro found
    split at found
    · next ready => exact Dict.firstRow_of_nodup (popReady_nodup _ _) (mem_popReady.mpr ⟨found, ready⟩)
    · cases found

theorem popReady_rest (agg : BarAggregator) (now : ℤ) (slot : String × ℤ) :
    (agg.popReady now).2.buckets.lookup slot =
      if agg.isReady now slot then none else agg.buckets.lookup slot := by
  rw [popReady, Dict.lookup_filter]
  cases agg.isReady now slot <;> cases agg.buckets.lookup slot <;> rfl

theorem mem_popReady_rest {agg : BarAggregator} {now : ℤ} {slot : String × ℤ} :
    slot ∈ (agg.popReady now).2.buckets ↔ slot ∈ agg.buckets ∧ agg.isReady now slot = false := by
  rw [Dict.mem_iff, Dict.mem_iff, popReady_rest]
  cases agg.isReady now slot <;> simp

theorem restore_lookup (agg : BarAggregator) {ready : List ((String × ℤ) × Bucket)}
    (unique : (ready.map Prod.fst).Nodup) (slot : String × ℤ) :
    (agg.restore ready).buckets.lookup slot =
      (Dict.firstRow ready slot).elim (agg.buckets.lookup slot) fun b =>
        some ((agg.buckets.lookup slot).elim b fun existing => existing.mergeOlder b) := by
  induction ready generalizing agg with
  | nil => rfl
  | cons popped ready ih =>
    rw [List.map_cons, List.nodup_cons] at unique
    have step := ih (agg.restoreOne popped) unique.2
    rw [restore, List.foldl_cons, ← restore, step, Dict.firstRow_cons, restoreOne, Dict.lookup_insert]
    by_cases same : slot = popped.1
    · subst same
      simp [Dict.firstRow_eq_none.mpr unique.1]
    · simp [same]

theorem restore_grows (agg : BarAggregator) {ready : List ((String × ℤ) × Bucket)} {slot : String × ℤ}
    (held : slot ∈ agg.buckets ∨ slot ∈ ready.map Prod.fst) : slot ∈ (agg.restore ready).buckets := by
  induction ready generalizing agg with
  | nil => simpa [restore] using held
  | cons popped ready ih =>
    apply ih
    rw [List.map_cons, List.mem_cons, ← or_assoc] at held
    exact held.imp (fun now => (AList.mem_insert _).mpr now.symm) id

end BarAggregator

end OptionsModel
