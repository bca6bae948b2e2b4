import OptionsData.Ingestion.AggregatorCalls

namespace OptionsProof.NanPrices

open Kit OptionsModel OptionsModel.AggregatorCalls OptionsProof.AggregatorCalls

def Finite (x : Option Number) : Prop := x ≠ some .nan

instance (x : Option Number) : Decidable (Finite x) := inferInstanceAs (Decidable (x ≠ some .nan))

structure NanFree (b : Bucket) : Prop where
  opening : Finite b.opening
  high : Finite b.high
  low : Finite b.low
  close : Finite b.close
  bid : Finite b.bid
  ask : Finite b.ask

/-- One side is NaN and the other a number. -/
def HalfNan (bid ask : Option Number) : Prop :=
  (bid = some .nan ∧ ∃ q, ask = some (.val q)) ∨ (ask = some .nan ∧ ∃ q, bid = some (.val q))

theorem finite_val (q : ℚ) : Finite (some (.val q)) := by
  intro same
  cases same

theorem Finite.or {x y : Option Number} (first : Finite x) (second : Finite y) : Finite (x.or y) := by
  cases x with
  | none => exact second
  | some number => exact first

theorem max_cases (a b : Number) : a.max b = a ∨ a.max b = b := by
  unfold Number.max
  split
  · exact .inr rfl
  · exact .inl rfl

theorem min_cases (a b : Number) : a.min b = a ∨ a.min b = b := by
  unfold Number.min
  split
  · exact .inr rfl
  · exact .inl rfl

theorem Finite.extreme {a b c : Number} (first : Finite (some a)) (second : Finite (some b)) (cases : c = a ∨ c = b) :
    Finite (some c) := by
  rcases cases with rfl | rfl
  · exact first
  · exact second

theorem Finite.elim {x : Option Number} (before : Finite x) (q : ℚ) {combine : Number → Number}
    (cases : ∀ a, combine a = a ∨ combine a = .val q) : Finite (some (x.elim (.val q) combine)) := by
  cases x with
  | none => exact finite_val q
  | some a => exact before.extreme (finite_val q) (cases a)

theorem sides_finite {bid ask : Option Number} {m : Number} (marked : mark bid ask = some m)
    (whole : ¬ HalfNan bid ask) : Finite bid ∧ Finite ask := by
  refine ⟨fun nan => ?_, fun nan => ?_⟩
  · subst nan
    rcases ask with - | - | q
    · cases marked
    · cases marked
    · exact whole (.inl ⟨rfl, q, rfl⟩)
  · subst nan
    rcases bid with - | - | q
    · cases marked
    · cases marked
    · exact whole (.inr ⟨rfl, q, rfl⟩)

theorem updatePrice_nanFree {b : Bucket} {m : Number} {bid ask : Option Number} (free : NanFree b)
    (marked : mark bid ask = some m) (whole : ¬ HalfNan bid ask) : NanFree (b.updatePrice m bid ask) := by
  obtain ⟨q, rfl⟩ := mark_val marked
  obtain ⟨bidFinite, askFinite⟩ := sides_finite marked whole
  refine ⟨?_, free.high.elim q fun high => max_cases high (.val q), free.low.elim q fun low => min_cases low (.val q),
    finite_val q, bidFinite, askFinite⟩
  show Finite (some (b.opening.getD (.val q)))
  have before := free.opening
  cases opening : b.opening with
  | none => exact finite_val q
  | some x =>
    rw [opening] at before
    exact before

theorem mergeOlder_nanFree {b older : Bucket} (free : NanFree b) (before : NanFree older) :
    NanFree (b.mergeOlder older) := by
  refine ⟨before.opening.or free.opening, ?_, ?_, free.close.or before.close, free.bid.or before.bid,
    free.ask.or before.ask⟩
  · have new := free.high
    have old := before.high
    unfold Bucket.mergeOlder
    dsimp only
    split
    · next x y first second =>
      rw [first] at old
      rw [second] at new
      exact new.extreme old (max_cases y x)
    · next x first second =>
      rw [first] at old
      exact old
    · exact new
  · have new := free.low
    have old := before.low
    unfold Bucket.mergeOlder
    dsimp only
    split
    · next x y first second =>
      rw [first] at old
      rw [second] at new
      exact new.extreme old (min_cases y x)
    · next x first second =>
      rw [first] at old
      exact old
    · exact new

theorem nanFree_preserved : Preserved NanFree fun bid ask => ¬ HalfNan bid ask where
  fresh := ⟨nofun, nofun, nofun, nofun, nofun, nofun⟩
  price := updatePrice_nanFree
  greeks _ _ _ _ _ _ free := ⟨free.opening, free.high, free.low, free.close, free.bid, free.ask⟩
  merge := mergeOlder_nanFree

theorem halfNan_stored {bid ask : Option Number} (half : HalfNan bid ask) (agg : BarAggregator) (key : String)
    (receivedAt : ℤ) : ∃ slot b, (agg.onQuote key bid ask receivedAt).buckets.lookup slot = some b ∧ ¬ NanFree b := by
  refine ⟨(key, minuteEpoch receivedAt), ?_⟩
  rw [BarAggregator.onQuote_lookup]
  rcases half with ⟨rfl, q, rfl⟩ | ⟨rfl, q, rfl⟩
  · exact ⟨_, if_pos rfl, fun free => free.bid rfl⟩
  · exact ⟨_, if_pos rfl, fun free => free.ask rfl⟩

/-- No bucket ever held or returned has a NaN price exactly if no quote has NaN beside a number. -/
theorem neverNan_iff {grace : ℤ} {calls : List Call} {t : AggregatorCalls}
    (reached : run step { agg := { flushGrace := grace } } calls = some t) :
    (∀ past rest u, calls = past ++ rest → run step { agg := { flushGrace := grace } } past = some u →
      u.Everywhere NanFree) ↔
    ∀ key bid ask receivedAt, .event (.quote key bid ask receivedAt) ∈ calls → ¬ HalfNan bid ask := by
  constructor
  · intro free key bid ask receivedAt member half
    obtain ⟨past, rest, rfl⟩ := List.append_of_mem member
    obtain ⟨u, before, after⟩ := run_append_some.mp reached
    obtain ⟨v, taken, -⟩ := run_cons_some.mp after
    have now := free (past ++ [.event (.quote key bid ask receivedAt)]) rest v (by simp)
      (run_concat_some.mpr ⟨u, before, taken⟩)
    cases taken
    obtain ⟨slot, b, held, nan⟩ := halfNan_stored half u.agg key receivedAt
    exact nan (now.1 slot b held)
  · intro whole past rest u same before
    subst same
    refine nanFree_preserved.run (fun e member => ?_) before
    cases e with
    | quote key bid ask receivedAt => exact whole key bid ask receivedAt (List.mem_append_left rest member)
    | greeks key delta gamma theta vega rho iv receivedAt => trivial

theorem nanSide_held :
    ¬ ∀ (calls : List Call) (t : AggregatorCalls), run step {} calls = some t → t.Everywhere NanFree := by
  intro free
  have held := (free [.event (.quote "C" (some .nan) (some (.val 10)) 0)] _ rfl).1 ("C", 0) _ rfl
  exact held.bid rfl

def restoredQuote : List Call :=
  [.event (.quote "C" none (some (.val 6)) 0), .popReady 65000000, .event (.quote "C" (some .nan) none 0),
    .restore [(("C", 0), Bucket.updatePrice {} (.val 6) none (some (.val 6)))]]

theorem neverNan_iff_restored :
    ∃ t, run step { agg := { flushGrace := 5000000 } } restoredQuote = some t ∧ t.Everywhere NanFree := by
  obtain ⟨t, reached⟩ : ∃ t, run step { agg := { flushGrace := 5000000 } } restoredQuote = some t :=
    Option.isSome_iff_exists.mp (by decide +kernel)
  refine ⟨t, reached, (neverNan_iff reached).mpr (fun key bid ask receivedAt member half => ?_) restoredQuote [] t
    (List.append_nil _).symm reached⟩
  simp only [restoredQuote, List.mem_cons, Call.event.injEq, MarketEvent.quote.injEq, reduceCtorEq, List.not_mem_nil,
    or_false, false_or] at member
  rcases member with ⟨-, rfl, rfl, -⟩ | ⟨-, rfl, rfl, -⟩ <;> simp [HalfNan] at half

end OptionsProof.NanPrices
