import OptionsData.Ingestion.OptionBuckets

namespace OptionsProof.LiveRows

open Kit OptionsModel OptionsModel.Pipeline OptionsProof.Pipeline OptionsProof.OptionBuckets

def lastGreeks (slot : String × ℤ) (events : List Event) : Option (List (Option Number)) :=
  (events.filterMap (greeksOf slot)).getLast?

def rowGreeks (row : OptionBar1m) : List (Option Number) := [row.delta, row.gamma, row.theta, row.vega, row.rho]

def Complete (greeks : List (Option Number)) : Prop := ∀ value ∈ greeks, value ≠ none

instance (greeks : List (Option Number)) : Decidable (Complete greeks) :=
  inferInstanceAs (Decidable (∀ value ∈ greeks, value ≠ none))

/-- Whenever an option write of the run succeeds, the rows it adds as live have all five Greeks. -/
def LiveRowsComplete (symbols : Dict String String) (events : List Event) : Prop :=
  ∀ past rest u v key row, events = past ++ .endOptionWrite true :: rest → run step (start symbols) past = some u →
    step u (.endOptionWrite true) = some v → u.optionTable.lookup key = none →
    v.optionTable.lookup key = some row → row.greeksSource = some .live → Complete (rowGreeks row)

/-- Each bucket with Greeks that a written flush popped, of a tracked contract and with a free key: the last Greeks
event received for it by then carries all five values. -/
def CompleteWhenFlushed (symbols : Dict String String) (events : List Event) : Prop :=
  ∀ (write : OptionWrite symbols events) slot b, (slot, b) ∈ write.popped → b.hasGreeks = true →
    slot.1 ∈ write.began.tracked → barKey slot ∉ write.awaiting.optionTable →
    ∃ greeks, lastGreeks slot write.first = some greeks ∧ Complete greeks

theorem lastGreeks_concat (slot : String × ℤ) (past : List Event) (e : Event) :
    lastGreeks slot (past ++ [e]) = (greeksOf slot e).or (lastGreeks slot past) := by
  rw [lastGreeks, List.filterMap_append, List.getLast?_append]
  cases received : greeksOf slot e <;> simp [received, lastGreeks]

structure Keeps (slot : String × ℤ) (past : List Event) (p : OptionPlace) : Prop where
  newer : ∀ b, p.accumulating = some b → b.hasGreeks = true → lastGreeks slot past = some (fiveGreeks b)
  older : ∀ b, p.inFlight = some b → b.hasGreeks = true →
    (∀ c, p.accumulating = some c → c.hasGreeks = false) → lastGreeks slot past = some (fiveGreeks b)

theorem mergeOlder_fiveGreeks (b older : Bucket) :
    fiveGreeks (b.mergeOlder older) =
      if b.hasGreeks = false ∧ older.hasGreeks = true then fiveGreeks older else fiveGreeks b := by
  cases newer : b.hasGreeks <;> cases had : older.hasGreeks <;> simp [fiveGreeks, Bucket.mergeOlder, newer, had]

theorem Keeps.restored {slot : String × ℤ} {past : List Event} {p : OptionPlace} (keeps : Keeps slot past p)
    {b : Bucket} (found : p.restored = some b) (has : b.hasGreeks = true) :
    lastGreeks slot past = some (fiveGreeks b) := by
  rcases p with ⟨- | existing, - | older⟩
  · cases found
  · cases found
    exact keeps.older _ rfl has fun c held => nomatch held
  · cases found
    exact keeps.newer _ rfl has
  · obtain rfl : existing.mergeOlder older = b := Option.some.inj found
    rw [mergeOlder_fiveGreeks]
    split
    · next takes =>
      refine keeps.older _ rfl takes.2 fun c held => ?_
      cases held
      exact takes.1
    · next stays =>
      refine keeps.newer _ rfl ?_
      simp only [Bucket.mergeOlder, Bool.or_eq_true] at has
      cases newer : existing.hasGreeks with
      | true => rfl
      | false => exact absurd ⟨newer, has.resolve_left (by simp [newer])⟩ stays

theorem Keeps.step {s : Pipeline} {slot : String × ℤ} {e : Event} {past : List Event} {p : OptionPlace}
    (keeps : Keeps slot past (optionPlace s slot)) (moves : OptionMoves s slot e p) :
    Keeps slot (past ++ [e]) p := by
  have same := lastGreeks_concat slot past e
  cases moves with
  | kept _ unanswered =>
    rw [unanswered, Option.none_or] at same
    exact ⟨same ▸ keeps.newer, same ▸ keeps.older⟩
  | marked q bid ask _ unanswered =>
    rw [unanswered, Option.none_or] at same
    constructor
    · intro b found has
      cases found
      rw [same]
      cases held : (optionPlace s slot).accumulating with
      | none =>
        rw [held] at has
        cases has
      | some existing =>
        rw [held] at has
        exact keeps.newer existing held has
    · intro b found has without
      rw [same]
      refine keeps.older b found has fun c held => ?_
      have unchanged := without _ rfl
      rw [held] at unchanged
      exact unchanged
  | answered delta gamma theta vega rho iv _ received =>
    rw [received, Option.some_or] at same
    constructor
    · intro b found _
      cases found
      exact same
    · intro b found has without
      exact absurd (without _ rfl) (by simp [Bucket.updateGreeks])
  | popped now event idle =>
    subst event
    constructor
    · intro b found
      cases found
    · intro b found has _
      exact same.trans (keeps.newer b found has)
  | written event =>
    subst event
    constructor
    · intro b found has
      exact same.trans (keeps.newer b found has)
    · intro b found
      cases found
  | restored event =>
    subst event
    constructor
    · intro b found has
      exact same.trans (keeps.restored found has)
    · intro b found
      cases found

theorem run_keeps {symbols : Dict String String} {past : List Event} {s : Pipeline} (slot : String × ℤ)
    (reached : run step (start symbols) past = some s) : Keeps slot past (optionPlace s slot) := by
  let holds (past : List Event) (s : Pipeline) : Prop :=
    OptionSound (start symbols).streamerToTicker s ∧ Keeps slot past (optionPlace s slot)
  have initial : holds [] (start symbols) :=
    ⟨⟨rfl, rfl, List.nodup_nil⟩, ⟨fun _ found => (nomatch found), fun _ found => (nomatch found)⟩⟩
  have keep (past : List Event) (u : Pipeline) (e : Event) (t : Pipeline) (before : holds past u)
      (taken : step u e = some t) : holds (past ++ [e]) t :=
    ⟨before.1.step taken, before.2.step (step_optionMoves before.1 taken slot)⟩
  exact (run_history initial keep reached).2

theorem complete_optionRow (resolved : ResolvedContract) (b : Bucket) :
    Complete (rowGreeks (optionRow resolved b)) ↔ Complete (fiveGreeks b) := by
  simp [Complete, rowGreeks, fiveGreeks, optionRow]

/-- In every run the live rows that the pipeline stores have all five Greeks exactly when, for each of them, the last
Greeks event received before its flush has. -/
theorem live_rows_complete_iff (symbols : Dict String String) (events : List Event) :
    LiveRowsComplete symbols events ↔ CompleteWhenFlushed symbols events := by
  constructor
  · intro complete write slot b member has known free
    obtain ⟨resolved, found⟩ := (Dict.mem_iff _ _).mp known
    have held := (run_keeps slot write.reached).newer b (write.mem_popped member) has
    refine ⟨_, held, ?_⟩
    obtain ⟨absent, after, taken, stored⟩ := (write.stores_iff (barKey slot) (optionRow resolved b)).mpr
      ⟨slot, b, resolved, rfl, member, found, free, rfl⟩
    obtain ⟨rest, part⟩ := write.part
    have reached : run step (start symbols) (write.first ++ .beginFlush write.now :: write.during) =
        some write.awaiting := run_append_some.mpr ⟨write.began, write.reached, write.going⟩
    have shown := complete _ rest _ _ _ _ part reached taken absent stored (by simp [optionRow, has])
    exact (complete_optionRow resolved b).mp shown
  · intro condition past rest u v key row part reached taken absent stored live
    obtain ⟨write, rfl, -⟩ := OptionWrite.exists_of_step part reached taken
    obtain ⟨slot, b, resolved, rfl, member, found, free, rfl⟩ :=
      (write.stores_iff key row).mp ⟨absent, v, taken, stored⟩
    have has : b.hasGreeks = true := by
      by_contra without
      simp [optionRow, without] at live
    obtain ⟨greeks, last, complete⟩ := condition write slot b member has ((Dict.mem_iff _ _).mpr ⟨_, found⟩) free
    have held := (run_keeps slot write.reached).newer b (write.mem_popped member) has
    cases last.symm.trans held
    exact (complete_optionRow resolved b).mpr complete

def sampleOption : ResolvedContract := ⟨"C1", "SPX", 0, 100, .call, none⟩

def partialGreeks : List Event :=
  [.refresh (Dict.assign ∅ [("C1", sampleOption)]),
    .greeks (some "C1") (some .nan) (some (.val 1)) (some (.val 1)) (some (.val 1)) (some (.val 1)) none 0,
    .beginFlush 70000000]

theorem partial_greeks_live : ¬ ∀ symbols events, LiveRowsComplete symbols events := by
  intro all
  obtain ⟨u, reached⟩ : ∃ u, run step (start ∅) partialGreeks = some u :=
    Option.isSome_iff_exists.mp (by decide +kernel)
  obtain ⟨v, taken⟩ : ∃ v, step u (.endOptionWrite true) = some v := by
    have both : ((run step (start ∅) partialGreeks).bind fun u => step u (.endOptionWrite true)).isSome = true := by
      decide +kernel
    rw [reached] at both
    exact Option.isSome_iff_exists.mp both
  have before : ((run step (start ∅) partialGreeks).map fun u => u.optionTable.lookup ("C1", 0)) = some none := by
    decide +kernel
  have after : (run step (start ∅) (partialGreeks ++ [.endOptionWrite true])).bind
      (fun v => (v.optionTable.lookup ("C1", 0)).map fun row => (row.greeksSource, row.delta)) =
        some (some .live, none) := by decide +kernel
  rw [reached, Option.map_some, Option.some_inj] at before
  rw [run_concat_some.mpr ⟨u, reached, taken⟩, Option.bind_some] at after
  obtain ⟨row, stored, shown⟩ := Option.map_eq_some_iff.mp after
  have complete := all ∅ (partialGreeks ++ [.endOptionWrite true]) partialGreeks [] u v ("C1", 0) row rfl reached
    taken before stored (Prod.mk.inj shown).1
  exact complete row.delta (by simp [rowGreeks]) (Prod.mk.inj shown).2

end OptionsProof.LiveRows
