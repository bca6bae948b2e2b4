import OptionsData.Ingestion.PipelineBars

namespace OptionsProof.OptionBuckets

open Kit OptionsModel OptionsModel.Pipeline OptionsProof.Pipeline

def optionMark (route : Dict String String) (slot : String × ℤ) : Event → Option ℚ
  | .quote (some symbol) bidPrice askPrice now =>
    if symbol ≠ "" ∧ route.lookup symbol = none ∧ slot = (symbol, minuteEpoch now) then
      quoteMark bidPrice askPrice
    else none
  | _ => none

def greeksOf (slot : String × ℤ) : Event → Option (List (Option Number))
  | .greeks (some symbol) delta gamma theta vega rho _ now =>
    if symbol ≠ "" ∧ slot = (symbol, minuteEpoch now) then
      some [getAttrAny [delta], getAttrAny [gamma], getAttrAny [theta], getAttrAny [vega], getAttrAny [rho]]
    else none
  | _ => none

def fiveGreeks (b : Bucket) : List (Option Number) := [b.delta, b.gamma, b.theta, b.vega, b.rho]

/-- A flush at `now` pops the buckets of the minute. -/
def Due (minute now : ℤ) : Prop := (minute + 60) * 1000000 + 5000000 ≤ now

structure OptionPlace where
  accumulating : Option Bucket
  inFlight : Option Bucket

def OptionPlace.restored (p : OptionPlace) : Option Bucket :=
  p.inFlight.elim p.accumulating fun b => some (p.accumulating.elim b fun existing => existing.mergeOlder b)

def optionPlace (s : Pipeline) (slot : String × ℤ) : OptionPlace :=
  ⟨s.optionBars.buckets.lookup slot, Dict.firstRow s.optionsInFlight slot⟩

inductive OptionMoves (s : Pipeline) (slot : String × ℤ) (e : Event) : OptionPlace → Prop where
  | kept (unmarked : optionMark s.streamerToTicker slot e = none) (unanswered : greeksOf slot e = none)
      (early : ∀ now, e = .beginFlush now → ¬ Due slot.2 now) (going : ∀ succeeds, e ≠ .endOptionWrite succeeds) :
      OptionMoves s slot e (optionPlace s slot)
  | marked (q : ℚ) (bid ask : Option Number) (usable : optionMark s.streamerToTicker slot e = some q)
      (unanswered : greeksOf slot e = none) :
      OptionMoves s slot e { optionPlace s slot with
        accumulating := some (((optionPlace s slot).accumulating.getD {}).updatePrice (.val q) bid ask) }
  | answered (delta gamma theta vega rho iv : Option Number)
      (unmarked : optionMark s.streamerToTicker slot e = none)
      (received : greeksOf slot e = some [delta, gamma, theta, vega, rho]) :
      OptionMoves s slot e { optionPlace s slot with
        accumulating :=
          some (((optionPlace s slot).accumulating.getD {}).updateGreeks delta gamma theta vega rho iv) }
  | popped (now : ℤ) (event : e = .beginFlush now) (idle : (optionPlace s slot).inFlight = none)
      (due : Due slot.2 now) : OptionMoves s slot e ⟨none, (optionPlace s slot).accumulating⟩
  | written (event : e = .endOptionWrite true) : OptionMoves s slot e ⟨(optionPlace s slot).accumulating, none⟩
  | restored (event : e = .endOptionWrite false) :
      OptionMoves s slot e ⟨(optionPlace s slot).restored, none⟩

theorem onQuote_optionMoves (s : Pipeline) (slot : String × ℤ) (symbol : Option String)
    (bidPrice askPrice : Option Number) (now : ℤ) :
    OptionMoves s slot (.quote symbol bidPrice askPrice now)
      (optionPlace (s.onQuote symbol bidPrice askPrice now) slot) := by
  have keep (unmarked : optionMark s.streamerToTicker slot (.quote symbol bidPrice askPrice now) = none) :
      OptionMoves s slot (.quote symbol bidPrice askPrice now) (optionPlace s slot) :=
    .kept unmarked rfl (fun _ same => nomatch same) (fun _ same => nomatch same)
  unfold Pipeline.onQuote
  split
  · exact keep rfl
  · exact keep (by simp [optionMark])
  · next symbol named =>
    have nonempty : symbol ≠ "" := fun empty => named (by rw [empty])
    dsimp only
    split
    · next ticker routed => exact keep (by simp [optionMark, routed])
    · next unrouted =>
      have placed : optionPlace { s with
            optionQuoteEvents := s.optionQuoteEvents + 1
            optionBars := s.optionBars.onQuote symbol (getAttrAny [bidPrice]) (getAttrAny [askPrice]) now } slot =
          { optionPlace s slot with
            accumulating := (s.optionBars.onQuote symbol (getAttrAny [bidPrice]) (getAttrAny [askPrice])
              now).buckets.lookup slot } := rfl
      rw [placed, BarAggregator.onQuote_lookup]
      cases marked : mark (getAttrAny [bidPrice]) (getAttrAny [askPrice]) with
      | none => exact keep (by simp [optionMark, quoteMark, marked])
      | some m =>
        obtain ⟨q, rfl⟩ := mark_val marked
        by_cases here : slot = (symbol, minuteEpoch now)
        · have usable : optionMark s.streamerToTicker slot (.quote (some symbol) bidPrice askPrice now) = some q := by
            simp [optionMark, nonempty, unrouted, here, quoteMark, marked]
          have moved : OptionMoves s slot (.quote (some symbol) bidPrice askPrice now) _ :=
            .marked q (getAttrAny [bidPrice]) (getAttrAny [askPrice]) usable rfl
          rw [← here]
          simpa [optionPlace] using moved
        · simpa [here, optionPlace] using keep (by simp [optionMark, here])

theorem onOptionGreeks_optionMoves (s : Pipeline) (slot : String × ℤ) (symbol : Option String)
    (delta gamma theta vega rho volatility : Option Number) (now : ℤ) :
    OptionMoves s slot (.greeks symbol delta gamma theta vega rho volatility now)
      (optionPlace (s.onOptionGreeks symbol delta gamma theta vega rho volatility now) slot) := by
  have keep (unanswered : greeksOf slot (.greeks symbol delta gamma theta vega rho volatility now) = none) :
      OptionMoves s slot (.greeks symbol delta gamma theta vega rho volatility now) (optionPlace s slot) :=
    .kept rfl unanswered (fun _ same => nomatch same) (fun _ same => nomatch same)
  unfold Pipeline.onOptionGreeks
  split
  · exact keep rfl
  · exact keep (by simp [greeksOf])
  · next symbol named =>
    have nonempty : symbol ≠ "" := fun empty => named (by rw [empty])
    have placed : optionPlace { s with
          optionBars := s.optionBars.onGreeks symbol (getAttrAny [delta]) (getAttrAny [gamma]) (getAttrAny [theta])
            (getAttrAny [vega]) (getAttrAny [rho]) (getAttrAny [volatility]) now } slot =
        { optionPlace s slot with
          accumulating := (s.optionBars.onGreeks symbol (getAttrAny [delta]) (getAttrAny [gamma])
            (getAttrAny [theta]) (getAttrAny [vega]) (getAttrAny [rho]) (getAttrAny [volatility])
            now).buckets.lookup slot } := rfl
    rw [placed, BarAggregator.onGreeks_lookup]
    by_cases here : slot = (symbol, minuteEpoch now)
    · have received : greeksOf slot (.greeks (some symbol) delta gamma theta vega rho volatility now) =
          some [getAttrAny [delta], getAttrAny [gamma], getAttrAny [theta], getAttrAny [vega], getAttrAny [rho]] :=
        if_pos ⟨nonempty, here⟩
      rw [if_pos here]
      exact .answered _ _ _ _ _ _ rfl received
    · rw [if_neg here]
      exact keep (if_neg fun both => here both.2)

theorem beginFlush_optionPlace (s : Pipeline) (slot : String × ℤ) (now : ℤ) (idle : s.flush = .idle) :
    optionPlace (s.beginFlush now) slot =
      if s.optionBars.isReady now slot then ⟨none, (optionPlace s slot).accumulating⟩ else optionPlace s slot := by
  have nothing : Dict.firstRow s.optionsInFlight slot = none := by simp [optionsInFlight, idle]
  simp only [optionPlace, Pipeline.beginFlush, optionsInFlight, BarAggregator.popReady_rest,
    BarAggregator.popReady_first]
  split
  · rfl
  · simpa [optionsInFlight] using nothing.symm

theorem endOptionWrite_optionMoves (s : Pipeline) (slot : String × ℤ) (succeeds : Bool) {ready : Popped}
    {rows : List (BarKey × OptionBar1m)} {underlyings : Popped} (flush : s.flush = .options ready rows underlyings)
    (unique : (s.optionsInFlight.map Prod.fst).Nodup) :
    OptionMoves s slot (.endOptionWrite succeeds)
      (optionPlace (s.endOptionWrite ready rows underlyings succeeds) slot) := by
  have flying : s.optionsInFlight = ready := by rw [optionsInFlight, flush]
  rw [flying] at unique
  cases succeeds with
  | true =>
    have moved : OptionMoves s slot (.endOptionWrite true) _ := .written rfl
    simpa [optionPlace, Pipeline.endOptionWrite, optionsInFlight, flush] using moved
  | false =>
    have moved : OptionMoves s slot (.endOptionWrite false) _ := .restored rfl
    simpa [OptionPlace.restored, optionPlace, Pipeline.endOptionWrite, optionsInFlight, flush,
      BarAggregator.restore_lookup _ unique] using moved

structure OptionSound (route : Dict String String) (s : Pipeline) : Prop where
  route : s.streamerToTicker = route
  grace : s.optionBars.flushGrace = 5000000
  unique : (s.optionsInFlight.map Prod.fst).Nodup

theorem OptionSound.fed {route : Dict String String} {s t : Pipeline} (sound : OptionSound route s) (fed : Fed s t) :
    OptionSound route t := by
  have unique := sound.unique
  rw [optionsInFlight, ← fed.flush, ← optionsInFlight] at unique
  exact ⟨fed.route.trans sound.route, fed.options.grace.trans sound.grace, unique⟩

theorem OptionSound.step {route : Dict String String} {s t : Pipeline} {e : Event} (sound : OptionSound route s)
    (taken : step s e = some t) : OptionSound route t := by
  cases e with
  | quote symbol bidPrice askPrice now =>
    cases taken
    exact sound.fed (onQuote_fed s symbol bidPrice askPrice now)
  | greeks symbol delta gamma theta vega rho volatility now =>
    cases taken
    exact sound.fed (onOptionGreeks_fed s symbol delta gamma theta vega rho volatility now)
  | refresh tracked =>
    cases taken
    exact ⟨sound.route, sound.grace, sound.unique⟩
  | foreign options underlyings =>
    cases taken
    exact ⟨sound.route, sound.grace, sound.unique⟩
  | beginFlush now =>
    obtain ⟨-, rfl⟩ := beginFlush_taken.mp taken
    exact ⟨sound.route, sound.grace, BarAggregator.popReady_nodup _ _⟩
  | endOptionWrite succeeds =>
    obtain ⟨ready, rows, underlyings, flush, -, rfl⟩ := endOptionWrite_taken.mp taken
    cases succeeds with
    | true => exact ⟨sound.route, sound.grace, List.nodup_nil⟩
    | false => exact ⟨sound.route, (BarAggregator.restore_flushGrace ..).trans sound.grace, List.nodup_nil⟩
  | endUnderlyingWrite succeeds =>
    obtain ⟨ready, flush, -, rfl⟩ := endUnderlyingWrite_taken.mp taken
    cases succeeds <;> exact ⟨sound.route, sound.grace, List.nodup_nil⟩

theorem step_optionMoves {route : Dict String String} {s t : Pipeline} {e : Event} (sound : OptionSound route s)
    (taken : step s e = some t) (slot : String × ℤ) : OptionMoves s slot e (optionPlace t slot) := by
  have unmoved (unmarked : optionMark s.streamerToTicker slot e = none) (unanswered : greeksOf slot e = none)
      (early : ∀ now, e = .beginFlush now → ¬ Due slot.2 now) (going : ∀ succeeds, e ≠ .endOptionWrite succeeds)
      (same : optionPlace t slot = optionPlace s slot) : OptionMoves s slot e (optionPlace t slot) :=
    same ▸ .kept unmarked unanswered early going
  cases e with
  | quote symbol bidPrice askPrice now =>
    cases taken
    exact onQuote_optionMoves s slot symbol bidPrice askPrice now
  | greeks symbol delta gamma theta vega rho volatility now =>
    cases taken
    exact onOptionGreeks_optionMoves s slot symbol delta gamma theta vega rho volatility now
  | refresh tracked =>
    cases taken
    exact unmoved rfl rfl (by simp) (by simp) rfl
  | foreign options underlyings =>
    cases taken
    exact unmoved rfl rfl (by simp) (by simp) rfl
  | beginFlush now =>
    obtain ⟨idle, rfl⟩ := beginFlush_taken.mp taken
    have ready : s.optionBars.isReady now slot = true ↔ Due slot.2 now := by
      rw [BarAggregator.isReady, sound.grace, decide_eq_true_eq, Due]
    have placed := beginFlush_optionPlace s slot now idle
    split at placed
    · next popped =>
      rw [placed]
      exact .popped now rfl (by simp [optionPlace, optionsInFlight, idle]) (ready.mp popped)
    · next held =>
      refine unmoved rfl rfl (fun t same due => ?_) (by simp) placed
      cases same
      exact held (ready.mpr due)
  | endOptionWrite succeeds =>
    obtain ⟨ready, rows, underlyings, flush, -, rfl⟩ := endOptionWrite_taken.mp taken
    exact endOptionWrite_optionMoves s slot succeeds flush sound.unique
  | endUnderlyingWrite succeeds =>
    obtain ⟨ready, flush, -, rfl⟩ := endUnderlyingWrite_taken.mp taken
    refine unmoved rfl rfl (by simp) (by simp) ?_
    cases succeeds <;> simp [optionPlace, Pipeline.endUnderlyingWrite, optionsInFlight, flush]

theorem optionRows_first (tracked : Tracked) (ready : Popped) (slot : String × ℤ) :
    Dict.firstRow (optionRows tracked ready) (barKey slot) =
      (Dict.firstRow ready slot).bind fun b => (tracked.lookup slot.1).map fun resolved => optionRow resolved b := by
  induction ready with
  | nil => rfl
  | cons popped ready ih =>
    rw [Dict.firstRow_cons, optionRows, List.filterMap_cons]
    by_cases same : slot = popped.1
    · subst same
      cases known : tracked.lookup popped.1.1 with
      | none =>
        rw [known] at ih
        simpa [optionRows] using ih
      | some resolved => simp [Dict.firstRow_cons]
    · have other : barKey slot ≠ barKey popped.1 := fun equal => same (barKey_injective equal)
      cases tracked.lookup popped.1.1 with
      | none => simpa [same, optionRows] using ih
      | some resolved => simpa [same, other, Dict.firstRow_cons, optionRows] using ih

def Quiet (during : List Event) : Prop := ∀ e ∈ during, ∀ succeeds, e ≠ .endOptionWrite succeeds

theorem options_stay {s t : Pipeline} {e : Event} {ready : Popped} {rows : List (BarKey × OptionBar1m)}
    {underlyings : Popped} (flush : s.flush = .options ready rows underlyings) (taken : step s e = some t)
    (going : ∀ succeeds, e ≠ .endOptionWrite succeeds) : t.flush = s.flush := by
  rcases step_flush taken with ⟨same, -⟩ | ⟨_, -, idle⟩ | ⟨succeeds, _, event, -⟩ | ⟨_, _, -, writing, -⟩
  · exact same
  · cases flush.symm.trans idle
  · exact absurd event (going succeeds)
  · cases flush.symm.trans writing

theorem options_before {s t : Pipeline} {e : Event} {ready : Popped} {rows : List (BarKey × OptionBar1m)}
    {underlyings : Popped} (taken : step s e = some t) (flush : t.flush = .options ready rows underlyings) :
    (∃ now, e = .beginFlush now) ∨ s.flush = t.flush ∧ ∀ succeeds, e ≠ .endOptionWrite succeeds := by
  rcases step_flush taken with ⟨same, going⟩ | ⟨now, event, -⟩ | ⟨_, _, -, -, after⟩ | ⟨_, _, -, -, after⟩
  · exact .inr ⟨same.symm, going⟩
  · exact .inl ⟨now, event⟩
  · cases flush.symm.trans after
  · cases flush.symm.trans after

/-- One option write of a run that succeeds: where its flush began, and what it found when it ended. -/
structure OptionWrite (symbols : Dict String String) (events : List Event) where
  first : List Event
  now : ℤ
  during : List Event
  began : Pipeline
  awaiting : Pipeline
  part : ∃ rest, events = first ++ .beginFlush now :: during ++ .endOptionWrite true :: rest
  quiet : Quiet during
  reached : run step (start symbols) first = some began
  going : run step began (.beginFlush now :: during) = some awaiting

namespace OptionWrite

variable {symbols : Dict String String} {events : List Event}

def popped (write : OptionWrite symbols events) : Popped := (write.began.optionBars.popReady write.now).1

def Stores (write : OptionWrite symbols events) (key : BarKey) (row : OptionBar1m) : Prop :=
  write.awaiting.optionTable.lookup key = none ∧
    ∃ after, step write.awaiting (.endOptionWrite true) = some after ∧ after.optionTable.lookup key = some row

theorem flush (write : OptionWrite symbols events) :
    ∃ underlyings, write.awaiting.flush =
      .options write.popped (optionRows write.began.tracked write.popped) underlyings := by
  obtain ⟨flushing, taken, waiting⟩ := run_cons_some.mp write.going
  obtain ⟨-, rfl⟩ := beginFlush_taken.mp taken
  let holds (s : Pipeline) : Prop := ∃ underlyings,
    s.flush = .options write.popped (optionRows write.began.tracked write.popped) underlyings
  have keep (s : Pipeline) (e : Event) (t : Pipeline) (before : holds s)
      (allowed : ∀ succeeds, e ≠ .endOptionWrite succeeds) (taken : step s e = some t) : holds t := by
    rcases before with ⟨underlyings, flush⟩
    exact ⟨underlyings, (options_stay flush taken allowed).trans flush⟩
  have guarded : Guarded step (fun _ e => ∀ succeeds, e ≠ .endOptionWrite succeeds)
      (write.began.beginFlush write.now) write.during :=
    guarded_of_forall (fun e member _ => write.quiet e member) _
  exact run_guarded_invariant keep ⟨_, rfl⟩ guarded waiting

theorem stores_iff (write : OptionWrite symbols events) (key : BarKey) (row : OptionBar1m) :
    write.Stores key row ↔ ∃ slot b resolved, key = barKey slot ∧ (slot, b) ∈ write.popped ∧
      write.began.tracked.lookup slot.1 = some resolved ∧ barKey slot ∉ write.awaiting.optionTable ∧
      row = optionRow resolved b := by
  obtain ⟨underlyings, flush⟩ := write.flush
  have unique : (write.popped.map Prod.fst).Nodup := BarAggregator.popReady_nodup _ _
  have taken : step write.awaiting (.endOptionWrite true) = some (write.awaiting.endOptionWrite write.popped
      (optionRows write.began.tracked write.popped) underlyings true) :=
    endOptionWrite_taken.mpr ⟨_, _, _, flush, by simp, rfl⟩
  have added : (write.awaiting.endOptionWrite write.popped (optionRows write.began.tracked write.popped)
      underlyings true).optionTable.lookup key = (write.awaiting.optionTable.lookup key).or
        (Dict.firstRow (optionRows write.began.tracked write.popped) key) :=
    Dict.lookup_insertAll _ _ _
  simp only [Stores, taken, Option.some_inj, exists_eq_left', added]
  constructor
  · intro premise
    rcases premise with ⟨free, found⟩
    rw [free, Option.none_or] at found
    obtain ⟨⟨slot, b⟩, member, listed⟩ := List.mem_filterMap.mp (Dict.mem_of_firstRow found)
    obtain ⟨resolved, known, same⟩ := Option.map_eq_some_iff.mp listed
    cases same
    exact ⟨slot, b, resolved, rfl, member, known, AList.lookup_eq_none.mp free, rfl⟩
  · intro premise
    rcases premise with ⟨slot, b, resolved, rfl, member, known, free, rfl⟩
    have absent := AList.lookup_eq_none.mpr free
    refine ⟨absent, ?_⟩
    rw [absent, Option.none_or, optionRows_first, Dict.firstRow_of_nodup unique member, Option.bind_some, known,
      Option.map_some]

theorem exists_of_step {past rest : List Event} {u v : Pipeline}
    (part : events = past ++ .endOptionWrite true :: rest) (reached : run step (start symbols) past = some u)
    (taken : step u (.endOptionWrite true) = some v) :
    ∃ write : OptionWrite symbols events, write.awaiting = u ∧
      past = write.first ++ .beginFlush write.now :: write.during := by
  let writing (s : Pipeline) : Prop := ∃ ready rows underlyings, s.flush = .options ready rows underlyings
  have closed : ¬ writing (start symbols) := fun premise => by
    rcases premise with ⟨ready, rows, underlyings, flush⟩
    cases flush
  have before (s : Pipeline) (e : Event) (t : Pipeline) (taken : step s e = some t) (awaited : writing t) :
      (∃ now, e = .beginFlush now) ∨ writing s ∧ ¬ ∃ succeeds, e = .endOptionWrite succeeds := by
    rcases awaited with ⟨ready, rows, underlyings, flush⟩
    refine (options_before taken flush).imp_right fun both => ⟨⟨ready, rows, underlyings, both.1.trans flush⟩, ?_⟩
    exact fun premise => premise.elim both.2
  obtain ⟨ready, rows, underlyings, flush, -, -⟩ := endOptionWrite_taken.mp taken
  obtain ⟨first, e, during, s, rfl, ⟨now, rfl⟩, quiet, began, waiting⟩ :=
    run_opened closed before reached ⟨ready, rows, underlyings, flush⟩
  have quietly : Quiet during := fun e member succeeds same => quiet e member ⟨succeeds, same⟩
  exact ⟨⟨first, now, during, s, u, ⟨rest, part⟩, quietly, began, waiting⟩, rfl, rfl⟩

theorem mem_popped (write : OptionWrite symbols events) {slot : String × ℤ} {b : Bucket}
    (member : (slot, b) ∈ write.popped) : (optionPlace write.began slot).accumulating = some b :=
  (BarAggregator.mem_popReady.mp member).1

end OptionWrite

end OptionsProof.OptionBuckets
