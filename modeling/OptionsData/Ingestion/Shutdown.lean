import OptionsData.Ingestion.PipelineBars

namespace OptionsProof.Shutdown

open Kit OptionsModel OptionsModel.Pipeline

inductive Kind where
  | option
  | underlying
deriving DecidableEq, Repr

def bars : Kind → Pipeline → BarAggregator
  | .option, s => s.optionBars
  | .underlying, s => s.underlyingBars

/-- The buckets that the running flush has popped and neither written nor restored. -/
def popped : Kind → Pipeline → Popped
  | .option, s => s.optionsInFlight
  | .underlying, s => s.inFlight

def Stored : Kind → Pipeline → String × ℤ → Prop
  | .option, s, slot => barKey slot ∈ s.optionTable
  | .underlying, s, slot => barKey slot ∈ s.underlyingTable

/-- A bar of an untracked contract is dropped by design. -/
def Known : Kind → Pipeline → String × ℤ → Prop
  | .option, s, slot => slot.1 ∈ s.tracked
  | .underlying, _, _ => True

def foreignKeys (kind : Kind) (events : List Event) : List BarKey :=
  events.flatMap fun
    | .foreign options underlyings => match kind with
      | .option => options.map Prod.fst
      | .underlying => underlyings.map Prod.fst
    | _ => []

/-- What still happens once `run` is cancelled: the feed delivers, other writers write. -/
def isOutside : Event → Bool
  | .quote .. | .greeks .. | .foreign .. => true
  | _ => false

/-- A run whose flush is cancelled at an awaited write, and the `close` after it. -/
structure Interruption where
  symbols : Dict String String
  before : List Event
  held : Pipeline
  reached : run step (start symbols) before = some held
  now : ℤ
  during : List Event
  unfinished : ∀ e ∈ during, ∀ t, e ≠ .beginFlush t
  interrupted : Pipeline
  flushing : run step held (.beginFlush now :: during) = some interrupted
  cancelled : Pipeline
  cancels : cancel interrupted = some cancelled
  between : List Event
  closing : Pipeline
  received : run step cancelled between = some closing
  first : List Event
  second : List Event
  closed : Pipeline
  closes : run step closing (close first second) = some closed
  outside : ∀ e ∈ between ++ first ++ second, isOutside e = true

def Kept (kind : Kind) (s : Pipeline) (slot : String × ℤ) : Prop :=
  slot ∈ (bars kind s).buckets ∨ slot ∈ (popped kind s).map Prod.fst ∨ Stored kind s slot

def RowReady (kind : Kind) (s : Pipeline) (slot : String × ℤ) : Prop :=
  kind = .option → ∀ ready rows underlyings, s.flush = .options ready rows underlyings → slot ∈ ready.map Prod.fst →
    barKey slot ∈ rows.map Prod.fst

theorem bars_fed {s t : Pipeline} (fed : Fed s t) (kind : Kind) : Grown (bars kind s) (bars kind t) := by
  cases kind with
  | option => exact fed.options
  | underlying => exact fed.underlyings

theorem stored_fed {s t : Pipeline} (fed : Fed s t) (kind : Kind) (slot : String × ℤ) :
    Stored kind t slot ↔ Stored kind s slot := by
  cases kind <;> simp only [Stored, fed.optionTable, fed.underlyingTable]

theorem Kept.frame {kind : Kind} {s t : Pipeline} {slot : String × ℤ} (kept : Kept kind s slot)
    (flush : t.flush = s.flush) (grows : slot ∈ (bars kind s).buckets → slot ∈ (bars kind t).buckets)
    (stays : Stored kind s slot → Stored kind t slot) : Kept kind t slot := by
  refine kept.imp grows (Or.imp (fun flying => ?_) stays)
  cases kind <;> simpa only [popped, optionsInFlight, Pipeline.inFlight, flush] using flying

theorem Kept.fed {kind : Kind} {s t : Pipeline} {slot : String × ℤ} (kept : Kept kind s slot)
    (rows : RowReady kind s slot) (fed : Fed s t) : RowReady kind t slot ∧ Kept kind t slot := by
  refine ⟨?_, kept.frame fed.flush ((bars_fed fed kind).holds slot) (stored_fed fed kind slot).mpr⟩
  rwa [RowReady, fed.flush]

theorem Kept.step {kind : Kind} {s t : Pipeline} {slot : String × ℤ} {e : Event} (kept : Kept kind s slot)
    (rows : RowReady kind s slot) (taken : Pipeline.step s e = some t) (other : ∀ now, e ≠ .beginFlush now) :
    RowReady kind t slot ∧ Kept kind t slot := by
  cases e with
  | quote symbol bidPrice askPrice now =>
    cases taken
    exact kept.fed rows (onQuote_fed s symbol bidPrice askPrice now)
  | greeks symbol delta gamma theta vega rho volatility now =>
    cases taken
    exact kept.fed rows (onOptionGreeks_fed s symbol delta gamma theta vega rho volatility now)
  | refresh tracked =>
    cases taken
    refine ⟨rows, kept.frame rfl (fun held => ?_) fun stored => ?_⟩ <;> cases kind <;> assumption
  | foreign options underlyings =>
    cases taken
    refine ⟨rows, kept.frame rfl (fun held => ?_) fun stored => ?_⟩
    · cases kind <;> exact held
    · cases kind <;> exact (Dict.mem_insertAll _ _ _).mpr (.inl stored)
  | beginFlush now => exact absurd rfl (other now)
  | endOptionWrite succeeds =>
    obtain ⟨ready, written, underlyings, flush, -, rfl⟩ := endOptionWrite_taken.mp taken
    refine ⟨by cases succeeds <;> rintro _ _ _ _ ⟨⟩, ?_⟩
    cases kind with
    | option =>
      have covered := rows rfl ready written underlyings flush
      simp only [Kept, bars, popped, Stored, optionsInFlight, flush] at kept
      rcases kept with held | flying | stored <;> cases succeeds
      · exact .inl (BarAggregator.restore_grows _ (.inl held))
      · exact .inl held
      · exact .inl (BarAggregator.restore_grows _ (.inr flying))
      · exact .inr (.inr ((Dict.mem_insertAll _ _ _).mpr (.inr (covered flying))))
      · exact .inr (.inr stored)
      · exact .inr (.inr ((Dict.mem_insertAll _ _ _).mpr (.inl stored)))
    | underlying =>
      simp only [Kept, bars, popped, Stored, Pipeline.inFlight, flush] at kept
      cases succeeds <;> exact kept
  | endUnderlyingWrite succeeds =>
    obtain ⟨ready, flush, -, rfl⟩ := endUnderlyingWrite_taken.mp taken
    refine ⟨by cases succeeds <;> rintro _ _ _ _ ⟨⟩, ?_⟩
    cases kind with
    | option =>
      simp only [Kept, bars, popped, Stored, optionsInFlight, flush] at kept
      cases succeeds <;> exact kept
    | underlying =>
      simp only [Kept, bars, popped, Stored, Pipeline.inFlight, flush] at kept
      rcases kept with held | flying | stored <;> cases succeeds
      · exact .inl (BarAggregator.restore_grows _ (.inl held))
      · exact .inl held
      · exact .inl (BarAggregator.restore_grows _ (.inr flying))
      · exact .inr (.inr ((Dict.mem_insertAll _ _ _).mpr (.inr (mem_underlyingRows.mpr flying))))
      · exact .inr (.inr stored)
      · exact .inr (.inr ((Dict.mem_insertAll _ _ _).mpr (.inl stored)))

theorem Kept.beginFlush {kind : Kind} {s : Pipeline} {slot : String × ℤ} (held : slot ∈ (bars kind s).buckets)
    (known : Known kind s slot) (now : ℤ) :
    RowReady kind (s.beginFlush now) slot ∧ Kept kind (s.beginFlush now) slot := by
  constructor
  · rintro rfl ready rows underlyings flush member
    cases flush
    exact mem_optionRows.mpr ⟨member, known⟩
  · cases ready : (bars kind s).isReady now slot with
    | false =>
      left
      cases kind <;> exact BarAggregator.mem_popReady_rest.mpr ⟨held, ready⟩
    | true =>
      right
      left
      cases kind <;> exact BarAggregator.mem_popped.mpr ⟨held, ready⟩

theorem kept_during {kind : Kind} {s u : Pipeline} {slot : String × ℤ} {now : ℤ} {during : List Event}
    (held : slot ∈ (bars kind s).buckets) (known : Known kind s slot)
    (reached : run step s (.beginFlush now :: during) = some u) (unfinished : ∀ e ∈ during, ∀ t, e ≠ .beginFlush t) :
    Kept kind u slot := by
  obtain ⟨flushing, taken, rest⟩ := run_cons_some.mp reached
  obtain ⟨-, rfl⟩ := beginFlush_taken.mp taken
  have keep (v : Pipeline) (e : Event) (t : Pipeline) (kept : RowReady kind v slot ∧ Kept kind v slot)
      (other : ∀ t, e ≠ .beginFlush t) (taken : step v e = some t) : RowReady kind t slot ∧ Kept kind t slot :=
    kept.2.step kept.1 taken other
  have start := Kept.beginFlush held known now
  exact (run_guarded_invariant keep start (guarded_of_forall (fun e member _ => unfinished e member) _) rest).2

structure Drifts (s : Pipeline) (events : List Event) (t : Pipeline) : Prop where
  flush : t.flush = s.flush
  tracked : t.tracked = s.tracked
  holds : ∀ kind slot, slot ∈ (bars kind s).buckets → slot ∈ (bars kind t).buckets
  stored : ∀ kind slot, Stored kind t slot ↔ Stored kind s slot ∨ barKey slot ∈ foreignKeys kind events

theorem drifts_of_fed {s t : Pipeline} {e : Event} (fed : Fed s t) (own : ∀ kind, foreignKeys kind [e] = []) :
    Drifts s [e] t where
  flush := fed.flush
  tracked := fed.tracked
  holds kind slot := (bars_fed fed kind).holds slot
  stored kind slot := by simp [stored_fed fed, own]

theorem outside_step {s t : Pipeline} {e : Event} (outside : isOutside e = true) (taken : step s e = some t) :
    Drifts s [e] t := by
  cases e with
  | quote symbol bidPrice askPrice now =>
    cases taken
    exact drifts_of_fed (onQuote_fed s symbol bidPrice askPrice now) fun kind => by cases kind <;> rfl
  | greeks symbol delta gamma theta vega rho volatility now =>
    cases taken
    exact drifts_of_fed (onOptionGreeks_fed s symbol delta gamma theta vega rho volatility now)
      fun kind => by cases kind <;> rfl
  | foreign options underlyings =>
    cases taken
    refine ⟨rfl, rfl, fun kind slot held => by cases kind <;> exact held, fun kind slot => ?_⟩
    cases kind <;> simp [Stored, foreignKeys, Dict.mem_insertAll]
  | _ => cases outside

theorem outside_run {s t : Pipeline} {events : List Event} (outside : ∀ e ∈ events, isOutside e = true)
    (reached : run step s events = some t) : Drifts s events t := by
  let holds (past : List Event) (u : Pipeline) : Prop := (∀ e ∈ past, isOutside e = true) → Drifts s past u
  have start : holds [] s := fun _ =>
    ⟨rfl, rfl, fun _ _ held => held, fun kind slot => by simp [foreignKeys]⟩
  have keep (past : List Event) (u : Pipeline) (e : Event) (t : Pipeline) (before : holds past u)
      (taken : step u e = some t) : holds (past ++ [e]) t := by
    intro outside
    have first := before fun e member => outside e (List.mem_append_left _ member)
    have last := outside_step (outside e (by simp)) taken
    refine ⟨last.flush.trans first.flush, last.tracked.trans first.tracked,
      fun kind slot held => last.holds kind slot (first.holds kind slot held), fun kind slot => ?_⟩
    rw [last.stored, first.stored, foreignKeys, foreignKeys, foreignKeys, List.flatMap_append, List.mem_append,
      or_assoc]
  exact run_history start keep reached outside

theorem stored_endOptionWrite (kind : Kind) (s : Pipeline) (ready : Popped) (rows : List (BarKey × OptionBar1m))
    (underlyings : Popped) (slot : String × ℤ) :
    Stored kind (s.endOptionWrite ready rows underlyings true) slot ↔
      Stored kind s slot ∨ kind = .option ∧ barKey slot ∈ rows.map Prod.fst := by
  cases kind with
  | option => exact (Dict.mem_insertAll s.optionTable rows (barKey slot)).trans (by simp [Stored])
  | underlying => simp [Stored, Pipeline.endOptionWrite]

theorem stored_endUnderlyingWrite (kind : Kind) (s : Pipeline) (ready : Popped) (slot : String × ℤ) :
    Stored kind (s.endUnderlyingWrite ready true) slot ↔
      Stored kind s slot ∨ kind = .underlying ∧ slot ∈ ready.map Prod.fst := by
  cases kind with
  | option => simp [Stored, Pipeline.endUnderlyingWrite]
  | underlying =>
    rw [← mem_underlyingRows]
    exact (Dict.mem_insertAll s.underlyingTable (underlyingRows ready) (barKey slot)).trans (by simp [Stored])

theorem beginFlush_flush (s : Pipeline) (now : ℤ) :
    (s.beginFlush now).flush = .options (s.optionBars.popReady now).1
      (optionRows s.tracked (s.optionBars.popReady now).1) (s.underlyingBars.popReady now).1 := rfl

theorem foreignKeys_append (kind : Kind) (first second : List Event) :
    foreignKeys kind (first ++ second) = foreignKeys kind first ++ foreignKeys kind second :=
  List.flatMap_append

theorem close_stored {s t : Pipeline} {first second : List Event}
    (outside : ∀ e ∈ first ++ second, isOutside e = true) (reached : run step s (close first second) = some t)
    (kind : Kind) (slot : String × ℤ) :
    Stored kind t slot ↔ Stored kind s slot ∨ barKey slot ∈ foreignKeys kind (first ++ second) ∨
      slot ∈ (bars kind s).buckets ∧ (bars kind s).isReady farFuture slot = true ∧ Known kind s slot := by
  obtain ⟨d, before, last⟩ := run_concat_some.mp reached
  obtain ⟨b, opened, rest⟩ := run_append_some.mp before
  obtain ⟨a, taken, waited⟩ := run_cons_some.mp opened
  obtain ⟨c, wrote, waited'⟩ := run_cons_some.mp rest
  obtain ⟨-, rfl⟩ := beginFlush_taken.mp taken
  have early := outside_run (fun e member => outside e (List.mem_append_left _ member)) waited
  have late := outside_run (fun e member => outside e (List.mem_append_right _ member)) waited'
  obtain ⟨ready, rows, underlyings, flush, -, rfl⟩ := endOptionWrite_taken.mp wrote
  obtain ⟨ready', flush', -, rfl⟩ := endUnderlyingWrite_taken.mp last
  have started := (early.flush.symm.trans flush).symm.trans (beginFlush_flush s farFuture)
  obtain ⟨rfl, rfl, rfl⟩ := Flush.options.inj started
  obtain rfl := Flush.underlyings.inj ((late.flush.symm.trans flush').symm.trans rfl)
  have popped : Stored kind (s.beginFlush farFuture) slot ↔ Stored kind s slot := by cases kind <;> rfl
  rw [stored_endUnderlyingWrite, late.stored, stored_endOptionWrite, early.stored, popped, foreignKeys_append,
    List.mem_append, mem_optionRows, BarAggregator.mem_popped, BarAggregator.mem_popped]
  cases kind with
  | option => simp only [bars, Known, and_assoc, true_and, reduceCtorEq, false_and]; tauto
  | underlying => simp only [bars, Known, and_true, true_and, reduceCtorEq, false_and]; tauto

theorem cancel_taken {s t : Pipeline} (taken : cancel s = some t) : t = { s with flush := .idle } := by
  unfold cancel at taken
  split at taken
  · cases taken
  · exact (Option.some.inj (Option.ite_none_left_eq_some.mp taken).2).symm
  · exact (Option.some.inj (Option.ite_none_left_eq_some.mp taken).2).symm

theorem grace_step {s t : Pipeline} {e : Event} (taken : step s e = some t) (kind : Kind) :
    (bars kind t).flushGrace = (bars kind s).flushGrace := by
  cases e with
  | quote symbol bidPrice askPrice now =>
    cases taken
    exact (bars_fed (onQuote_fed s symbol bidPrice askPrice now) kind).grace
  | greeks symbol delta gamma theta vega rho volatility now =>
    cases taken
    exact (bars_fed (onOptionGreeks_fed s symbol delta gamma theta vega rho volatility now) kind).grace
  | refresh tracked =>
    cases taken
    cases kind <;> rfl
  | foreign options underlyings =>
    cases taken
    cases kind <;> rfl
  | beginFlush now =>
    obtain ⟨-, rfl⟩ := beginFlush_taken.mp taken
    cases kind <;> rfl
  | endOptionWrite succeeds =>
    obtain ⟨ready, rows, underlyings, -, -, rfl⟩ := endOptionWrite_taken.mp taken
    cases succeeds <;> cases kind <;> simp [bars, Pipeline.endOptionWrite]
  | endUnderlyingWrite succeeds =>
    obtain ⟨ready, -, -, rfl⟩ := endUnderlyingWrite_taken.mp taken
    cases succeeds <;> cases kind <;> simp [bars, Pipeline.endUnderlyingWrite]

namespace Interruption

theorem grace (d : Interruption) (kind : Kind) : (bars kind d.closing).flushGrace = 5000000 := by
  have kept (s : Pipeline) (e : Event) (t : Pipeline) (graced : (bars kind s).flushGrace = 5000000)
      (taken : step s e = some t) : (bars kind t).flushGrace = 5000000 := (grace_step taken kind).trans graced
  have started : (bars kind (start d.symbols)).flushGrace = 5000000 := by cases kind <;> rfl
  have interrupted := run_invariant kept (run_invariant kept started d.reached) d.flushing
  have cancelled : (bars kind d.cancelled).flushGrace = 5000000 := by
    rw [cancel_taken d.cancels, ← interrupted]
    cases kind <;> rfl
  exact run_invariant kept cancelled d.received

/-- Each tracked bucket held before the flush has its row once `close` is done. -/
def LosesNothing (d : Interruption) : Prop :=
  ∀ kind slot, slot ∈ (bars kind d.held).buckets → Known kind d.held slot → Known kind d.closing slot →
    Stored kind d.closed slot

/-- No such bucket was in flight when the flush was cancelled, unless its row or a newer bucket makes up for it. -/
def Spares (d : Interruption) : Prop :=
  ∀ kind slot, slot ∈ (bars kind d.held).buckets → Known kind d.held slot → Known kind d.closing slot →
    Stored kind d.interrupted slot ∨ barKey slot ∈ foreignKeys kind (d.between ++ d.first ++ d.second) ∨
      (slot ∉ (popped kind d.interrupted).map Prod.fst ∨ slot ∈ (bars kind d.closing).buckets) ∧
        slot.2 + 65 ≤ 2 ^ 31 - 1

theorem stored_iff (d : Interruption) (kind : Kind) (slot : String × ℤ) :
    Stored kind d.closed slot ↔
      Stored kind d.interrupted slot ∨ barKey slot ∈ foreignKeys kind (d.between ++ d.first ++ d.second) ∨
        slot ∈ (bars kind d.closing).buckets ∧ slot.2 + 65 ≤ 2 ^ 31 - 1 ∧ Known kind d.closing slot := by
  have outside := d.outside
  have drift := outside_run (fun e member => outside e (by simp [member])) d.received
  have same : Stored kind d.cancelled slot ↔ Stored kind d.interrupted slot := by
    rw [cancel_taken d.cancels]
    cases kind <;> rfl
  have ready : (bars kind d.closing).isReady farFuture slot = true ↔ slot.2 + 65 ≤ 2 ^ 31 - 1 := by
    simp only [BarAggregator.isReady, d.grace kind, farFuture, decide_eq_true_eq]
    omega
  rw [List.append_assoc] at outside
  rw [close_stored (fun e member => outside e (List.mem_append_right _ member)) d.closes kind slot, drift.stored,
    same, ready]
  simp only [foreignKeys_append, List.mem_append]
  tauto

/-- Shutdown loses no bar exactly when the cancelled flush had no tracked bar in flight that nothing makes up for. -/
theorem losesNothing_iff (d : Interruption) : d.LosesNothing ↔ d.Spares := by
  constructor
  · intro lossless kind slot held known known'
    have row := lossless kind slot held known known'
    rcases (d.stored_iff kind slot).mp row with stored | foreign | ⟨again, bound, -⟩
    · exact .inl stored
    · exact .inr (.inl foreign)
    · exact .inr (.inr ⟨.inr again, bound⟩)
  · intro spared kind slot held known known'
    apply (d.stored_iff kind slot).mpr
    have kept := kept_during held known d.flushing d.unfinished
    rcases spared kind slot held known known' with stored | foreign | ⟨landed | again, bound⟩
    · exact .inl stored
    · exact .inr (.inl foreign)
    · rcases kept with waiting | flying | stored
      · have drift := outside_run (fun e member => d.outside e (by simp [member])) d.received
        have still : slot ∈ (bars kind d.cancelled).buckets := by
          rw [cancel_taken d.cancels]
          cases kind <;> exact waiting
        exact .inr (.inr ⟨drift.holds kind slot still, bound, known'⟩)
      · exact absurd flying landed
      · exact .inl stored
    · exact .inr (.inr ⟨again, bound, known'⟩)

end Interruption

def cancelledWrite : Interruption where
  symbols := Dict.assign ∅ [("SPX", "feed")]
  before := [.quote (some "feed") (some (.val 10)) (some (.val 12)) 0]
  held := (run step (start (Dict.assign ∅ [("SPX", "feed")]))
    [.quote (some "feed") (some (.val 10)) (some (.val 12)) 0]).get (by decide +kernel)
  reached := (Option.some_get _).symm
  now := 70000000
  during := [.endOptionWrite true]
  unfinished := by simp
  interrupted := (run step _ [.beginFlush 70000000, .endOptionWrite true]).get (by decide +kernel)
  flushing := (Option.some_get _).symm
  cancelled := (cancel _).get (by decide +kernel)
  cancels := (Option.some_get _).symm
  between := []
  closing := _
  received := rfl
  first := []
  second := []
  closed := (run step _ (close [] [])).get (by decide +kernel)
  closes := (Option.some_get _).symm
  outside := by simp

theorem cancelledWrite_loses : ¬ ∀ d : Interruption, d.LosesNothing := by
  intro lossless
  have stored := lossless cancelledWrite .underlying ("SPX", 0) (by decide +kernel) trivial trivial
  revert stored
  show ¬ _ ∈ _
  decide +kernel

end OptionsProof.Shutdown
