import OptionsData.Kit.Run
import OptionsData.Kit.Covering
import OptionsData.Ingestion.Scheduler
import OptionsData.Ingestion.CandlePolls

namespace OptionsModel

open Kit

/-- The window is compared with the UTC clock time, which is what is left of an instant past midnight. -/
def inWindow (now : ℤ) (start stop : TimeOfDay) (weekdaysOnly : Bool) : Bool :=
  if weekdaysOnly && 5 ≤ weekday (date now) then false
  else start.reading ≤ now % DAY && now % DAY ≤ stop.reading

structure PollArgs where
  tickers : List String
  interval : ℤ
  lookback : ℤ
  windowStart : TimeOfDay
  windowEnd : TimeOfDay
  weekdaysOnly : Bool := true
  once : Bool := false
  asOf : Option ℤ := none

inductive LoopPhase where
  | head
  | pass (now : ℤ) (left : List String)
  | waiting (since : ℤ)
  | ended
deriving DecidableEq, Repr

/-- One call of `poll_ticker`: the pass it belongs to, where its request starts and when it is made. -/
structure TickerPoll where
  ticker : String
  now : ℤ
  start : ℤ
  made : ℤ
  answered : Bool
deriving DecidableEq, Repr

structure PollLoop where
  clock : ℤ
  stopEvent : Bool := false
  phase : LoopPhase := .head
  polls : List TickerPoll := []
  closes : ℕ := 0
deriving DecidableEq, Repr

inductive LoopAction where
  | elapse (time : ℕ)
  | signal
  | turn
  | poll (answered : Bool)
  | wake
  | cancel

namespace PollLoop

/-- The `finally` block. -/
def finish (s : PollLoop) : PollLoop := { s with phase := .ended, closes := s.closes + 1 }

def endTick (args : PollArgs) (s : PollLoop) : PollLoop :=
  if args.once then s.finish else { s with phase := .waiting s.clock }

def proceed (args : PollArgs) (s : PollLoop) (now : ℤ) : List String → PollLoop
  | [] => s.endTick args
  | ticker :: left => { s with phase := .pass now (ticker :: left) }

def now (args : PollArgs) (s : PollLoop) : ℤ := args.asOf.getD s.clock

def pollOf (args : PollArgs) (s : PollLoop) (now : ℤ) (ticker : String) (answered : Bool) : TickerPoll :=
  { ticker := ticker, now := now, start := now - args.lookback, made := s.clock, answered := answered }

/-- A poll that raises is logged, and the loop goes on as after one that returns. -/
def step (args : PollArgs) (s : PollLoop) : LoopAction → Option PollLoop
  | .elapse time => some { s with clock := s.clock + time }
  | .signal => some { s with stopEvent := true }
  | .cancel => if s.phase = .ended then none else some s.finish
  | .turn =>
    match s.phase with
    | .head =>
      if s.stopEvent then some s.finish
      else if args.once || inWindow (s.now args) args.windowStart args.windowEnd args.weekdaysOnly then
        some (s.proceed args (s.now args) args.tickers)
      else some (s.endTick args)
    | _ => none
  | .poll answered =>
    match s.phase with
    | .pass now (ticker :: left) =>
      some ({ s with polls := s.polls ++ [s.pollOf args now ticker answered] }.proceed args now left)
    | _ => none
  | .wake =>
    match s.phase with
    | .waiting since =>
      if s.stopEvent || since + args.interval ≤ s.clock then some { s with phase := .head } else none
    | _ => none

end PollLoop

end OptionsModel

namespace OptionsProof.PollLoop

open Kit OptionsModel OptionsModel.PollLoop OptionsProof.CandlePolls

variable {args : PollArgs} {s t : PollLoop} {a : LoopAction}

def MayPoll (args : PollArgs) (now : ℤ) : Prop :=
  args.once = true ∨ inWindow now args.windowStart args.windowEnd args.weekdaysOnly = true

theorem proceed_cases (args : PollArgs) (s : PollLoop) (now : ℤ) (left : List String) :
    (s.proceed args now left = { s with phase := .pass now left } ∧ left ≠ []) ∨
      (left = [] ∧ s.proceed args now left = { s with phase := .waiting s.clock } ∧ args.once = false) ∨
      (left = [] ∧ s.proceed args now left = s.finish ∧ args.once = true) := by
  cases left with
  | nil =>
    rcases Bool.eq_false_or_eq_true args.once with single | goes
    · exact .inr (.inr ⟨rfl, by simp [proceed, endTick, single], single⟩)
    · exact .inr (.inl ⟨rfl, by simp [proceed, endTick, goes], goes⟩)
  | cons ticker left => exact .inl ⟨rfl, List.cons_ne_nil _ _⟩

theorem turn_cases (taken : step args s .turn = some t) :
    s.phase = .head ∧ ((s.stopEvent = true ∧ t = s.finish) ∨
      (s.stopEvent = false ∧ MayPoll args (s.now args) ∧ t = s.proceed args (s.now args) args.tickers) ∨
      (s.stopEvent = false ∧ ¬ MayPoll args (s.now args) ∧ t = s.endTick args)) := by
  simp only [step] at taken
  cases phase : s.phase with
  | head =>
    simp only [phase] at taken
    refine ⟨rfl, ?_⟩
    split at taken
    · next stopped => exact .inl ⟨stopped, (Option.some.inj taken).symm⟩
    · next going =>
      rw [Bool.not_eq_true] at going
      split at taken
      · next may => exact .inr (.inl ⟨going, (Bool.or_eq_true _ _).mp may, (Option.some.inj taken).symm⟩)
      · next mayNot =>
        exact .inr (.inr ⟨going, fun may => mayNot ((Bool.or_eq_true _ _).mpr may), (Option.some.inj taken).symm⟩)
  | pass now left => simp [phase] at taken
  | waiting since => simp [phase] at taken
  | ended => simp [phase] at taken

theorem poll_cases {answered : Bool} (taken : step args s (.poll answered) = some t) :
    ∃ now ticker left, s.phase = .pass now (ticker :: left) ∧
      t = { s with polls := s.polls ++ [s.pollOf args now ticker answered] }.proceed args now left := by
  simp only [step] at taken
  split at taken
  · next now ticker left phase => exact ⟨now, ticker, left, phase, (Option.some.inj taken).symm⟩
  · cases taken

theorem wake_cases (taken : step args s .wake = some t) :
    ∃ since, s.phase = .waiting since ∧ (s.stopEvent = true ∨ since + args.interval ≤ s.clock) ∧
      t = { s with phase := .head } := by
  simp only [step] at taken
  split at taken
  · next since phase =>
    split at taken
    · next due => exact ⟨since, phase, by simpa using due, (Option.some.inj taken).symm⟩
    · cases taken
  · cases taken

theorem cancel_cases (taken : step args s .cancel = some t) : s.phase ≠ .ended ∧ t = s.finish := by
  simp only [step] at taken
  split at taken
  · cases taken
  · next going => exact ⟨going, (Option.some.inj taken).symm⟩

instance (args : PollArgs) (now : ℤ) : Decidable (MayPoll args now) := inferInstanceAs (Decidable (_ ∨ _))

/-- The tick that an action begins: a turn of the loop inside the window. -/
def tickAt (args : PollArgs) (s : PollLoop) : LoopAction → Option ℤ
  | .turn => if s.phase = .head ∧ s.stopEvent = false ∧ MayPoll args (s.now args) then some (s.now args) else none
  | _ => none

/-- The ticks that a run begins, in order. -/
def ticksOf (args : PollArgs) (s : PollLoop) (actions : List LoopAction) : List ℤ :=
  outputs (step args) (tickAt args) s actions

def due (args : PollArgs) (ticks : List ℤ) : List (ℤ × String) :=
  ticks.flatMap fun tick => args.tickers.map fun ticker => (tick, ticker)

structure Ticked (args : PollArgs) (ticks : List ℤ) (s : PollLoop) (now : ℤ) (left : List String) : Prop where
  polls : s.polls.map (fun poll => (poll.now, poll.ticker)) ++ left.map (fun ticker => (now, ticker)) =
    due args ticks
  last : left ≠ [] → ticks.getLast? = some now ∧ left <:+ args.tickers
  place : match s.phase with
    | .pass tick rest => tick = now ∧ rest = left
    | .ended => True
    | _ => left = []

/-- Every tick polls every ticker, in order; only the pass under way, or the end of the loop, leaves some out. -/
def OnTicks (args : PollArgs) (ticks : List ℤ) (s : PollLoop) : Prop := ∃ now left, Ticked args ticks s now left

section

variable {ticks : List ℤ} {now : ℤ} {left : List String}

theorem Ticked.finish (ticked : Ticked args ticks s now left) : OnTicks args ticks s.finish :=
  ⟨now, left, ticked.polls, ticked.last, trivial⟩

theorem Ticked.proceed (ticked : Ticked args ticks { s with phase := .pass now left } now left) :
    OnTicks args ticks (s.proceed args now left) := by
  rcases proceed_cases args s now left with ⟨same, -⟩ | ⟨rfl, same, -⟩ | ⟨rfl, same, -⟩
  · exact ⟨now, left, same ▸ ticked⟩
  · exact ⟨now, [], same ▸ ⟨ticked.polls, ticked.last, rfl⟩⟩
  · exact ⟨now, [], same ▸ ⟨ticked.polls, ticked.last, trivial⟩⟩

theorem Ticked.endTick (ticked : Ticked args ticks s now []) : OnTicks args ticks (s.endTick args) := by
  unfold PollLoop.endTick
  split
  · exact ticked.finish
  · exact ⟨now, [], ticked.polls, ticked.last, rfl⟩

theorem Ticked.begin (ticked : Ticked args ticks s now []) (tick : ℤ) :
    Ticked args (ticks ++ [tick]) { s with phase := .pass tick args.tickers } tick args.tickers where
  polls := by
    have polls := ticked.polls
    rw [List.map_nil, List.append_nil] at polls
    rw [polls, due, due, List.flatMap_append, List.flatMap_singleton]
  last _ := ⟨List.getLast?_concat, List.suffix_rfl⟩
  place := ⟨rfl, rfl⟩

theorem Ticked.poll {ticker : String} {answered : Bool}
    (ticked : Ticked args ticks s now (ticker :: left)) :
    Ticked args ticks
      { s with polls := s.polls ++ [s.pollOf args now ticker answered], phase := .pass now left } now left where
  polls := by
    rw [← ticked.polls, List.map_append, List.append_assoc]
    rfl
  last _ := by
    obtain ⟨ends, within⟩ := ticked.last (List.cons_ne_nil _ _)
    exact ⟨ends, (List.suffix_cons ticker left).trans within⟩
  place := ⟨rfl, rfl⟩

theorem ticked_step (ticked : Ticked args ticks s now left) (taken : step args s a = some t) :
    OnTicks args (ticks ++ (tickAt args s a).toList) t := by
  have place := ticked.place
  have idle (nothing : tickAt args s a = none) (on : OnTicks args ticks t) :
      OnTicks args (ticks ++ (tickAt args s a).toList) t := by
    rwa [nothing, Option.toList_none, List.append_nil]
  cases a with
  | elapse time =>
    cases taken
    exact idle rfl ⟨now, left, ticked.polls, ticked.last, place⟩
  | signal =>
    cases taken
    exact idle rfl ⟨now, left, ticked.polls, ticked.last, place⟩
  | turn =>
    obtain ⟨phase, next⟩ := turn_cases taken
    rw [phase] at place
    dsimp only at place
    subst place
    rcases next with ⟨stopped, rfl⟩ | ⟨going, may, rfl⟩ | ⟨-, mayNot, rfl⟩
    · exact idle (by simp [tickAt, stopped]) ticked.finish
    · have tick : tickAt args s .turn = some (s.now args) := by simp [tickAt, phase, going, may]
      rw [tick]
      exact (ticked.begin (s.now args)).proceed
    · exact idle (by simp [tickAt, mayNot]) ticked.endTick
  | poll answered =>
    obtain ⟨tick, ticker, rest, phase, rfl⟩ := poll_cases taken
    rw [phase] at place
    obtain ⟨rfl, rfl⟩ := place
    exact idle rfl ticked.poll.proceed
  | wake =>
    obtain ⟨since, phase, -, rfl⟩ := wake_cases taken
    rw [phase] at place
    exact idle rfl ⟨now, left, ticked.polls, ticked.last, place⟩
  | cancel =>
    obtain ⟨-, rfl⟩ := cancel_cases taken
    exact idle rfl ticked.finish

end

def left (s : PollLoop) : List String :=
  match s.phase with
  | .pass _ left => left
  | _ => []

/-- What a loop that has been told to stop may still do: end the pass it is in, and then nothing but leave. -/
def Stopping (pending : List String) (before : List TickerPoll) (s : PollLoop) : Prop :=
  s.stopEvent = true ∧ ∃ new, s.polls = before ++ new ∧ new.map TickerPoll.ticker ++ left s <+: pending

theorem stopping_of_done {pending : List String} {before new : List TickerPoll} {t : PollLoop}
    (told : t.stopEvent = true) (polls : t.polls = before ++ new) (done : new.map TickerPoll.ticker <+: pending)
    (none : left t = []) : Stopping pending before t :=
  ⟨told, new, polls, by rwa [none, List.append_nil]⟩

theorem stopping_step {pending : List String} {before : List TickerPoll} (stopping : Stopping pending before s)
    (taken : step args s a = some t) : Stopping pending before t := by
  obtain ⟨told, new, polls, within⟩ := stopping
  have done := (List.prefix_append (new.map TickerPoll.ticker) (left s)).trans within
  cases a with
  | elapse time =>
    cases taken
    exact ⟨told, new, polls, within⟩
  | signal =>
    cases taken
    exact ⟨rfl, new, polls, within⟩
  | turn =>
    obtain ⟨-, ⟨-, rfl⟩ | ⟨going, -⟩ | ⟨going, -⟩⟩ := turn_cases taken
    · exact stopping_of_done told polls done rfl
    · cases told.symm.trans going
    · cases told.symm.trans going
  | poll answered =>
    obtain ⟨now, ticker, rest, phase, rfl⟩ := poll_cases taken
    have further : (new ++ [s.pollOf args now ticker answered]).map TickerPoll.ticker ++ rest <+: pending := by
      have unfolded : left s = ticker :: rest := by rw [left, phase]
      rw [unfolded] at within
      simpa [pollOf] using within
    have appended : s.polls ++ [s.pollOf args now ticker answered] =
        before ++ (new ++ [s.pollOf args now ticker answered]) := by
      rw [polls, List.append_assoc]
    rcases proceed_cases args { s with polls := s.polls ++ [s.pollOf args now ticker answered] } now rest with
      ⟨same, -⟩ | ⟨rfl, same, -⟩ | ⟨rfl, same, -⟩
    · rw [same]
      exact ⟨told, _, appended, further⟩
    · rw [same]
      rw [List.append_nil] at further
      exact stopping_of_done told appended further rfl
    · rw [same]
      rw [List.append_nil] at further
      exact stopping_of_done told appended further rfl
  | wake =>
    obtain ⟨since, -, -, rfl⟩ := wake_cases taken
    exact stopping_of_done told polls done rfl
  | cancel =>
    obtain ⟨-, rfl⟩ := cancel_cases taken
    exact stopping_of_done told polls done rfl

def ClosedOnce (s : PollLoop) : Prop := s.closes = if s.phase = .ended then 1 else 0

theorem ClosedOnce.finish (closed : ClosedOnce s) (going : s.phase ≠ .ended) : ClosedOnce s.finish := by
  rw [ClosedOnce, if_neg going] at closed
  rw [ClosedOnce, PollLoop.finish, closed, if_pos rfl]

theorem ClosedOnce.move {phase : LoopPhase} (closed : ClosedOnce s) (going : s.phase ≠ .ended)
    (goes : phase ≠ .ended) : ClosedOnce { s with phase := phase } := by
  rw [ClosedOnce, if_neg going] at closed
  rw [ClosedOnce, if_neg goes]
  exact closed

theorem ClosedOnce.proceed (closed : ClosedOnce s) (going : s.phase ≠ .ended) (now : ℤ) (left : List String) :
    ClosedOnce (s.proceed args now left) := by
  rcases proceed_cases args s now left with ⟨same, -⟩ | ⟨-, same, -⟩ | ⟨-, same, -⟩
  · rw [same]
    exact closed.move going LoopPhase.noConfusion
  · rw [same]
    exact closed.move going LoopPhase.noConfusion
  · rw [same]
    exact closed.finish going

theorem closedOnce_step (closed : ClosedOnce s) (taken : step args s a = some t) : ClosedOnce t := by
  cases a with
  | elapse time =>
    cases taken
    exact closed
  | signal =>
    cases taken
    exact closed
  | turn =>
    obtain ⟨phase, next⟩ := turn_cases taken
    have going : s.phase ≠ .ended := fun ended => LoopPhase.noConfusion (phase.symm.trans ended)
    rcases next with ⟨-, rfl⟩ | ⟨-, -, rfl⟩ | ⟨-, -, rfl⟩
    · exact closed.finish going
    · exact closed.proceed going (s.now args) args.tickers
    · exact closed.proceed going (s.now args) []
  | poll answered =>
    obtain ⟨now, ticker, rest, phase, rfl⟩ := poll_cases taken
    have going : s.phase ≠ .ended := fun ended => LoopPhase.noConfusion (phase.symm.trans ended)
    have appended : ClosedOnce { s with polls := s.polls ++ [s.pollOf args now ticker answered] } := closed
    exact appended.proceed going now rest
  | wake =>
    obtain ⟨since, phase, -, rfl⟩ := wake_cases taken
    have going : s.phase ≠ .ended := fun ended => LoopPhase.noConfusion (phase.symm.trans ended)
    exact closed.move going LoopPhase.noConfusion
  | cancel =>
    obtain ⟨going, rfl⟩ := cancel_cases taken
    exact closed.finish going

/-- Whatever polls fail, each turn inside the window polls each ticker once and in order; the source is closed once;
and from a signal on only the pass under way goes on. -/
theorem polls_by_tick (fresh : s.phase = .head ∧ s.polls = [] ∧ s.closes = 0) {actions : List LoopAction}
    (reached : run (step args) s actions = some t) :
    OnTicks args (ticksOf args s actions) t ∧ ClosedOnce t ∧
      ∀ past rest u, actions = past ++ rest → run (step args) s past = some u → u.stopEvent = true →
        ∃ new, t.polls = u.polls ++ new ∧ new.map TickerPoll.ticker <+: left u := by
  obtain ⟨phase, polls, closes⟩ := fresh
  refine ⟨?_, ?_, ?_⟩
  · have started : OnTicks args [] s :=
      ⟨0, [], by rw [polls]; rfl, fun some => absurd rfl some, by rw [phase]⟩
    have keep (past : List LoopAction) (u : PollLoop) (a : LoopAction) (v : PollLoop)
        (holds : run (step args) s past = some u ∧ OnTicks args (ticksOf args s past) u)
        (taken : step args u a = some v) :
        run (step args) s (past ++ [a]) = some v ∧ OnTicks args (ticksOf args s (past ++ [a])) v := by
      obtain ⟨before, now, left, ticked⟩ := holds
      rw [ticksOf, outputs_concat before]
      exact ⟨run_concat_some.mpr ⟨u, before, taken⟩, ticked_step ticked taken⟩
    exact (run_history ⟨rfl, started⟩ keep reached).2
  · have started : ClosedOnce s := by rw [ClosedOnce, closes, phase, if_neg LoopPhase.noConfusion]
    exact run_invariant (fun u a v holds taken => closedOnce_step holds taken) started reached
  · intro past rest u same before told
    subst same
    obtain ⟨w, reachedU, later⟩ := run_append_some.mp reached
    obtain rfl : u = w := Option.some.inj (before.symm.trans reachedU)
    have started : Stopping (left u) u.polls u := ⟨told, [], by simp, by simp⟩
    obtain ⟨-, new, appended, within⟩ :=
      run_invariant (fun v a w holds taken => stopping_step holds taken) started later
    exact ⟨new, appended, (List.prefix_append _ _).trans within⟩

/-- The candle poller's defaults, for one ticker. -/
def vixArgs : PollArgs where
  tickers := ["VIX"]
  interval := MINUTE
  lookback := 4 * MINUTE
  windowStart := ⟨13 * 60 * MINUTE + 25 * MINUTE, by decide, by decide⟩
  windowEnd := ⟨20 * 60 * MINUTE + 20 * MINUTE, by decide, by decide⟩

def openedAt (clock : ℤ) : PollLoop := { clock := clock }

def signalled : List LoopAction := [.turn, .signal, .poll false, .wake, .turn]

theorem polls_by_tick_stopped : ∃ t, run (step vixArgs) (openedAt (14 * 60 * MINUTE)) signalled = some t ∧
    OnTicks vixArgs [14 * 60 * MINUTE] t ∧ t.closes = 1 := by
  obtain ⟨t, reached⟩ : ∃ t, run (step vixArgs) (openedAt (14 * 60 * MINUTE)) signalled = some t := ⟨_, rfl⟩
  have right := polls_by_tick ⟨rfl, rfl, rfl⟩ reached
  refine ⟨t, reached, right.1, ?_⟩
  cases reached
  exact right.2.1

structure InOrder (args : PollArgs) (s : PollLoop) : Prop where
  past : s.now args ≤ s.clock
  polls : ∀ p ∈ s.polls,
    p.start = p.now - args.lookback ∧ p.now ≤ p.made ∧ p.now ≤ s.now args ∧ p.made ≤ s.clock
  forward : s.polls.Pairwise fun p q => p.now ≤ q.now ∧ p.made ≤ q.made
  current : ∀ now left, s.phase = .pass now left → now ≤ s.now args ∧ ∀ p ∈ s.polls, p.now ≤ now

theorem now_le_now (args : PollArgs) (s : PollLoop) (time : ℕ) :
    s.now args ≤ { s with clock := s.clock + time }.now args := by
  unfold PollLoop.now
  cases args.asOf with
  | none => exact Int.le_add_of_nonneg_right (Int.natCast_nonneg time)
  | some moment => exact le_rfl

theorem now_past (past : s.now args ≤ s.clock) (time : ℕ) :
    { s with clock := s.clock + time }.now args ≤ s.clock + time := by
  unfold PollLoop.now at *
  cases asOf : args.asOf with
  | none => exact le_rfl
  | some moment =>
    rw [asOf] at past
    exact past.trans (Int.le_add_of_nonneg_right (Int.natCast_nonneg time))

theorem InOrder.elapse (order : InOrder args s) (time : ℕ) : InOrder args { s with clock := s.clock + time } where
  past := now_past order.past time
  polls := by
    intro p member
    obtain ⟨start, made, begun, done⟩ := order.polls p member
    exact ⟨start, made, begun.trans (now_le_now args s time),
      done.trans (Int.le_add_of_nonneg_right (Int.natCast_nonneg time))⟩
  forward := order.forward
  current := by
    intro now left phase
    obtain ⟨begun, earlier⟩ := order.current now left phase
    exact ⟨begun.trans (now_le_now args s time), earlier⟩

theorem InOrder.move (order : InOrder args s) (phase : LoopPhase) (closes : ℕ)
    (current : ∀ now left, phase = .pass now left → now ≤ s.now args ∧ ∀ p ∈ s.polls, p.now ≤ now) :
    InOrder args { s with phase := phase, closes := closes } where
  past := order.past
  polls := order.polls
  forward := order.forward
  current := current

theorem InOrder.finish (order : InOrder args s) : InOrder args s.finish :=
  order.move _ _ fun _ _ same => LoopPhase.noConfusion same

theorem InOrder.proceed (order : InOrder args s) {now : ℤ} (left : List String) (begun : now ≤ s.now args)
    (earlier : ∀ p ∈ s.polls, p.now ≤ now) : InOrder args (s.proceed args now left) := by
  rcases proceed_cases args s now left with ⟨same, -⟩ | ⟨-, same, -⟩ | ⟨-, same, -⟩
  · rw [same]
    refine order.move _ _ fun other rest phase => ?_
    obtain ⟨rfl, -⟩ := LoopPhase.pass.inj phase
    exact ⟨begun, earlier⟩
  · rw [same]
    exact order.move _ _ fun _ _ same => LoopPhase.noConfusion same
  · rw [same]
    exact order.finish

theorem InOrder.poll (order : InOrder args s) {now : ℤ} {left : List String} (phase : s.phase = .pass now left)
    (ticker : String) (answered : Bool) :
    InOrder args { s with polls := s.polls ++ [s.pollOf args now ticker answered] } ∧
      ∀ p ∈ s.polls ++ [s.pollOf args now ticker answered], p.now ≤ now := by
  obtain ⟨begun, earlier⟩ := order.current now left phase
  have all : ∀ p ∈ s.polls ++ [s.pollOf args now ticker answered], p.now ≤ now := by
    intro p member
    rcases List.mem_append.mp member with old | new
    · exact earlier p old
    · rw [List.mem_singleton.mp new]
      exact le_rfl
  refine ⟨⟨order.past, ?_, ?_, ?_⟩, all⟩
  · intro p member
    rcases List.mem_append.mp member with old | new
    · exact order.polls p old
    · rw [List.mem_singleton.mp new]
      exact ⟨rfl, begun.trans order.past, begun, le_rfl⟩
  · refine List.pairwise_append.mpr ⟨order.forward, List.pairwise_singleton _ _, fun p old q new => ?_⟩
    rw [List.mem_singleton.mp new]
    exact ⟨earlier p old, (order.polls p old).2.2.2⟩
  · intro other rest same
    obtain ⟨rfl, -⟩ := LoopPhase.pass.inj (phase.symm.trans same)
    exact ⟨begun, all⟩

theorem inOrder_step (order : InOrder args s) (taken : step args s a = some t) : InOrder args t := by
  have earlier : ∀ p ∈ s.polls, p.now ≤ s.now args := fun p member => (order.polls p member).2.2.1
  cases a with
  | elapse time =>
    cases taken
    exact order.elapse time
  | signal =>
    cases taken
    exact ⟨order.past, order.polls, order.forward, order.current⟩
  | turn =>
    obtain ⟨-, ⟨-, rfl⟩ | ⟨-, -, rfl⟩ | ⟨-, -, rfl⟩⟩ := turn_cases taken
    · exact order.finish
    · exact order.proceed args.tickers le_rfl earlier
    · exact order.proceed [] le_rfl earlier
  | poll answered =>
    obtain ⟨now, ticker, rest, phase, rfl⟩ := poll_cases taken
    obtain ⟨polled, all⟩ := order.poll phase ticker answered
    exact polled.proceed rest (order.current now _ phase).1 all
  | wake =>
    obtain ⟨since, phase, -, rfl⟩ := wake_cases taken
    exact order.move _ _ fun _ _ same => LoopPhase.noConfusion same
  | cancel =>
    obtain ⟨-, rfl⟩ := cancel_cases taken
    exact order.finish

def answeredPolls (ticker : String) (s : PollLoop) : List TickerPoll :=
  s.polls.filter fun p => p.ticker = ticker && p.answered

/-- The minutes, by where they begin, that the request reaches back to and that have ended when it is made. -/
def ended (p : TickerPoll) : Piece ℤ := { first := p.start, last := p.made - MINUTE }

theorem meets_iff (p q : TickerPoll) :
    Meets (MINUTE ∣ ·) (ended p) (ended q) ↔ q.start ≤ p.made / MINUTE * MINUTE := by
  unfold Meets ended MINUTE
  constructor
  · intro meets
    exact meets (p.made / 60000000 * 60000000) ⟨p.made / 60000000, by ring⟩ (by dsimp only; omega)
  · intro reaches x whole past
    obtain ⟨k, rfl⟩ := whole
    dsimp only at *
    omega

theorem InOrder.pieces (order : InOrder args s) (reaches : MINUTE ≤ args.lookback) {ticker : String}
    {stretch : List TickerPoll} (within : stretch <:+: answeredPolls ticker s) :
    Forward (stretch.map ended) ∧ ∀ p ∈ stretch.map ended, p.first ≤ p.last := by
  have sublist : stretch.Sublist s.polls := within.sublist.trans List.filter_sublist
  constructor
  · rw [Forward, List.pairwise_map]
    refine (order.forward.sublist sublist).imp_of_mem fun memP memQ later => ?_
    have startP := (order.polls _ (sublist.subset memP)).1
    have startQ := (order.polls _ (sublist.subset memQ)).1
    unfold ended
    dsimp only
    omega
  · intro piece member
    obtain ⟨p, listed, rfl⟩ := List.mem_map.mp member
    obtain ⟨start, made, -⟩ := order.polls p (sublist.subset listed)
    unfold ended
    dsimp only
    omega

/-- The request of a poll, in the milliseconds of the feed, and what it receives. -/
def Asks (feed : Feed) (p : TickerPoll) (request : Request) : Prop :=
  request.start = p.start / 1000 ∧ request.made = p.made / 1000 ∧ request.Answers feed

theorem stored_of_ended {feed : Feed} {polls : List TickerPoll} {requests : List Request}
    (asked : List.Forall₂ (Asks feed) polls requests) {minute : ℤ} {final : Candle}
    (reached : ∃ p ∈ polls, (ended p).Holds (minute * 1000)) (settled : feed.settled minute = some final)
    (usable : usableCandle final = true) (ticker : String) :
    (ticker, minute) ∈ pollAll feed (fun table candles => (pollTicker ticker table candles).1) requests := by
  obtain ⟨p, member, low, high⟩ := reached
  obtain ⟨request, listed, start, made, answers⟩ : ∃ request ∈ requests, Asks feed p request := by
    obtain ⟨i, bound, rfl⟩ := List.getElem_of_mem member
    have same := asked.length_eq
    exact ⟨requests[i], List.getElem_mem _, asked.get bound (same ▸ bound)⟩
  have whole : request.CoversEnded minute := by
    unfold ended MINUTE at low high
    dsimp only at low high
    unfold Request.CoversEnded
    omega
  have received := settled_received answers whole settled
  have timed : final.time = some minute := feed.timed _ _ _ settled
  have found : (WriteLoop.firstUsable usableCandle minute (allCandles feed requests)).isSome := by
    refine List.find?_isSome.mpr ⟨final, List.mem_flatMap.mpr ⟨request, listed, received⟩, ?_⟩
    simp [timed, usable]
  rw [Dict.mem_iff, pollAll_lookup feed ticker usableCandle underlyingCandleRow _ (pollTicker_table ticker)]
  obtain ⟨c, first⟩ := Option.isSome_iff_exists.mp found
  exact ⟨underlyingCandleRow c, by rw [first, Option.map_some]⟩

/-- Answered polls leave no ended minute out exactly when each reaches back to the minute in which the one before it
was made; and a minute that one of them takes in has its row once its candle is usable. -/
theorem minutes_covered_iff (reaches : MINUTE ≤ args.lookback) (fresh : s.phase = .head ∧ s.polls = [])
    (past : ∀ moment ∈ args.asOf, moment ≤ s.clock) {actions : List LoopAction}
    (reached : run (step args) s actions = some t) (ticker : String) :
    (∀ stretch, stretch <:+: answeredPolls ticker t → (Covers (MINUTE ∣ ·) (stretch.map ended) ↔
      stretch.IsChain fun p q => q.start ≤ p.made / MINUTE * MINUTE)) ∧
    ∀ feed requests, List.Forall₂ (Asks feed) (answeredPolls ticker t) requests → ∀ minute final,
      (∃ p ∈ answeredPolls ticker t, (ended p).Holds (minute * 1000)) → feed.settled minute = some final →
        usableCandle final = true →
          (ticker, minute) ∈ pollAll feed (fun table candles => (pollTicker ticker table candles).1) requests := by
  have started : InOrder args s := by
    obtain ⟨phase, polls⟩ := fresh
    refine ⟨?_, by simp [polls], by simp [polls], fun now left same => by simp [phase] at same⟩
    unfold PollLoop.now
    cases asOf : args.asOf with
    | none => exact le_rfl
    | some moment => exact past moment asOf
  have order : InOrder args t := run_invariant (fun u a v holds taken => inOrder_step holds taken) started reached
  constructor
  · intro stretch within
    obtain ⟨forward, proper⟩ := order.pieces reaches within
    rw [covers_iff forward proper, List.isChain_map]
    exact List.IsChain.iff meets_iff
  · intro feed requests asked minute final covered settled usable
    exact stored_of_ended asked covered settled usable ticker

def minutely : List LoopAction :=
  [.turn, .poll true, .elapse 60000000, .wake, .turn, .poll false, .elapse 60000000, .wake, .turn, .poll true]

theorem minutes_covered_iff_minutely : ∃ t, run (step vixArgs) (openedAt (14 * 60 * MINUTE)) minutely = some t ∧
    (answeredPolls "VIX" t).length = 2 ∧ Covers (MINUTE ∣ ·) ((answeredPolls "VIX" t).map ended) := by
  obtain ⟨t, reached⟩ : ∃ t, run (step vixArgs) (openedAt (14 * 60 * MINUTE)) minutely = some t := ⟨_, rfl⟩
  have right := (minutes_covered_iff (by decide) ⟨rfl, rfl⟩ (fun _ none => absurd none (Option.not_mem_none _))
    reached "VIX").1 (answeredPolls "VIX" t) (List.infix_refl _)
  cases reached
  exact ⟨_, rfl, rfl, right.mpr (by decide)⟩

end OptionsProof.PollLoop
