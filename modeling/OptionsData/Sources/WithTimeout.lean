import OptionsData.Kit.Run
import OptionsData.Sources.AsyncUtils

namespace OptionsModel.WithTimeout

/-- How the task of the awaited operation ends; its own `TimeoutError` is told apart from its other exceptions. -/
inductive Outcome (α ε : Type*) where
  | returned (value : α)
  | raised (error : ε)
  | timedOut
  | cancelled
deriving DecidableEq, Repr

inductive Answer (α ε : Type*) where
  | returned (value : α)
  | raised (error : ε)
  | timeoutError
  | connectionError
  | cancelledError
deriving DecidableEq, Repr

/-- Where a call is: behind the shield, or awaiting the task that it has cancelled, before the grace period ends and
after it: `asyncio.wait_for` does not return before the task that it cancels has ended. -/
inductive Phase (α ε : Type*) where
  | shielded
  | grace
  | lapsed
  | done (answer : Answer α ε)
deriving DecidableEq, Repr

inductive Signal (α ε : Type*) where
  | ends (outcome : Outcome α ε)
  | timer
  /-- `cancel()` on the task that awaits the call. -/
  | cancel
deriving DecidableEq, Repr

end OptionsModel.WithTimeout

namespace OptionsModel

/-- A call that began at the time `began`; `cancelling` is that of the task that awaits it. -/
structure WithTimeout (α ε : Type*) where
  timeout : ℚ
  cancelGrace : ℚ
  began : ℚ
  now : ℚ
  cancelling : ℕ
  phase : WithTimeout.Phase α ε := .shielded
deriving DecidableEq

namespace WithTimeout

variable {α ε : Type*}

def start (timeout cancelGrace began : ℚ) (cancelling : ℕ) : WithTimeout α ε where
  timeout := timeout
  cancelGrace := cancelGrace
  began := began
  now := began
  cancelling := cancelling

def deadline (c : WithTimeout α ε) : Option ℚ :=
  match c.phase with
  | .shielded => some (c.began + c.timeout)
  | .grace => some (c.began + c.timeout + c.cancelGrace)
  | .lapsed | .done _ => none

def answer (cancelling : ℕ) : Outcome α ε → Answer α ε
  | .returned value => .returned value
  | .raised error => .raised error
  -- caught as if it were the timeout of the call
  | .timedOut => .timeoutError
  | .cancelled => if 0 < cancelling then .cancelledError else .connectionError

def receive (c : WithTimeout α ε) : Signal α ε → Option (WithTimeout α ε)
  | .ends outcome => match c.phase with
    | .shielded => some { c with phase := .done (answer c.cancelling outcome) }
    | .grace | .lapsed => some { c with phase := .done .timeoutError }
    | .done _ => none
  | .timer => match c.phase with
    | .shielded => some { c with phase := .grace }
    | .grace => some { c with phase := .lapsed }
    | .lapsed | .done _ => none
  | .cancel => match c.phase with
    | .shielded => some { c with phase := .done .cancelledError, cancelling := c.cancelling + 1 }
    -- the request goes to the task awaited, and however that ends the call raises `TimeoutError`
    | .grace | .lapsed => some { c with cancelling := c.cancelling + 1 }
    | .done _ => none

/-- A timer goes off at its deadline; everything else happens before. -/
def punctual (c : WithTimeout α ε) (time : ℚ) : Signal α ε → Bool
  | .timer => c.deadline = some time
  | _ => c.deadline.all (time < ·)

def step (c : WithTimeout α ε) (a : ℚ × Signal α ε) : Option (WithTimeout α ε) :=
  if c.now ≤ a.1 ∧ c.punctual a.1 a.2 then { c with now := a.1 }.receive a.2 else none

end WithTimeout

/-- `_subscribe_batched` and `_unsubscribe_batched`: the batches sent, the one awaited and those to come. -/
structure Batched (β : Type*) where
  sent : List β := []
  current : β
  rest : List β
  call : WithTimeout Unit Unit
  result : Option (WithTimeout.Answer Unit Unit) := none
deriving DecidableEq

namespace Batched

variable {β : Type*}

def start (timeout cancelGrace began : ℚ) (cancelling : ℕ) (batch : β) (batches : List β) : Batched β where
  current := batch
  rest := batches
  call := .start timeout cancelGrace began cancelling

def step (s : Batched β) (a : ℚ × WithTimeout.Signal Unit Unit) : Option (Batched β) :=
  if s.result.isSome then none
  else (s.call.step a).map fun call => match call.phase, s.rest with
    | .done (.returned _), batch :: batches =>
      { s with
        sent := s.sent ++ [s.current], current := batch, rest := batches
        call := .start call.timeout call.cancelGrace call.now call.cancelling }
    | .done (.returned _), [] => { s with sent := s.sent ++ [s.current], call := call, result := some (.returned ()) }
    | .done answer, _ => { s with call := call, result := some answer }
    | _, _ => { s with call := call }

end Batched

end OptionsModel

namespace OptionsProof.WithTimeout

open Kit OptionsModel OptionsModel.WithTimeout

variable {α ε β : Type*} {timeout grace began : ℚ} {n : ℕ}

def isCancel : ℚ × Signal α ε → Bool
  | (_, .cancel) => true
  | _ => false

def Waits (graceEnd : ℚ) (a : ℚ × Signal α ε) : Prop := isCancel a = true ∨ a = (graceEnd, .timer)

/-- All that can happen in a call: the operation ends in time, the caller is cancelled in time, or the time runs out
and the call is over when the operation ends, whatever it ends with and however often the caller is cancelled. -/
inductive Course (timeout grace began : ℚ) (n : ℕ) : List (ℚ × Signal α ε) → Answer α ε → ℚ → ℕ → Prop where
  | prompt {t : ℚ} {outcome : Outcome α ε} (since : began ≤ t) (inTime : t < began + timeout) :
      Course timeout grace began n [(t, .ends outcome)] (answer n outcome) t n
  | cancelled {t : ℚ} (since : began ≤ t) (inTime : t < began + timeout) :
      Course timeout grace began n [(t, .cancel)] .cancelledError t (n + 1)
  | late {t : ℚ} {outcome : Outcome α ε} {waiting : List (ℚ × Signal α ε)}
      (waits : ∀ a ∈ waiting, Waits (began + timeout + grace) a)
      (lapses : t < began + timeout + grace ↔ (began + timeout + grace, .timer) ∉ waiting) :
      Course timeout grace began n ((began + timeout, .timer) :: (waiting ++ [(t, .ends outcome)])) .timeoutError t
        (n + waiting.countP isCancel)

def Progress (timeout grace began : ℚ) (n : ℕ) (past : List (ℚ × Signal α ε)) (c : WithTimeout α ε) : Prop :=
  (c.timeout = timeout ∧ c.cancelGrace = grace ∧ c.began = began) ∧
    match c.phase with
    | .shielded => past = [] ∧ c.cancelling = n ∧ c.now = began
    | .grace => ∃ waiting, past = (began + timeout, .timer) :: waiting ∧ (∀ a ∈ waiting, isCancel a = true) ∧
        c.cancelling = n + waiting.countP isCancel
    | .lapsed => ∃ waiting, past = (began + timeout, .timer) :: waiting ∧
        (∀ a ∈ waiting, Waits (began + timeout + grace) a) ∧ (began + timeout + grace, .timer) ∈ waiting ∧
        c.cancelling = n + waiting.countP isCancel ∧ began + timeout + grace ≤ c.now
    | .done a => Course timeout grace began n past a c.now c.cancelling

theorem step_some {c d : WithTimeout α ε} {a : ℚ × Signal α ε} (taken : WithTimeout.step c a = some d) :
    c.now ≤ a.1 ∧ c.punctual a.1 a.2 = true ∧ { c with now := a.1 }.receive a.2 = some d := by
  unfold WithTimeout.step at taken
  split at taken
  · next meets => exact ⟨meets.1, meets.2, taken⟩
  · cases taken

theorem Progress.ends {past : List (ℚ × Signal α ε)} {c d : WithTimeout α ε} {t : ℚ} {outcome : Outcome α ε}
    (progress : Progress timeout grace began n past c) (taken : WithTimeout.step c (t, .ends outcome) = some d) :
    Progress timeout grace began n (past ++ [(t, .ends outcome)]) d := by
  obtain ⟨onward, inTime, received⟩ := step_some taken
  obtain ⟨⟨rfl, rfl, rfl⟩, progress⟩ := progress
  simp only [punctual, deadline] at inTime
  simp only [receive] at received
  cases there : c.phase with
  | shielded =>
    simp only [there] at progress inTime received
    cases received
    obtain ⟨rfl, rfl, now⟩ := progress
    exact ⟨⟨rfl, rfl, rfl⟩, .prompt (now ▸ onward) (of_decide_eq_true inTime)⟩
  | grace =>
    simp only [there] at progress inTime received
    cases received
    obtain ⟨waiting, rfl, cancels, count⟩ := progress
    refine ⟨⟨rfl, rfl, rfl⟩, ?_⟩
    show Course _ _ _ _ _ _ _ c.cancelling
    rw [count]
    refine .late (fun a member => .inl (cancels a member)) (iff_of_true (of_decide_eq_true inTime) fun member => ?_)
    cases cancels _ member
  | lapsed =>
    simp only [there] at progress received
    cases received
    obtain ⟨waiting, rfl, waits, lapsed, count, later⟩ := progress
    refine ⟨⟨rfl, rfl, rfl⟩, ?_⟩
    show Course _ _ _ _ _ _ _ c.cancelling
    rw [count]
    exact .late waits (iff_of_false (later.trans onward).not_gt (not_not_intro lapsed))
  | done answer =>
    simp only [there] at received
    cases received

theorem Progress.timer {past : List (ℚ × Signal α ε)} {c d : WithTimeout α ε} {t : ℚ}
    (progress : Progress timeout grace began n past c) (taken : WithTimeout.step c (t, .timer) = some d) :
    Progress timeout grace began n (past ++ [(t, .timer)]) d := by
  obtain ⟨onward, goesOff, received⟩ := step_some taken
  obtain ⟨⟨rfl, rfl, rfl⟩, progress⟩ := progress
  simp only [punctual, deadline] at goesOff
  simp only [receive] at received
  cases there : c.phase with
  | shielded =>
    simp only [there] at progress goesOff received
    cases received
    obtain ⟨rfl, rfl, -⟩ := progress
    obtain rfl : c.began + c.timeout = t := by simpa using goesOff
    exact ⟨⟨rfl, rfl, rfl⟩, [], rfl, fun _ member => absurd member List.not_mem_nil, rfl⟩
  | grace =>
    simp only [there] at progress goesOff received
    cases received
    obtain ⟨waiting, rfl, cancels, count⟩ := progress
    obtain rfl : c.began + c.timeout + c.cancelGrace = t := by simpa using goesOff
    refine ⟨⟨rfl, rfl, rfl⟩, waiting ++ [(c.began + c.timeout + c.cancelGrace, .timer)], rfl, fun a member => ?_,
      List.mem_concat_self, ?_, le_rfl⟩
    · rcases List.mem_append.mp member with earlier | last
      · exact .inl (cancels a earlier)
      · exact .inr (List.mem_singleton.mp last)
    · show c.cancelling = _
      rw [count, List.countP_append, List.countP_singleton]
      rfl
  | lapsed =>
    simp only [there] at received
    cases received
  | done answer =>
    simp only [there] at received
    cases received

theorem Progress.cancel {past : List (ℚ × Signal α ε)} {c d : WithTimeout α ε} {t : ℚ}
    (progress : Progress timeout grace began n past c) (taken : WithTimeout.step c (t, .cancel) = some d) :
    Progress timeout grace began n (past ++ [(t, .cancel)]) d := by
  obtain ⟨onward, inTime, received⟩ := step_some taken
  obtain ⟨⟨rfl, rfl, rfl⟩, progress⟩ := progress
  simp only [punctual, deadline] at inTime
  simp only [receive] at received
  have one : [((t, .cancel) : ℚ × Signal α ε)].countP isCancel = 1 := rfl
  cases there : c.phase with
  | shielded =>
    simp only [there] at progress inTime received
    cases received
    obtain ⟨rfl, rfl, now⟩ := progress
    exact ⟨⟨rfl, rfl, rfl⟩, .cancelled (now ▸ onward) (of_decide_eq_true inTime)⟩
  | grace =>
    simp only [there] at progress received
    cases received
    obtain ⟨waiting, rfl, cancels, count⟩ := progress
    refine ⟨⟨rfl, rfl, rfl⟩, waiting ++ [(t, .cancel)], rfl, fun a member => ?_, ?_⟩
    · rcases List.mem_append.mp member with earlier | last
      · exact cancels a earlier
      · rw [List.mem_singleton.mp last]
        rfl
    · show c.cancelling + 1 = _
      rw [count, List.countP_append, one, Nat.add_assoc]
  | lapsed =>
    simp only [there] at progress received
    cases received
    obtain ⟨waiting, rfl, waits, lapsed, count, later⟩ := progress
    refine ⟨⟨rfl, rfl, rfl⟩, waiting ++ [(t, .cancel)], rfl, fun a member => ?_, List.mem_append_left _ lapsed, ?_,
      later.trans onward⟩
    · rcases List.mem_append.mp member with earlier | last
      · exact waits a earlier
      · rw [List.mem_singleton.mp last]
        exact .inl rfl
    · show c.cancelling + 1 = _
      rw [count, List.countP_append, one, Nat.add_assoc]
  | done answer =>
    simp only [there] at received
    cases received

theorem Progress.step {past : List (ℚ × Signal α ε)} {c d : WithTimeout α ε} {a : ℚ × Signal α ε}
    (progress : Progress timeout grace began n past c) (taken : WithTimeout.step c a = some d) :
    Progress timeout grace began n (past ++ [a]) d := by
  rcases a with ⟨t, outcome | _ | _⟩
  · exact progress.ends taken
  · exact progress.timer taken
  · exact progress.cancel taken

theorem progress_start : Progress timeout grace began n [] (start timeout grace began n : WithTimeout α ε) :=
  ⟨⟨rfl, rfl, rfl⟩, rfl, rfl, rfl⟩

def sentAt (t : ℚ) : ℚ × Signal Unit Unit := (t, .ends (.returned ()))

theorem Course.of_returned {last : List (ℚ × Signal Unit Unit)} {now : ℚ} {cancelling : ℕ}
    (course : Course timeout grace began n last (.returned ()) now cancelling) :
    last = [sentAt now] ∧ cancelling = n ∧ began ≤ now ∧ now < began + timeout := by
  generalize same : (.returned () : Answer Unit Unit) = a at course
  cases course with
  | @prompt t outcome since inTime =>
    cases outcome with
    | returned => exact ⟨rfl, rfl, since, inTime⟩
    | cancelled =>
      simp only [answer] at same
      split at same <;> cases same
    | _ => cases same
  | _ => cases same

/-- When the batches before the one awaited were sent: each within its timeout, which begins when the one before it was
sent. -/
def InTime (timeout began : ℚ) (times : List ℚ) : Prop :=
  (began :: times).IsChain fun before sent => before ≤ sent ∧ sent < before + timeout

theorem InTime.concat {times : List ℚ} {t : ℚ} (inTime : InTime timeout began times)
    (onward : times.getLastD began ≤ t) (before : t < times.getLastD began + timeout) :
    InTime timeout began (times ++ [t]) := by
  rw [InTime, ← List.cons_append, List.isChain_append]
  refine ⟨inTime, .singleton t, fun last ends next first => ?_⟩
  rw [List.getLast?_cons, Option.mem_some_iff, ← List.getLastD_eq_getLast?] at ends
  rw [List.head?_cons, Option.mem_some_iff] at first
  subst ends first
  exact ⟨onward, before⟩

def Loop (timeout grace began : ℚ) (n : ℕ) (batches : List β) (past : List (ℚ × Signal Unit Unit)) (s : Batched β) :
    Prop :=
  ∃ (times : List ℚ) (last : List (ℚ × Signal Unit Unit)), past = times.map sentAt ++ last ∧
    InTime timeout began times ∧ (s.call.timeout = timeout ∧ s.call.cancelGrace = grace) ∧
      match s.result with
      | none => (times.length = s.sent.length ∧ s.sent ++ s.current :: s.rest = batches) ∧
          Progress timeout grace (times.getLastD began) n last s.call ∧ ∀ a, s.call.phase ≠ .done a
      | some a => Course timeout grace (times.getLastD began) n last a s.call.now s.call.cancelling ∧
          ((∃ u, a = .returned u) ∧ s.sent = batches ∧ times.length + 1 = s.sent.length ∨
            (∀ u, a ≠ .returned u) ∧ times.length = s.sent.length ∧ s.sent ++ s.current :: s.rest = batches)

theorem Loop.step {batches : List β} {past : List (ℚ × Signal Unit Unit)} {s t : Batched β}
    {a : ℚ × Signal Unit Unit} (loop : Loop timeout grace began n batches past s)
    (taken : Batched.step s a = some t) : Loop timeout grace began n batches (past ++ [a]) t := by
  obtain ⟨times, last, rfl, inTime, -, stands⟩ := loop
  obtain ⟨sent, current, rest, held, result⟩ := s
  cases result with
  | some answer => cases taken
  | none =>
    obtain ⟨⟨count, all⟩, progress, -⟩ := stands
    obtain ⟨call, received, rfl⟩ := Option.map_eq_some_iff.mp taken
    have moved : Progress timeout grace (times.getLastD began) n (last ++ [a]) call := progress.step received
    obtain ⟨⟨limit, waits, -⟩, stands⟩ := id moved
    rw [List.append_assoc]
    cases there : call.phase with
    | done answer =>
      rw [there] at stands
      cases answer with
      | returned u =>
        obtain ⟨single, same, onward, before⟩ := Course.of_returned stands
        cases rest with
        | nil =>
          refine ⟨times, last ++ [a], rfl, inTime, ⟨limit, waits⟩, stands, .inl ⟨⟨(), rfl⟩, all, ?_⟩⟩
          rw [count, List.length_append, List.length_singleton]
        | cons batch rest =>
          refine ⟨times ++ [call.now], [], ?_, inTime.concat onward before, ⟨limit, waits⟩, ⟨?_, ?_⟩, ?_, nofun⟩
          · rw [single, List.map_append, List.append_nil]
            rfl
          · simp only [List.length_append, List.length_singleton, count]
          · simpa using all
          · rw [List.getLastD_concat, ← same, ← limit, ← waits]
            exact progress_start
      | _ => exact ⟨times, last ++ [a], rfl, inTime, ⟨limit, waits⟩, stands, .inr ⟨nofun, count, all⟩⟩
    | _ =>
      exact ⟨times, last ++ [a], rfl, inTime, ⟨limit, waits⟩, ⟨count, all⟩, moved, by simp [there]⟩

theorem loop_start (batch : β) (batches : List β) :
    Loop timeout grace began n (batch :: batches) [] (Batched.start timeout grace began n batch batches) :=
  ⟨[], [], rfl, .singleton began, ⟨rfl, rfl⟩, ⟨rfl, rfl⟩, progress_start, nofun⟩

/-- Whatever the operations do, when they end and when the caller is cancelled: all batches but the last one awaited
were sent in time, and the loop is over as the call for that one is. -/
theorem batched_course {batch : β} {batches : List β} {signals : List (ℚ × Signal Unit Unit)} {s : Batched β}
    {a : Answer Unit Unit} (reached : run Batched.step (.start timeout grace began n batch batches) signals = some s)
    (ended : s.result = some a) :
    ∃ (times : List ℚ) (last : List (ℚ × Signal Unit Unit)), signals = times.map sentAt ++ last ∧
      Course timeout grace (times.getLastD began) n last a s.call.now s.call.cancelling ∧
      InTime timeout began times ∧
      (s.sent = batch :: batches ∧ (∃ u, a = .returned u) ∨
        (∀ u, a ≠ .returned u) ∧ s.sent ++ s.current :: s.rest = batch :: batches ∧
          s.sent.length = times.length) := by
  have loop : Loop timeout grace began n (batch :: batches) signals s :=
    run_history (loop_start batch batches) (fun _ _ _ _ loop taken => loop.step taken) reached
  obtain ⟨times, last, split, inTime, -, stands⟩ := loop
  rw [ended] at stands
  obtain ⟨course, ⟨returned, all, -⟩ | ⟨failed, count, all⟩⟩ := stands
  · exact ⟨times, last, split, course, inTime, .inl ⟨all, returned⟩⟩
  · exact ⟨times, last, split, course, inTime, .inr ⟨failed, all, count.symm⟩⟩

def stalled : List (ℚ × Signal Unit Unit) :=
  [(1, .ends (.returned ())), (11, .timer), (12, .cancel), (13, .timer), (20, .ends .cancelled)]

theorem batched_course_stalled :
    ∃ s : Batched (List String), run Batched.step (.start 10 2 0 0 ["SPY"] [["QQQ"]]) stalled = some s ∧
      (s.result = some .timeoutError ∧ s.sent = [["SPY"]] ∧ s.call.now = 20 ∧ s.call.cancelling = 1) ∧
      ∃ (times : List ℚ) (last : List (ℚ × Signal Unit Unit)), stalled = times.map sentAt ++ last ∧
        Course 10 2 (times.getLastD 0) 0 last .timeoutError s.call.now s.call.cancelling := by
  have reached : run Batched.step (.start 10 2 0 0 ["SPY"] [["QQQ"]]) stalled =
      some ⟨[["SPY"]], ["QQQ"], [], ⟨10, 2, 1, 20, 1, .done .timeoutError⟩, some .timeoutError⟩ := by
    decide +kernel
  obtain ⟨times, last, split, course, -⟩ := batched_course reached rfl
  exact ⟨_, reached, ⟨rfl, rfl, rfl, rfl⟩, times, last, split, course⟩

end OptionsProof.WithTimeout
