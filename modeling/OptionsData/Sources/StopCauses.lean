import OptionsData.Sources.CollectEvents

namespace OptionsModel

/-- A finite or endless list of timed events, and when the iterator ends after them, if it does. -/
structure TimedStream (ε : Type*) where
  arrival : ℕ → Option (ℚ × ε)
  ended : Option ℚ
  contiguous : ∀ n, arrival n = none → arrival (n + 1) = none
  started : ∀ a, arrival 0 = some a → 0 ≤ a.1
  ordered : ∀ n a b, arrival n = some a → arrival (n + 1) = some b → a.1 < b.1
  finishes : ∀ n a e, arrival n = some a → ended = some e → a.1 < e
  unbounded : ∀ t, ∃ n, (arrival n).all (t < ·.1) = true

namespace TimedStream

variable {ε : Type*} {stream : TimedStream ε} {n : ℕ} {t : ℚ} {a b : ℚ × ε}

def firstArrivals (stream : TimedStream ε) (n : ℕ) : List (ℚ × ε) := (List.range n).filterMap stream.arrival

def arrivedBy (stream : TimedStream ε) (t : ℚ) : List (ℚ × ε) :=
  stream.firstArrivals (Nat.find (stream.unbounded t))

theorem firstArrivals_succ (next : stream.arrival n = some a) :
    stream.firstArrivals (n + 1) = stream.firstArrivals n ++ [a] := by
  rw [firstArrivals, List.range_succ, List.filterMap_append, List.filterMap_cons_some next]
  rfl

theorem mem_firstArrivals : b ∈ stream.firstArrivals n ↔ ∃ m < n, stream.arrival m = some b := by
  simp [firstArrivals]

theorem some_before (next : stream.arrival n = some a) {m : ℕ} (le : m ≤ n) : (stream.arrival m).isSome := by
  induction le using Nat.decreasingInduction with
  | self => simp [next]
  | of_succ k _ ih =>
    by_contra none
    rw [Option.not_isSome_iff_eq_none] at none
    simp [stream.contiguous k none] at ih

theorem arrival_lt (next : stream.arrival n = some a) : ∀ b ∈ stream.firstArrivals n, b.1 < a.1 := by
  induction n generalizing a with
  | zero => exact fun b listed => absurd listed List.not_mem_nil
  | succ n ih =>
    obtain ⟨last, here⟩ := Option.isSome_iff_exists.mp (some_before next n.le_succ)
    have later := stream.ordered n last a here next
    intro b listed
    rw [firstArrivals_succ here, List.mem_append, List.mem_singleton] at listed
    rcases listed with earlier | rfl
    · exact (ih here b earlier).trans later
    · exact later

theorem arrival_nonneg (next : stream.arrival n = some a) : 0 ≤ a.1 := by
  induction n generalizing a with
  | zero => exact stream.started a next
  | succ n ih =>
    obtain ⟨last, here⟩ := Option.isSome_iff_exists.mp (some_before next n.le_succ)
    exact (ih here).trans (stream.ordered n last a here next).le

theorem arrivedBy_eq (taken : ∀ m < n, (stream.arrival m).isSome) (past : ∀ b ∈ stream.firstArrivals n, b.1 ≤ t)
    (next : ∀ a ∈ stream.arrival n, t < a.1) : stream.arrivedBy t = stream.firstArrivals n := by
  have found : Nat.find (stream.unbounded t) = n := by
    rw [Nat.find_eq_iff]
    constructor
    · cases arrives : stream.arrival n with
      | none => rfl
      | some a => exact decide_eq_true (next a arrives)
    · intro m earlier
      obtain ⟨b, here⟩ := Option.isSome_iff_exists.mp (taken m earlier)
      have early := past b (mem_firstArrivals.mpr ⟨m, earlier, here⟩)
      simp [here, early]
  rw [arrivedBy, found]

theorem mem_arrivedBy : a ∈ stream.arrivedBy t ↔ (∃ m, stream.arrival m = some a) ∧ a.1 ≤ t := by
  rw [arrivedBy, mem_firstArrivals]
  constructor
  · intro premise
    obtain ⟨m, earlier, arrives⟩ := premise
    have early := Nat.find_min (stream.unbounded t) earlier
    exact ⟨⟨m, arrives⟩, by simpa [arrives] using early⟩
  · intro premise
    obtain ⟨⟨m, arrives⟩, early⟩ := premise
    refine ⟨m, ?_, arrives⟩
    by_contra past
    obtain ⟨b, here⟩ := Option.isSome_iff_exists.mp (some_before arrives (not_lt.mp past))
    have later := Nat.find_spec (stream.unbounded t)
    rw [here, Option.all_some, decide_eq_true_eq] at later
    rcases Nat.eq_or_lt_of_le (not_lt.mp past) with same | before
    · rw [same, arrives] at here
      cases here
      exact absurd early (not_le.mpr later)
    · have ordered := arrival_lt arrives b (mem_firstArrivals.mpr ⟨_, before, here⟩)
      exact absurd (later.trans ordered) (not_lt.mpr early)

theorem firstArrivals_sorted (n : ℕ) : (stream.firstArrivals n).Pairwise fun a b => a.1 < b.1 := by
  induction n with
  | zero => exact List.Pairwise.nil
  | succ n ih =>
    cases next : stream.arrival n with
    | none =>
      rw [firstArrivals, List.range_succ, List.filterMap_append, List.filterMap_cons_none next]
      exact (List.append_nil (stream.firstArrivals n)).symm ▸ ih
    | some a =>
      rw [firstArrivals_succ next, List.pairwise_append]
      exact ⟨ih, List.pairwise_singleton _ a, fun b earlier d last =>
        List.mem_singleton.mp last ▸ arrival_lt next b earlier⟩

end TimedStream

namespace CollectEvents

variable {ε κ : Type*} {c : CollectEvents ε κ} {s : Drain ε κ} {a : ℚ × ε}

theorem deadline_le_timeout : (c.deadline s).1 ≤ c.timeout := by
  unfold deadline
  split
  · split
    · next earlier => exact earlier.le
    · exact le_rfl
  · exact le_rfl

variable [LinearOrder κ]

theorem take_late (late : (c.deadline s).1 ≤ a.1) : (c.take s a).stopReason.isSome := by
  unfold take
  split
  · assumption
  · rfl

theorem stops (c : CollectEvents ε κ) (stream : TimedStream ε) :
    ∃ n, (c.drain (stream.firstArrivals n)).stopReason.isSome ∨ stream.arrival n = none := by
  obtain ⟨n, later⟩ := stream.unbounded c.timeout
  cases next : stream.arrival n with
  | none => exact ⟨n, Or.inr next⟩
  | some a =>
    rw [next, Option.all_some, decide_eq_true_eq] at later
    refine ⟨n + 1, Or.inl ?_⟩
    rw [TimedStream.firstArrivals_succ next, drain_concat]
    exact take_late (deadline_le_timeout.trans later.le)

def rounds (c : CollectEvents ε κ) (stream : TimedStream ε) : ℕ := Nat.find (c.stops stream)

def collect (c : CollectEvents ε κ) (stream : TimedStream ε) : List ε × StopReason :=
  c.collectEvents (stream.firstArrivals (c.rounds stream)) stream.ended

end CollectEvents

end OptionsModel

namespace OptionsProof.StopCauses

open OptionsModel OptionsModel.CollectEvents OptionsModel.TimedStream

variable {ε κ : Type*} {c : CollectEvents ε κ} {stream : TimedStream ε} {s : Drain ε κ} {n : ℕ} {t : ℚ} {a : ℚ × ε}
  {reason : StopReason} {other : TimedStream ε}

def kept (c : CollectEvents ε κ) (arrivals : List (ℚ × ε)) : List (ℚ × ε) :=
  arrivals.filter fun a => c.eventFilter a.2

def keptBy (c : CollectEvents ε κ) (stream : TimedStream ε) (t : ℚ) : List (ℚ × ε) := kept c (stream.arrivedBy t)

def lastKept (events : List (ℚ × ε)) : ℚ := (events.getLast?.map Prod.fst).getD 0

theorem deadline_cases (s : Drain ε κ) : (s.idleDeadline = some (c.deadline s).1 ∧ (c.deadline s).2 = .idleTimeout) ∨
    (c.deadline s).1 = c.timeout ∧ (c.deadline s).2 = .outerTimeout := by
  unfold deadline
  split
  · next idle waiting =>
    split
    · exact Or.inl ⟨waiting, rfl⟩
    · exact Or.inr ⟨rfl, rfl⟩
  · exact Or.inr ⟨rfl, rfl⟩

theorem deadline_ne (s : Drain ε κ) : (c.deadline s).2 ≠ .maxCount := by
  rcases deadline_cases (c := c) s with ⟨-, reason⟩ | ⟨-, reason⟩
  · simp [reason]
  · simp [reason]

theorem deadline_le_idle {idle : ℚ} (waiting : s.idleDeadline = some idle) : (c.deadline s).1 ≤ idle := by
  unfold deadline
  rw [waiting]
  dsimp only
  split
  · exact le_rfl
  · next later => exact not_lt.mp later

theorem lt_deadline (inside : t < c.timeout) (waiting : ∀ idle ∈ s.idleDeadline, t < idle) : t < (c.deadline s).1 := by
  unfold deadline
  split
  · next idle held =>
    split
    · exact waiting idle held
    · exact inside
  · exact inside

theorem mem_kept {arrivals : List (ℚ × ε)} (listed : a ∈ kept c arrivals) : a ∈ arrivals :=
  List.mem_of_mem_filter listed

theorem kept_concat (arrivals : List (ℚ × ε)) (a : ℚ × ε) :
    kept c (arrivals ++ [a]) = if c.eventFilter a.2 then kept c arrivals ++ [a] else kept c arrivals := by
  rw [kept, List.filter_append, List.filter_singleton]
  cases c.eventFilter a.2
  · exact List.append_nil _
  · rfl

theorem lastKept_concat (events : List (ℚ × ε)) (a : ℚ × ε) : lastKept (events ++ [a]) = a.1 := by
  simp [lastKept]

theorem lastKept_le {events : List (ℚ × ε)} (past : ∀ b ∈ events, b.1 ≤ t) (started : 0 ≤ t) :
    lastKept events ≤ t := by
  unfold lastKept
  cases last : events.getLast? with
  | none => exact started
  | some b => exact past b (List.mem_of_getLast? last)

def Starts (c : CollectEvents ε κ) (stream : TimedStream ε) (start : ℚ) : Prop :=
  start = 0 ∨ ∃ m a, stream.arrival m = some a ∧ c.eventFilter a.2 = true ∧ a.1 = start

def Deadline (c : CollectEvents ε κ) (stream : TimedStream ε) (t : ℚ) : Prop :=
  t = c.timeout ∨ ∃ start idle, Starts c stream start ∧ c.idleTimeout = some idle ∧ start + idle = t

/-- No two deadlines or arrivals are at the same instant. -/
structure Apart (c : CollectEvents ε κ) (stream : TimedStream ε) : Prop where
  arrivals : ∀ t, Deadline c stream t → ∀ m a, stream.arrival m = some a → a.1 ≠ t
  ended : ∀ t, Deadline c stream t → stream.ended ≠ some t
  deadlines : ∀ start idle, Starts c stream start → c.idleTimeout = some idle → start + idle ≠ c.timeout

theorem starts_lastKept (n : ℕ) : Starts c stream (lastKept (kept c (stream.firstArrivals n))) := by
  unfold lastKept
  cases last : (kept c (stream.firstArrivals n)).getLast? with
  | none => exact Or.inl rfl
  | some a =>
    obtain ⟨listed, passes⟩ := List.mem_filter.mp (List.mem_of_getLast? last)
    obtain ⟨m, -, arrives⟩ := mem_firstArrivals.mp listed
    exact Or.inr ⟨m, a, arrives, passes, rfl⟩

def Happens (c : CollectEvents ε κ) (stream : TimedStream ε) (t : ℚ) : StopReason → Prop
  | .maxCount => ∃ m a, stream.arrival m = some a ∧ a.1 = t
  | .repeatedKey => ∃ m a, stream.arrival m = some a ∧ a.1 = t
  | .idleTimeout => ∃ start idle, Starts c stream start ∧ c.idleTimeout = some idle ∧ start + idle = t
  | .outerTimeout => t = c.timeout
  | .streamEnded => stream.ended = some t

theorem mem_keptBy : a ∈ keptBy c stream t ↔
    (∃ m, stream.arrival m = some a) ∧ a.1 ≤ t ∧ c.eventFilter a.2 = true := by
  rw [keptBy, kept, List.mem_filter, mem_arrivedBy, and_assoc]

theorem Apart.reason_unique (apart : Apart c stream) {r r' : StopReason} (one : Happens c stream t r)
    (other : Happens c stream t r') :
    r = r' ∨ (r = .maxCount ∨ r = .repeatedKey) ∧ (r' = .maxCount ∨ r' = .repeatedKey) := by
  have idle (start idle : ℚ) (from_ : Starts c stream start) (given : c.idleTimeout = some idle)
      (now : start + idle = t) : Deadline c stream t := Or.inr ⟨start, idle, from_, given, now⟩
  have outer (elapsed : t = c.timeout) : Deadline c stream t := Or.inl elapsed
  have arrivals := apart.arrivals t
  have ended := apart.ended t
  have deadlines := apart.deadlines
  have finishes := stream.finishes
  cases r <;> cases r' <;> grind [Happens]

/-- The other stream is what is left when some events that fail the filter are deleted. -/
structure Deletes (c : CollectEvents ε κ) (stream other : TimedStream ε) : Prop where
  listed : ∀ m a, other.arrival m = some a → ∃ n, stream.arrival n = some a
  passing : ∀ n a, stream.arrival n = some a → c.eventFilter a.2 = true → ∃ m, other.arrival m = some a
  ended : other.ended = stream.ended

theorem Deletes.keptBy (deletes : Deletes c stream other) (t : ℚ) : keptBy c other t = keptBy c stream t := by
  have sorted (any : TimedStream ε) : (StopCauses.keptBy c any t).Pairwise fun a b => a.1 < b.1 :=
    (firstArrivals_sorted _).filter _
  apply List.Pairwise.eq_of_mem_iff (sorted other) (sorted stream)
  intro a
  rw [mem_keptBy, mem_keptBy]
  constructor
  · intro premise
    obtain ⟨⟨m, here⟩, rest⟩ := premise
    exact ⟨deletes.listed m a here, rest⟩
  · intro premise
    obtain ⟨⟨n, here⟩, early, passes⟩ := premise
    exact ⟨deletes.passing n a here passes, early, passes⟩

theorem Deletes.apart (deletes : Deletes c stream other) (apart : Apart c stream) : Apart c other := by
  have starts (start : ℚ) (from_ : Starts c other start) : Starts c stream start := by
    rcases from_ with zero | ⟨m, a, here, passes, at_⟩
    · exact Or.inl zero
    · obtain ⟨n, there⟩ := deletes.listed m a here
      exact Or.inr ⟨n, a, there, passes, at_⟩
  have deadline (t : ℚ) (passes : Deadline c other t) : Deadline c stream t := by
    rcases passes with outer | ⟨start, idle, from_, given, now⟩
    · exact Or.inl outer
    · exact Or.inr ⟨start, idle, starts start from_, given, now⟩
  refine ⟨fun t passes m a here => ?_, fun t passes => ?_, fun start idle from_ => ?_⟩
  · obtain ⟨n, there⟩ := deletes.listed m a here
    exact apart.arrivals t (deadline t passes) n a there
  · rw [deletes.ended]
    exact apart.ended t (deadline t passes)
  · exact apart.deadlines start idle (starts start from_)

variable [LinearOrder κ]

inductive StopsAt (c : CollectEvents ε κ) (stream : TimedStream ε) (t : ℚ) : StopReason → Prop
  | maxCount (count : ℕ) (given : c.maxCount = some count) (reached : (keptBy c stream t).length = count) (ev : ε)
      (now : (keptBy c stream t).getLast? = some (t, ev)) : StopsAt c stream t .maxCount
  | repeatedKey (earlier : List (ℚ × ε)) (ev : ε) (key : κ) (asked : c.stopOnRepeatedKey = true)
      (now : keptBy c stream t = earlier ++ [(t, ev)]) (keyed : c.eventKey ev = some key)
      (seen : ∃ b ∈ earlier, c.eventKey b.2 = some key) (recent : ∀ least ∈ c.repeatKeyMinValue, least ≤ key) :
      StopsAt c stream t .repeatedKey
  | idleTimeout (idle : ℚ) (given : c.idleTimeout = some idle) (since : t = lastKept (keptBy c stream t) + idle) :
      StopsAt c stream t .idleTimeout
  | outerTimeout (elapsed : t = c.timeout) : StopsAt c stream t .outerTimeout
  | streamEnded (finished : stream.ended = some t) : StopsAt c stream t .streamEnded

/-- The collection stops for its reason at the instant, and nothing that would stop it comes sooner. -/
structure StopsFirst (c : CollectEvents ε κ) (stream : TimedStream ε) (result : List ε × StopReason) (T : ℚ) :
    Prop where
  cause : StopsAt c stream T result.2
  first : ∀ reason t, StopsAt c stream t reason → T ≤ t
  events : result.1 = (keptBy c stream T).map Prod.snd
  precedence : result.2 = .maxCount → ¬ StopsAt c stream T .repeatedKey

structure Going (c : CollectEvents ε κ) (stream : TimedStream ε) (n : ℕ) (s : Drain ε κ) : Prop where
  taken : ∀ m < n, (stream.arrival m).isSome
  open_ : s.stopReason = none
  events : s.events = (kept c (stream.firstArrivals n)).map Prod.snd
  keys : ∀ key, key ∈ s.seenKeys ↔ ∃ b ∈ kept c (stream.firstArrivals n), c.eventKey b.2 = some key
  idle : s.idleDeadline = c.idleTimeout.map (lastKept (kept c (stream.firstArrivals n)) + ·)
  early : ∀ b ∈ stream.firstArrivals n, b.1 < (c.deadline s).1
  room : ∀ count ∈ c.maxCount, (kept c (stream.firstArrivals n)).length < count
  clear : ∀ reason t, StopsAt c stream t reason → ∀ b ∈ stream.firstArrivals n, b.1 < t

namespace Going

theorem keptBy_eq (going : Going c stream n s) (past : ∀ b ∈ stream.firstArrivals n, b.1 ≤ t)
    (next : ∀ a ∈ stream.arrival n, t < a.1) : keptBy c stream t = kept c (stream.firstArrivals n) := by
  rw [keptBy, arrivedBy_eq going.taken past next]

theorem deadline_stops (going : Going c stream n s) (next : ∀ a ∈ stream.arrival n, (c.deadline s).1 < a.1) :
    StopsAt c stream (c.deadline s).1 (c.deadline s).2 ∧
      keptBy c stream (c.deadline s).1 = kept c (stream.firstArrivals n) := by
  have same := going.keptBy_eq (fun b listed => (going.early b listed).le) next
  refine ⟨?_, same⟩
  rcases deadline_cases (c := c) s with ⟨waiting, reason⟩ | ⟨elapsed, reason⟩
  · rw [going.idle] at waiting
    obtain ⟨idle, given, since⟩ := Option.map_eq_some_iff.mp waiting
    rw [reason]
    exact .idleTimeout idle given (by rw [same]; exact since.symm)
  · rw [reason]
    exact .outerTimeout elapsed

theorem cause_late (going : Going c stream n s) (cause : StopsAt c stream t reason)
    (next : ∀ a ∈ stream.arrival n, t < a.1) : (c.deadline s).1 ≤ t ∨ stream.ended = some t := by
  have past := going.clear reason t cause
  have same := going.keptBy_eq (fun b listed => (past b listed).le) next
  have unlisted (ev : ε) : (t, ev) ∉ kept c (stream.firstArrivals n) := fun listed =>
    absurd (past _ (mem_kept listed)) (lt_irrefl t)
  cases cause with
  | maxCount count given reached ev now =>
    rw [same] at now
    exact absurd (List.mem_of_getLast? now) (unlisted ev)
  | repeatedKey earlier ev key asked now =>
    rw [same] at now
    exact absurd (by simp [now]) (unlisted ev)
  | idleTimeout idle given since =>
    rw [same] at since
    refine Or.inl (deadline_le_idle ?_)
    rw [going.idle, given, since]
    rfl
  | outerTimeout elapsed => exact Or.inl (elapsed ▸ deadline_le_timeout)
  | streamEnded finished => exact Or.inr finished

theorem earliest (going : Going c stream n s) {T : ℚ} (next : ∀ t < T, ∀ a ∈ stream.arrival n, t < a.1)
    (inTime : T ≤ (c.deadline s).1) (running : ∀ finish ∈ stream.ended, T ≤ finish) (reason : StopReason) (t : ℚ)
    (cause : StopsAt c stream t reason) : T ≤ t := by
  by_contra sooner
  have sooner := not_le.mp sooner
  rcases going.cause_late cause (next t sooner) with late | finished
  · exact absurd (inTime.trans late) (not_le.mpr sooner)
  · exact absurd (running t finished) (not_le.mpr sooner)

variable (going : Going c stream n s) (next : stream.arrival n = some a)

include going next

theorem keptBy_next : keptBy c stream a.1 = kept c (stream.firstArrivals n ++ [a]) := by
  rw [keptBy, ← firstArrivals_succ next]
  apply congrArg (kept c)
  apply arrivedBy_eq
  · intro m before
    rcases Nat.lt_succ_iff_lt_or_eq.mp before with earlier | rfl
    · exact going.taken m earlier
    · rw [next]
      rfl
  · intro b listed
    rw [firstArrivals_succ next, List.mem_append, List.mem_singleton] at listed
    rcases listed with earlier | rfl
    · exact (arrival_lt next b earlier).le
    · exact le_rfl
  · intro b later
    exact stream.ordered n a b next later

theorem idle_pos (inTime : a.1 < (c.deadline s).1) {idle : ℚ} (given : c.idleTimeout = some idle) : 0 < idle := by
  have waiting := going.idle
  rw [given, Option.map_some] at waiting
  have last : lastKept (kept c (stream.firstArrivals n)) ≤ a.1 :=
    lastKept_le (fun b listed => (arrival_lt next b (mem_kept listed)).le) (arrival_nonneg next)
  have sooner := inTime.trans_le (deadline_le_idle waiting)
  linarith

omit next in
theorem repeats_iff : c.repeatsKey s a.2 = true ↔ c.stopOnRepeatedKey = true ∧ ∃ key, c.eventKey a.2 = some key ∧
    (∃ b ∈ kept c (stream.firstArrivals n), c.eventKey b.2 = some key) ∧
      ∀ least ∈ c.repeatKeyMinValue, least ≤ key := by
  unfold repeatsKey
  cases c.eventKey a.2 with
  | none => simp
  | some key => cases c.repeatKeyMinValue <;> simp [going.keys, and_assoc]

theorem cause_at (inTime : a.1 < (c.deadline s).1) (cause : StopsAt c stream a.1 reason) :
    c.eventFilter a.2 = true ∧ (reason = .repeatedKey ∧ c.repeatsKey s a.2 = true ∨
      reason = .maxCount ∧ c.maxCount = some ((kept c (stream.firstArrivals n)).length + 1)) := by
  have same := going.keptBy_next next
  rw [kept_concat] at same
  have unlisted (ev : ε) : (a.1, ev) ∉ kept c (stream.firstArrivals n) := fun listed =>
    absurd (arrival_lt next _ (mem_kept listed)) (lt_irrefl a.1)
  cases cause with
  | maxCount count given reached ev now =>
    split at same
    · next passes =>
      rw [same, List.length_append, List.length_singleton] at reached
      exact ⟨passes, Or.inr ⟨rfl, by rw [given, reached]⟩⟩
    · rw [same] at now
      exact absurd (List.mem_of_getLast? now) (unlisted ev)
  | repeatedKey earlier ev key asked now keyed seen recent =>
    split at same
    · next passes =>
      rw [same] at now
      obtain ⟨rfl, single⟩ := List.append_inj' now rfl
      obtain rfl : a.2 = ev := congrArg Prod.snd (List.singleton_inj.mp single)
      exact ⟨passes, Or.inl ⟨rfl, going.repeats_iff.mpr ⟨asked, key, keyed, seen, recent⟩⟩⟩
    · rw [same] at now
      exact absurd (by simp [now]) (unlisted ev)
  | idleTimeout idle given since =>
    have positive := going.idle_pos next inTime given
    split at same
    · rw [same, lastKept_concat] at since
      linarith
    · have waiting := going.idle
      rw [given, Option.map_some, ← same, ← since] at waiting
      exact absurd (deadline_le_idle waiting) (not_le.mpr inTime)
  | outerTimeout elapsed => exact absurd (elapsed ▸ deadline_le_timeout) (not_le.mpr inTime)
  | streamEnded finished => exact absurd (stream.finishes n a a.1 next finished) (lt_irrefl _)

omit next in
theorem take_inTime (inTime : a.1 < (c.deadline s).1) :
    c.take s a = if c.eventFilter a.2 then c.keep s a.1 a.2 else s := by
  unfold take
  rw [going.open_, if_neg (by simp), if_neg (not_le.mpr inTime)]

omit next in
theorem keep_stopReason : (c.keep s a.1 a.2).stopReason = if c.repeatsKey s a.2 then some .repeatedKey
    else if c.maxCount = some ((kept c (stream.firstArrivals n)).length + 1) then some .maxCount else none := by
  have room := going.room
  unfold keep
  dsimp only
  rw [going.events, List.length_append, List.length_map, List.length_singleton]
  cases given : c.maxCount with
  | none => simp
  | some count =>
    have more := room count given
    have same : count ≤ (kept c (stream.firstArrivals n)).length + 1 ↔
        count = (kept c (stream.firstArrivals n)).length + 1 := by omega
    simp [same]

theorem clear_next (inTime : a.1 < (c.deadline s).1) (open_ : (c.take s a).stopReason = none) (reason : StopReason)
    (t : ℚ) (cause : StopsAt c stream t reason) : a.1 < t := by
  have past : a.1 ≤ t := by
    refine going.earliest (fun u sooner b arrives => ?_) inTime.le (fun e ends => (stream.finishes n a e next ends).le)
      reason t cause
    obtain rfl := Option.some.inj (next.symm.trans arrives)
    exact sooner
  apply lt_of_le_of_ne past
  rintro rfl
  obtain ⟨passes, stops⟩ := going.cause_at next inTime cause
  rw [going.take_inTime inTime, if_pos passes, going.keep_stopReason] at open_
  rcases stops with ⟨-, repeats⟩ | ⟨-, full⟩
  · simp [repeats] at open_
  · rw [if_pos full] at open_
    split at open_ <;> cases open_

omit going in
theorem firstArrivals_le : ∀ b ∈ stream.firstArrivals (n + 1), b.1 ≤ a.1 := by
  intro b listed
  rw [firstArrivals_succ next, List.mem_append, List.mem_singleton] at listed
  rcases listed with earlier | rfl
  · exact (arrival_lt next b earlier).le
  · exact le_rfl

theorem skips (inTime : a.1 < (c.deadline s).1) (fails : c.eventFilter a.2 = false)
    (clear : ∀ reason t, StopsAt c stream t reason → a.1 < t) : Going c stream (n + 1) s := by
  have same : kept c (stream.firstArrivals (n + 1)) = kept c (stream.firstArrivals n) := by
    rw [firstArrivals_succ next, kept_concat, fails, if_neg Bool.false_ne_true]
  exact
    { taken := fun m before => some_before next (Nat.lt_succ_iff.mp before)
      open_ := going.open_
      events := same ▸ going.events
      keys := same ▸ going.keys
      idle := same ▸ going.idle
      early := fun b listed => (firstArrivals_le next b listed).trans_lt inTime
      room := same ▸ going.room
      clear := fun reason t cause b listed => (firstArrivals_le next b listed).trans_lt (clear reason t cause) }

theorem keeps (inTime : a.1 < (c.deadline s).1) (passes : c.eventFilter a.2 = true)
    (open_ : (c.keep s a.1 a.2).stopReason = none) (clear : ∀ reason t, StopsAt c stream t reason → a.1 < t) :
    Going c stream (n + 1) (c.keep s a.1 a.2) := by
  have same : kept c (stream.firstArrivals (n + 1)) = kept c (stream.firstArrivals n) ++ [a] := by
    rw [firstArrivals_succ next, kept_concat, if_pos passes]
  constructor
  case taken => exact fun m before => some_before next (Nat.lt_succ_iff.mp before)
  case open_ => exact open_
  case events =>
    rw [same, List.map_append, ← going.events]
    rfl
  case keys =>
    intro key
    rw [same]
    unfold keep
    cases keyed : c.eventKey a.2 with
    | none => simp [going.keys, keyed, or_and_right, exists_or]
    | some other => simp [going.keys, keyed, or_and_right, exists_or, or_comm, eq_comm]
  case idle =>
    rw [same, lastKept_concat]
    rfl
  case early =>
    intro b listed
    apply (firstArrivals_le next b listed).trans_lt
    apply lt_deadline
    · exact inTime.trans_le deadline_le_timeout
    · intro idle waiting
      obtain ⟨span, given, rfl⟩ := Option.map_eq_some_iff.mp waiting
      have longer := going.idle_pos next inTime given
      linarith
  case room =>
    intro count given
    rw [going.keep_stopReason] at open_
    have more := going.room count given
    have room : count ≠ (kept c (stream.firstArrivals n)).length + 1 := by
      rintro rfl
      rw [if_pos (Option.mem_def.mp given)] at open_
      split at open_ <;> cases open_
    rw [same, List.length_append, List.length_singleton]
    omega
  case clear => exact fun reason t cause b listed => (firstArrivals_le next b listed).trans_lt (clear reason t cause)

theorem succ (inTime : a.1 < (c.deadline s).1) (open_ : (c.take s a).stopReason = none) :
    Going c stream (n + 1) (c.take s a) := by
  have clear := going.clear_next next inTime open_
  rw [going.take_inTime inTime] at open_ ⊢
  split at open_
  · next passes =>
    rw [if_pos passes]
    exact going.keeps next inTime passes open_ clear
  · next fails =>
    rw [if_neg fails]
    exact going.skips next inTime (Bool.not_eq_true _ ▸ fails) clear

end Going

theorem going_start (positive : ∀ count ∈ c.maxCount, 1 ≤ count) : Going c stream 0 (c.drain []) where
  taken m before := absurd before (Nat.not_lt_zero m)
  open_ := rfl
  events := rfl
  keys key := by simp [kept, firstArrivals, drain]
  idle := by
    have start : lastKept (kept c (stream.firstArrivals 0)) = 0 := rfl
    rw [start]
    cases given : c.idleTimeout <;> simp [drain, given]
  early b listed := absurd listed List.not_mem_nil
  room count given := positive count given
  clear _ _ _ b listed := absurd listed List.not_mem_nil

/-- By induction: as long as the loop has not stopped, it goes on in the state that the invariant describes. -/
theorem going_of_open (positive : ∀ count ∈ c.maxCount, 1 ≤ count) (taken : ∀ m < n, (stream.arrival m).isSome)
    (open_ : ∀ m ≤ n, (c.drain (stream.firstArrivals m)).stopReason = none) :
    Going c stream n (c.drain (stream.firstArrivals n)) := by
  induction n with
  | zero => exact going_start positive
  | succ n ih =>
    have going := ih (fun m before => taken m (before.trans n.lt_succ_self)) fun m le => open_ m (le.trans n.le_succ)
    obtain ⟨a, next⟩ := Option.isSome_iff_exists.mp (taken n n.lt_succ_self)
    have last := open_ (n + 1) le_rfl
    rw [firstArrivals_succ next, drain_concat] at last ⊢
    have inTime : a.1 < (c.deadline (c.drain (stream.firstArrivals n))).1 := by
      by_contra late
      have stopped := take_late (not_lt.mp late)
      rw [last] at stopped
      cases stopped
    exact going.succ next inTime last

namespace Going

theorem deadline (going : Going c stream n s) : Deadline c stream (c.deadline s).1 := by
  rcases deadline_cases (c := c) s with ⟨waiting, -⟩ | ⟨elapsed, -⟩
  · rw [going.idle] at waiting
    obtain ⟨idle, given, since⟩ := Option.map_eq_some_iff.mp waiting
    exact Or.inr ⟨_, idle, starts_lastKept n, given, since⟩
  · exact Or.inl elapsed

theorem stops_late (going : Going c stream n s) (next : ∀ a ∈ stream.arrival n, (c.deadline s).1 < a.1)
    (running : ∀ finish ∈ stream.ended, (c.deadline s).1 ≤ finish) :
    StopsFirst c stream (s.events, (c.deadline s).2) (c.deadline s).1 := by
  obtain ⟨cause, same⟩ := going.deadline_stops next
  refine ⟨cause, ?_, ?_, fun full => absurd full (deadline_ne s)⟩
  · exact going.earliest (fun t sooner a arrives => sooner.trans (next a arrives)) le_rfl running
  · rw [same]
    exact going.events

theorem stops_ended (going : Going c stream n s) (none_left : stream.arrival n = none) {finish : ℚ}
    (ends : stream.ended = some finish) (sooner : finish < (c.deadline s).1) :
    StopsFirst c stream (s.events, .streamEnded) finish := by
  have vacuous (t : ℚ) (a : ℚ × ε) (arrives : a ∈ stream.arrival n) : t < a.1 := by
    rw [none_left] at arrives
    cases arrives
  have past (b : ℚ × ε) (listed : b ∈ stream.firstArrivals n) : b.1 ≤ finish := by
    obtain ⟨m, -, arrives⟩ := mem_firstArrivals.mp listed
    exact (stream.finishes m b finish arrives ends).le
  refine ⟨.streamEnded ends, ?_, ?_, fun full => by cases full⟩
  · apply going.earliest (fun t _ => vacuous t) sooner.le
    intro other same
    rw [ends, Option.mem_some] at same
    exact same.le
  · rw [going.keptBy_eq past (vacuous finish)]
    exact going.events

theorem stops_kept (going : Going c stream n s) (next : stream.arrival n = some a)
    (inTime : a.1 < (c.deadline s).1) (passes : c.eventFilter a.2 = true) {reason : StopReason}
    (stopped : (c.keep s a.1 a.2).stopReason = some reason) :
    StopsFirst c stream ((c.keep s a.1 a.2).events, reason) a.1 := by
  have same := going.keptBy_next next
  rw [kept_concat, if_pos passes] at same
  rw [going.keep_stopReason] at stopped
  refine ⟨?_, ?_, ?_, ?_⟩
  · split at stopped
    · next repeats =>
      cases stopped
      obtain ⟨asked, key, keyed, seen, recent⟩ := going.repeats_iff.mp repeats
      exact .repeatedKey _ a.2 key asked same keyed seen recent
    · split at stopped
      · next full =>
        cases stopped
        exact .maxCount _ full (by simp [same]) a.2 (by simp [same])
      · cases stopped
  · refine going.earliest (fun t sooner b arrives => ?_) inTime.le fun e ends => (stream.finishes n a e next ends).le
    obtain rfl := Option.some.inj (next.symm.trans arrives)
    exact sooner
  · rw [same, List.map_append, ← going.events]
    rfl
  · intro full repeated
    obtain ⟨-, ⟨-, repeats⟩ | ⟨other, -⟩⟩ := going.cause_at next inTime repeated
    · rw [if_pos repeats] at stopped
      cases stopped
      cases full
    · cases other

theorem stops_next (going : Going c stream n s) (apart : Apart c stream) (next : stream.arrival n = some a)
    {reason : StopReason} (stopped : (c.take s a).stopReason = some reason) :
    ∃ T, StopsFirst c stream ((c.take s a).events, reason) T := by
  by_cases inTime : a.1 < (c.deadline s).1
  · rw [going.take_inTime inTime] at stopped ⊢
    split at stopped
    · next passes =>
      rw [if_pos passes]
      exact ⟨a.1, going.stops_kept next inTime passes stopped⟩
    · rw [going.open_] at stopped
      cases stopped
  · have late : (c.deadline s).1 < a.1 :=
      lt_of_le_of_ne (not_lt.mp inTime) (apart.arrivals _ going.deadline n a next).symm
    have taking : c.take s a = { s with stopReason := some (c.deadline s).2 } := by
      unfold take
      rw [going.open_, if_neg (by simp), if_pos late.le]
    rw [taking] at stopped ⊢
    cases stopped
    refine ⟨_, going.stops_late ?_ fun e ends => (late.trans (stream.finishes n a e next ends)).le⟩
    intro b arrives
    obtain rfl := Option.some.inj (next.symm.trans arrives)
    exact late

end Going

theorem collectEvents_stopped {arrivals : List (ℚ × ε)} (ended : Option ℚ)
    (stopped : (c.drain arrivals).stopReason = some reason) :
    c.collectEvents arrivals ended = ((c.drain arrivals).events, reason) := by
  simp only [collectEvents, stopped]

theorem collectEvents_open {arrivals : List (ℚ × ε)} (ended : Option ℚ)
    (open_ : (c.drain arrivals).stopReason = none) :
    c.collectEvents arrivals ended = ((c.drain arrivals).events,
      if ended.any (· < (c.deadline (c.drain arrivals)).1) then .streamEnded
      else (c.deadline (c.drain arrivals)).2) := by
  simp only [collectEvents, open_]

theorem collect_stopsFirst (apart : Apart c stream) (positive : ∀ count ∈ c.maxCount, 1 ≤ count) :
    ∃ T, StopsFirst c stream (c.collect stream) T := by
  have before (m : ℕ) (earlier : m < c.rounds stream) :
      (c.drain (stream.firstArrivals m)).stopReason = none ∧ (stream.arrival m).isSome := by
    have goes := Nat.find_min (c.stops stream) earlier
    rw [not_or, Option.not_isSome_iff_eq_none, ← ne_eq, ← Option.isSome_iff_ne_none] at goes
    exact goes
  have finally_ := Nat.find_spec (c.stops stream)
  rw [← rounds] at finally_
  cases last : (c.drain (stream.firstArrivals (c.rounds stream))).stopReason with
  | none =>
    have none_left : stream.arrival (c.rounds stream) = none := by simpa [last] using finally_
    have going := going_of_open positive (fun m earlier => (before m earlier).2) fun m le => by
      rcases Nat.lt_or_eq_of_le le with earlier | rfl
      · exact (before m earlier).1
      · exact last
    rw [collect, collectEvents_open _ last]
    split
    · next sooner =>
      obtain ⟨finish, ends, earlier⟩ := (Option.any_eq_true _ _).mp sooner
      exact ⟨finish, going.stops_ended none_left ends (of_decide_eq_true earlier)⟩
    · next waiting =>
      refine ⟨_, going.stops_late (by simp [none_left]) fun finish ends => not_lt.mp fun earlier => waiting ?_⟩
      exact (Option.any_eq_true _ _).mpr ⟨finish, ends, decide_eq_true earlier⟩
  | some reason =>
    cases count : c.rounds stream with
    | zero =>
      rw [count] at last
      cases last
    | succ k =>
      rw [count] at before last
      obtain ⟨a, next⟩ := Option.isSome_iff_exists.mp (before k k.lt_succ_self).2
      have going := going_of_open positive (fun m earlier => (before m (earlier.trans k.lt_succ_self)).2)
        fun m le => (before m (Nat.lt_succ_of_le le)).1
      have taken := last
      rw [firstArrivals_succ next, drain_concat] at taken
      rw [collect, count, collectEvents_stopped _ last, firstArrivals_succ next, drain_concat]
      exact going.stops_next apart next taken

theorem StopsAt.happens (cause : StopsAt c stream t reason) : Happens c stream t reason := by
  have arrives (ev : ε) (listed : (t, ev) ∈ keptBy c stream t) : ∃ m a, stream.arrival m = some a ∧ a.1 = t := by
    obtain ⟨⟨m, here⟩, -⟩ := mem_keptBy.mp listed
    exact ⟨m, _, here, rfl⟩
  cases cause with
  | maxCount count given reached ev now => exact arrives ev (List.mem_of_getLast? now)
  | repeatedKey earlier ev key asked now => exact arrives ev (by simp [now])
  | idleTimeout idle given since => exact ⟨_, idle, starts_lastKept _, given, since.symm⟩
  | outerTimeout elapsed => exact elapsed
  | streamEnded finished => exact finished

theorem StopsFirst.unique (apart : Apart c stream) {result result' : List ε × StopReason} {T T' : ℚ}
    (one : StopsFirst c stream result T) (other : StopsFirst c stream result' T') : result = result' := by
  obtain rfl : T = T' := le_antisymm (one.first _ _ other.cause) (other.first _ _ one.cause)
  apply Prod.ext
  · rw [one.events, other.events]
  · have cause := one.cause
    have cause' := other.cause
    rcases apart.reason_unique cause.happens cause'.happens with same | ⟨full | repeats, full' | repeats'⟩
    · exact same
    · rw [full, full']
    · rw [repeats'] at cause'
      exact absurd cause' (one.precedence full)
    · rw [repeats] at cause
      exact absurd cause (other.precedence full')
    · rw [repeats, repeats']

theorem StopsAt.of_same (kept : keptBy c other t = keptBy c stream t) (ended : other.ended = stream.ended)
    (cause : StopsAt c stream t reason) : StopsAt c other t reason := by
  cases cause with
  | maxCount count given reached ev now =>
    rw [← kept] at reached now
    exact .maxCount count given reached ev now
  | repeatedKey earlier ev key asked now keyed seen recent =>
    rw [← kept] at now
    exact .repeatedKey earlier ev key asked now keyed seen recent
  | idleTimeout idle given since =>
    rw [← kept] at since
    exact .idleTimeout idle given since
  | outerTimeout elapsed => exact .outerTimeout elapsed
  | streamEnded finished => exact .streamEnded (ended.trans finished)

theorem collect_deletes (apart : Apart c stream) (positive : ∀ count ∈ c.maxCount, 1 ≤ count)
    (deletes : Deletes c stream other) : c.collect other = c.collect stream := by
  obtain ⟨T, first⟩ := collect_stopsFirst apart positive
  obtain ⟨T', first'⟩ := collect_stopsFirst (deletes.apart apart) positive
  have back (t : ℚ) (reason : StopReason) (cause : StopsAt c other t reason) : StopsAt c stream t reason :=
    cause.of_same (deletes.keptBy t).symm deletes.ended.symm
  have moved : StopsFirst c stream (c.collect other) T' := by
    refine ⟨back T' _ first'.cause, fun reason t cause => ?_, ?_, fun full repeated => ?_⟩
    · exact first'.first reason t (cause.of_same (deletes.keptBy t) deletes.ended)
    · rw [first'.events, deletes.keptBy]
    · exact first'.precedence full (repeated.of_same (deletes.keptBy T') deletes.ended)
  exact moved.unique apart first

structure StopsRight (c : CollectEvents ε κ) (stream : TimedStream ε) : Prop where
  first : ∃ T, StopsFirst c stream (c.collect stream) T
  deleting : ∀ other, Deletes c stream other → c.collect other = c.collect stream
  recent : (c.collect stream).2 = .repeatedKey → ∃ ev key, (c.collect stream).1.getLast? = some ev ∧
    c.eventKey ev = some key ∧ ∀ least ∈ c.repeatKeyMinValue, least ≤ key

theorem collect_stopsRight (apart : Apart c stream) (positive : ∀ count ∈ c.maxCount, 1 ≤ count) :
    StopsRight c stream := by
  obtain ⟨T, first⟩ := collect_stopsFirst apart positive
  refine ⟨⟨T, first⟩, fun other => collect_deletes apart positive, fun repeats => ?_⟩
  have cause := first.cause
  rw [repeats] at cause
  cases cause with
  | repeatedKey earlier ev key asked now keyed seen recent =>
    exact ⟨ev, key, by rw [first.events, now]; simp, keyed, recent⟩

def repeatingStream : TimedStream ℕ where
  arrival n := [(1, 5), (2, 0), (3, 5)][n]?
  ended := none
  contiguous n none_left := by simp at none_left ⊢; omega
  started a here := by simp at here; subst here; decide
  ordered n a b here there := by
    rcases n with _ | _ | _ | n <;> simp at here there
    all_goals subst here there; decide
  finishes n a e here ends := by cases ends
  unbounded t := ⟨3, rfl⟩

def repeatingCall : CollectEvents ℕ ℕ where
  timeout := 10
  maxCount := some 3
  eventFilter ev := ev ≠ 0
  idleTimeout := some (5 / 2)
  stopOnRepeatedKey := true
  eventKey := some
  repeatKeyMinValue := some 4

theorem repeating_apart : Apart repeatingCall repeatingStream := by
  have times (m : ℕ) (a : ℚ × ℕ) (here : repeatingStream.arrival m = some a) : a.1 = 1 ∨ a.1 = 2 ∨ a.1 = 3 := by
    have listed := List.mem_of_getElem? here
    simp only [List.mem_cons, List.not_mem_nil, or_false] at listed
    rcases listed with rfl | rfl | rfl <;> simp
  have deadlines (start idle : ℚ) (from_ : Starts repeatingCall repeatingStream start)
      (given : repeatingCall.idleTimeout = some idle) :
      start + idle ≠ 10 ∧ start + idle ≠ 1 ∧ start + idle ≠ 2 ∧ start + idle ≠ 3 := by
    obtain rfl : 5 / 2 = idle := Option.some.inj given
    rcases from_ with rfl | ⟨m, a, here, -, rfl⟩
    · norm_num
    · rcases times m a here with at_ | at_ | at_ <;> rw [at_] <;> norm_num
  refine ⟨fun t passes m a here at_ => ?_, (fun t _ ends => by cases ends), fun start idle from_ given =>
    (deadlines start idle from_ given).1⟩
  have arrives := times m a here
  rcases passes with rfl | ⟨start, idle, from_, given, rfl⟩
  · simp only [at_, repeatingCall] at arrives
    norm_num at arrives
  · have apart := deadlines start idle from_ given
    simp only [at_] at arrives
    tauto

theorem collect_stopsRight_repeating : StopsRight repeatingCall repeatingStream :=
  collect_stopsRight repeating_apart (by decide)

end OptionsProof.StopCauses
