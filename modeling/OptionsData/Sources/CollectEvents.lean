import Mathlib

namespace OptionsModel

inductive StopReason where
  | maxCount
  | outerTimeout
  | idleTimeout
  | repeatedKey
  | streamEnded
deriving DecidableEq, Repr

/-- The arguments of `collect_events`. Times are in seconds, those of a stream count from the call. -/
structure CollectEvents (ε κ : Type*) where
  timeout : ℚ
  maxCount : Option ℕ := none
  eventFilter : ε → Bool := fun _ => true
  idleTimeout : Option ℚ := none
  stopOnRepeatedKey : Bool := false
  eventKey : ε → Option κ := fun _ => none
  repeatKeyMinValue : Option κ := none

/-- The variables of `_drain`, and why it has returned or been cancelled. -/
structure Drain (ε κ : Type*) where
  events : List ε := []
  seenKeys : List κ := []
  idleDeadline : Option ℚ
  stopReason : Option StopReason := none

namespace CollectEvents

variable {ε κ : Type*} [LinearOrder κ]

def deadline (c : CollectEvents ε κ) (s : Drain ε κ) : ℚ × StopReason :=
  match s.idleDeadline with
  | some idle => if idle < c.timeout then (idle, .idleTimeout) else (c.timeout, .outerTimeout)
  | none => (c.timeout, .outerTimeout)

def repeatsKey (c : CollectEvents ε κ) (s : Drain ε κ) (ev : ε) : Bool :=
  match c.eventKey ev with
  | none => false
  | some key => c.stopOnRepeatedKey && decide (key ∈ s.seenKeys) && c.repeatKeyMinValue.all (· ≤ key)

def keep (c : CollectEvents ε κ) (s : Drain ε κ) (time : ℚ) (ev : ε) : Drain ε κ where
  events := s.events ++ [ev]
  seenKeys := (c.eventKey ev).elim s.seenKeys fun key => key :: s.seenKeys
  idleDeadline := c.idleTimeout.map (time + ·)
  stopReason :=
    if c.repeatsKey s ev then some .repeatedKey
    else if c.maxCount.any (· ≤ (s.events ++ [ev]).length) then some .maxCount
    else none

/-- What the next event of the stream does; one that the filter rejects leaves the idle deadline as it is. -/
def take (c : CollectEvents ε κ) (s : Drain ε κ) (arrival : ℚ × ε) : Drain ε κ :=
  if s.stopReason.isSome then s
  else if (c.deadline s).1 ≤ arrival.1 then { s with stopReason := some (c.deadline s).2 }
  else if c.eventFilter arrival.2 then c.keep s arrival.1 arrival.2
  else s

def drain (c : CollectEvents ε κ) (stream : List (ℚ × ε)) : Drain ε κ :=
  stream.foldl c.take { idleDeadline := c.idleTimeout }

/-- `ended` is when the iterator ends after the events of the stream, if it does. -/
def collectEvents (c : CollectEvents ε κ) (stream : List (ℚ × ε)) (ended : Option ℚ) : List ε × StopReason :=
  let s := c.drain stream
  (s.events, match s.stopReason with
    | some reason => reason
    | none => if ended.any (· < (c.deadline s).1) then .streamEnded else (c.deadline s).2)

def withFilter (c : CollectEvents ε κ) (eventFilter : ε → Bool) : CollectEvents ε κ :=
  { c with eventFilter := eventFilter }

variable {c : CollectEvents ε κ} {s : Drain ε κ} {stream : List (ℚ × ε)} {a : ℚ × ε} {accepts : ε → Bool}

theorem drain_concat : c.drain (stream ++ [a]) = c.take (c.drain stream) a := by
  rw [drain, List.foldl_append]
  rfl

theorem take_events (ev : ε) : ev ∈ (c.take s a).events ↔ ev ∈ s.events ∨
    s.stopReason = none ∧ a.1 < (c.deadline s).1 ∧ c.eventFilter a.2 = true ∧ ev = a.2 := by
  unfold take
  split
  · next stopped =>
    have going : s.stopReason ≠ none := Option.isSome_iff_ne_none.mp stopped
    simp only [going, false_and, or_false]
  · next going =>
    have going : s.stopReason = none := by simpa using going
    split
    · next late => simp only [not_lt.mpr late, false_and, and_false, or_false]
    · next early =>
      have early := not_le.mp early
      split
      · next accepted => simp [keep, going, early, accepted]
      · next rejected => simp [rejected]

theorem mem_drain_events {ev : ε} (kept : ev ∈ (c.drain stream).events) :
    c.eventFilter ev = true ∧ ∃ time, (time, ev) ∈ stream := by
  induction stream using List.reverseRecOn with
  | nil => exact absurd kept List.not_mem_nil
  | append_singleton stream a ih =>
    rw [drain_concat, take_events] at kept
    rcases kept with earlier | ⟨-, -, accepted, rfl⟩
    · obtain ⟨accepted, time, member⟩ := ih earlier
      exact ⟨accepted, time, List.mem_append_left _ member⟩
    · exact ⟨accepted, a.1, by simp⟩

theorem events_monotone {ev : ε} (rest : List (ℚ × ε)) (kept : ev ∈ (c.drain stream).events) :
    ev ∈ (c.drain (stream ++ rest)).events := by
  induction rest using List.reverseRecOn with
  | nil => rwa [List.append_nil]
  | append_singleton rest a ih =>
    rw [← List.append_assoc, drain_concat, take_events]
    exact .inl ih

theorem take_withFilter
    (alike : c.eventFilter a.2 = accepts a.2 ∨ s.stopReason.isSome ∨ (c.deadline s).1 ≤ a.1) :
    (c.withFilter accepts).take s a = c.take s a := by
  unfold take
  by_cases stopped : s.stopReason.isSome
  · rw [if_pos stopped, if_pos stopped]
  · rw [if_neg stopped, if_neg stopped]
    by_cases late : (c.deadline s).1 ≤ a.1
    · rw [if_pos late]
      exact if_pos late
    · have alike := alike.resolve_right (not_or.mpr ⟨stopped, late⟩)
      rw [if_neg late, alike]
      exact if_neg late

theorem take_rejected (rejected : accepts a.2 = false) :
    ((c.withFilter accepts).take s a).stopReason.isSome ↔ s.stopReason.isSome ∨ (c.deadline s).1 ≤ a.1 := by
  have same : (c.withFilter accepts).deadline s = c.deadline s := rfl
  have skips : (c.withFilter accepts).eventFilter a.2 = false := rejected
  unfold take
  rw [same, skips]
  split
  · next stopped => simp [stopped]
  · next going =>
    split
    · next late => simp [late]
    · next early => simp [going, early]

theorem drain_withFilter
    (alike : ∀ before a after, stream = before ++ a :: after → c.eventFilter a.2 = accepts a.2 ∨
      (c.drain before).stopReason.isSome ∨ (c.deadline (c.drain before)).1 ≤ a.1) :
    (c.withFilter accepts).drain stream = c.drain stream := by
  induction stream using List.reverseRecOn with
  | nil => rfl
  | append_singleton stream a ih =>
    have earlier := ih fun before b after same => alike before b (after ++ [a]) (by simp [same])
    rw [drain_concat, drain_concat, earlier]
    exact take_withFilter (alike stream a [] rfl)

/-- All that is collected passes a narrower filter exactly if no event that fails it and passes the filter arrives
before a collection with the narrower filter has stopped. -/
theorem all_accepted_iff (accepts : ε → Bool) (stream : List (ℚ × ε))
    (narrower : ∀ ev, accepts ev = true → c.eventFilter ev = true) :
    (∀ ev ∈ (c.drain stream).events, accepts ev = true) ↔
      ∀ before a after, stream = before ++ a :: after → c.eventFilter a.2 = true → accepts a.2 = false →
        ((c.withFilter accepts).drain (before ++ [a])).stopReason.isSome := by
  constructor
  · intro all before a after same passes rejected
    -- a rejected event in the stream has not been kept, so the collection has stopped before it
    have dismissed (before : List (ℚ × ε)) (b : ℚ × ε) (after : List (ℚ × ε))
        (split : stream = before ++ b :: after) :
        c.eventFilter b.2 = accepts b.2 ∨ (c.drain before).stopReason.isSome ∨
          (c.deadline (c.drain before)).1 ≤ b.1 := by
      by_cases accepted : accepts b.2 = true
      · exact .inl (by rw [accepted, narrower b.2 accepted])
      · by_cases passes : c.eventFilter b.2 = true
        · right
          by_contra open_
          obtain ⟨going, early⟩ := not_or.mp open_
          have kept : b.2 ∈ (c.drain (before ++ [b])).events := by
            rw [drain_concat, take_events]
            exact .inr ⟨by simpa using going, not_le.mp early, passes, rfl⟩
          have stays := events_monotone after kept
          rw [List.append_assoc, List.singleton_append, ← split] at stays
          exact accepted (all b.2 stays)
        · exact .inl (by simp [accepted, passes])
    have agree : (c.withFilter accepts).drain before = c.drain before :=
      drain_withFilter fun first b rest split => dismissed first b (rest ++ a :: after) (by simp [same, split])
    rw [drain_concat, agree, take_rejected rejected]
    apply (dismissed before a after same).resolve_left
    rw [passes, rejected]
    simp
  · intro stops
    have agree : ∀ before rest, stream = before ++ rest → (c.withFilter accepts).drain before = c.drain before := by
      intro before
      induction before using List.reverseRecOn with
      | nil => exact fun _ _ => rfl
      | append_singleton before a ih =>
        intro rest same
        have same : stream = before ++ a :: rest := by simp [same]
        have earlier := ih (a :: rest) same
        rw [drain_concat, drain_concat, earlier]
        apply take_withFilter
        by_cases rejected : accepts a.2 = false
        · by_cases passes : c.eventFilter a.2 = true
          · have stopped := stops before a rest same passes rejected
            rw [drain_concat, earlier] at stopped
            exact .inr ((take_rejected rejected).mp stopped)
          · exact .inl (by simp [rejected, passes])
        · have accepted : accepts a.2 = true := by simpa using rejected
          exact .inl (by rw [accepted, narrower a.2 accepted])
    intro ev kept
    rw [← agree stream [] (List.append_nil stream).symm] at kept
    exact (mem_drain_events kept).1

end CollectEvents

end OptionsModel
