import OptionsData.Kit.Run
import OptionsData.Kit.Dict

namespace OptionsModel

open Kit

inductive EventType where
  | quote
  | greeks
  | candle
deriving DecidableEq, Repr

inductive SubscribedVia where
  | subscribeCandle
  | subscribeFallback
deriving DecidableEq, Repr

/-- The symbol that the events of a candle subscription carry. -/
def wireSymbol (symbol period : String) : SubscribedVia → String
  | .subscribeCandle => symbol ++ "\x7b=" ++ period ++ ",tho=true\x7d"
  | .subscribeFallback => symbol ++ "\x7b=" ++ period ++ "\x7d"

inductive Consumer where
  | requestCandles (symbol period : String) (via : SubscribedVia)
  | snapshotGreeks (symbols : List String)
  | listenLoop (eventType : EventType) (symbols : List String)
deriving DecidableEq, Repr

namespace Consumer

def eventType : Consumer → EventType
  | requestCandles .. => .candle
  | snapshotGreeks _ => .greeks
  | listenLoop eventType _ => eventType

def awaits : Consumer → List String
  | requestCandles symbol period via => [wireSymbol symbol period via]
  | snapshotGreeks symbols => symbols
  | listenLoop _ symbols => symbols

def eventFilter : Consumer → String → Bool
  | requestCandles symbol _ _, eventSymbol => symbol.toList <:+: eventSymbol.toList
  | snapshotGreeks symbols, eventSymbol => eventSymbol ∈ symbols
  | listenLoop _ _, _ => true

end Consumer

/-- The one queue of an event type on a streamer, and the coroutines that take from it. -/
structure EventQueue where
  eventType : EventType
  active : Dict ℕ Consumer := ∅
  queue : List String := []
  kept : List (ℕ × String) := []

namespace EventQueue

inductive Action where
  | start (task : ℕ) (consumer : Consumer)
  | finish (task : ℕ)
  | arrive (symbol : String)
  /-- An iterator gets the next event; one that its filter rejects is gone. -/
  | take (task : ℕ)
deriving DecidableEq, Repr

def step (s : EventQueue) : Action → Option EventQueue
  | .start task consumer =>
    if task ∈ s.active ∨ consumer.eventType ≠ s.eventType then none
    else some { s with active := s.active.insert task consumer }
  | .finish task => some { s with active := s.active.erase task }
  | .arrive symbol => some { s with queue := s.queue ++ [symbol] }
  | .take task => match s.active.lookup task, s.queue with
    | some consumer, symbol :: queue =>
      some { s with
        queue := queue
        kept := if consumer.eventFilter symbol then s.kept ++ [(task, symbol)] else s.kept }
    | _, _ => none

end EventQueue

end OptionsModel

namespace OptionsProof.EventQueue

open Kit OptionsModel OptionsModel.EventQueue

def Starves (s : EventQueue) : Action → Prop
  | .take task => ∃ consumer symbol queue other waiting, s.active.lookup task = some consumer ∧
      s.queue = symbol :: queue ∧ consumer.eventFilter symbol = false ∧ other ≠ task ∧
      s.active.lookup other = some waiting ∧ symbol ∈ waiting.awaits
  | _ => False

/-- No event is lost to a waiting consumer, in whatever order events arrive and consumers take them or finish. -/
def Isolated (s : EventQueue) : Prop :=
  ∀ actions : List Action, (∀ a ∈ actions, ∀ task consumer, a ≠ .start task consumer) →
    Guarded step (fun u a => ¬ Starves u a) s actions

def Compatible (s : EventQueue) : Prop :=
  ∀ task consumer other waiting, other ≠ task → s.active.lookup task = some consumer →
    s.active.lookup other = some waiting → ∀ symbol ∈ waiting.awaits, consumer.eventFilter symbol = true

theorem Compatible.not_starves {s : EventQueue} (compatible : Compatible s) (a : Action) : ¬ Starves s a := by
  cases a with
  | take task =>
    intro premise
    rcases premise with ⟨consumer, symbol, queue, other, waiting, active, -, rejected, different, active', awaited⟩
    have passes := compatible task consumer other waiting different active active' symbol awaited
    rw [rejected] at passes
    cases passes
  | _ => exact id

theorem Compatible.step {s t : EventQueue} {a : Action} (compatible : Compatible s)
    (old : ∀ task consumer, a ≠ .start task consumer) (taken : EventQueue.step s a = some t) : Compatible t := by
  cases a with
  | start task consumer => exact absurd rfl (old task consumer)
  | finish task =>
    cases taken
    intro one consumer other waiting different active active'
    rw [Dict.lookup_erase] at active active'
    exact compatible one consumer other waiting different (Option.ite_none_left_eq_some.mp active).2
      (Option.ite_none_left_eq_some.mp active').2
  | arrive symbol =>
    cases taken
    exact compatible
  | take task =>
    rw [EventQueue.step] at taken
    split at taken <;> cases taken
    exact compatible

theorem drain {s : EventQueue} {task : ℕ} {consumer : Consumer} (active : s.active.lookup task = some consumer) :
    ∃ u, run step s (List.replicate s.queue.length (.take task)) = some u ∧ u.queue = [] ∧ u.active = s.active := by
  obtain ⟨queue, waiting⟩ : ∃ queue, s.queue = queue := ⟨_, rfl⟩
  rw [waiting]
  induction queue generalizing s with
  | nil => exact ⟨s, rfl, waiting, rfl⟩
  | cons symbol queue ih =>
    obtain ⟨t, taken, active', waiting'⟩ :
        ∃ t, step s (.take task) = some t ∧ t.active = s.active ∧ t.queue = queue := by
      rw [EventQueue.step, active, waiting]
      exact ⟨_, rfl, rfl, rfl⟩
    obtain ⟨u, rest, empty, same⟩ := ih (active' ▸ active) waiting'
    exact ⟨u, run_cons_some.mpr ⟨t, taken, rest⟩, empty, same.trans active'⟩

/-- Whatever consumers are active, their events are isolated exactly when their filters pass each other's symbols. -/
theorem isolated_iff (s : EventQueue) : Isolated s ↔ Compatible s := by
  constructor
  · intro isolated task consumer other waiting different active active' symbol awaited
    by_contra rejected
    have rejected : consumer.eventFilter symbol = false := by simpa using rejected
    obtain ⟨u, drained, empty, same⟩ := drain active
    have guarded := isolated (List.replicate s.queue.length (.take task) ++ [.arrive symbol, .take task])
      (by
        intro a member started fresh
        simp only [List.mem_append, List.mem_replicate, List.mem_pair] at member
        rcases member with ⟨-, rfl⟩ | rfl | rfl <;> nofun)
    obtain ⟨-, late⟩ := guarded.append
    obtain ⟨-, last⟩ := late u drained
    refine (last _ rfl).1 ⟨consumer, symbol, [], other, waiting, ?_, ?_, rejected, different, ?_, awaited⟩
    · rw [← active, ← same]
    · simp [empty]
    · rw [← active', ← same]
  · intro compatible actions old
    have meets (u : EventQueue) (a : Action) (kept : Compatible u) (_ : ∀ task consumer, a ≠ .start task consumer) :
        ¬ Starves u a := kept.not_starves a
    exact guarded_of_invariant meets (fun _ _ _ kept old taken => kept.step old taken) compatible old

def callRequest : Consumer := .requestCandles ".SPXW261016C6000" "1m" .subscribeCandle

def putRequest : Consumer := .requestCandles ".SPXW261016P6000" "1m" .subscribeCandle

def twoRequests : EventQueue where
  eventType := .candle
  active := Dict.assign ∅ [(0, callRequest), (1, putRequest)]

theorem twoRequests_starve : ¬ ∀ (eventType : EventType) (starts : List Action) (s : EventQueue),
    run step { eventType := eventType } starts = some s → Isolated s := by
  intro isolated
  have guarded := isolated .candle [.start 0 callRequest, .start 1 putRequest] twoRequests rfl
    [.arrive ".SPXW261016P6000\x7b=1m,tho=true\x7d", .take 0] (by simp)
  apply (guarded.2 _ rfl).1
  refine ⟨callRequest, ".SPXW261016P6000\x7b=1m,tho=true\x7d", [], 1, putRequest, ?_, rfl, ?_, ?_, ?_, ?_⟩
  · decide +kernel
  · decide +kernel
  · decide
  · decide +kernel
  · decide +kernel

end OptionsProof.EventQueue
