import OptionsData.Sources.StreamerLocks

namespace OptionsModel

open TastyTradeSource

structure Sockets where
  source : TastyTradeSource := {}
  isOpen : ℕ → Bool := fun _ => false
  /-- The connection whose `__aexit__` a task awaits. -/
  exiting : Task → Option ℕ := fun _ => none

namespace Sockets

def awaitsExit (s : TastyTradeSource) : Task → Bool
  | .listener feed => s.listener feed = .markingDisconnected
  | .caller id => s.caller id = .closing

/-- What closes a websocket; `released` tells whether an `__aexit__` that ends in a given way has closed it. -/
def shuts (released : Await → Bool) (p : Sockets) (connection : ℕ) : Event → Bool
  | .drop dropped => dropped = connection
  | .resumeListener feed answer _ => released answer && p.exiting (.listener feed) = some connection
  | .resumeCaller id answer _ => released answer && p.exiting (.caller id) = some connection
  | _ => false

def step (released : Await → Bool) (p : Sockets) (e : Event) : Option Sockets :=
  (p.source.step e).map fun t => {
    source := t
    isOpen := fun c =>
      if t.opened ≠ p.source.opened ∧ c = p.source.opened then true else p.isOpen c && !p.shuts released c e
    exiting := fun task =>
      if !awaitsExit t task then none
      else if awaitsExit p.source task then p.exiting task
      else p.source.streamer }

end Sockets

end OptionsModel

namespace OptionsProof.Connections

open Kit OptionsModel OptionsModel.TastyTradeSource OptionsModel.Sockets OptionsProof.Reconnect

/-- No `close` begins while another one is under way. -/
def ClosesAlone (s : TastyTradeSource) : Event → Prop
  | .close _ => ∀ id, closes (s.caller id) = false
  | _ => True

def mayOpen : Caller → Bool
  | .ensuring _ | .opening _ => true
  | _ => false

def asks : Event → Bool
  | .subscribe .. | .snapshotGreeks .. | .requestCandles _ => true
  | _ => false

variable {s t : TastyTradeSource} {e : Event} {feed : Feed} {answer : Await} {delivered : Bool}

/-- How a connection ends: it drops, or a task begins to await the end of the one that the source knows. -/
def Ends (s : TastyTradeSource) (e : Event) (t : TastyTradeSource) (c : ℕ) : Prop :=
  e = .drop c ∨ ∃ task, awaitsExit s task = false ∧ awaitsExit t task = true ∧ s.streamer = some c

inductive Effect (s : TastyTradeSource) (e : Event) (t : TastyTradeSource) : Prop where
  | keeps (streamer : t.streamer = s.streamer) (alive : ∀ c, t.alive c = true → s.alive c = true)
      (opened : t.opened = s.opened) (lost : ∀ c, s.alive c = true → t.alive c = false → Ends s e t c)
  | connects (opening : (∃ feed, s.listener feed ≠ .idle) ∨ ∃ id, mayOpen (s.caller id) = true)
      (before : s.streamer = none) (streamer : t.streamer = some s.opened)
      (alive : t.alive = Function.update s.alive s.opened true) (opened : t.opened = s.opened + 1)
  | tears (c : ℕ) (notClosed : s.closed = false) (before : s.streamer = some c) (streamer : t.streamer = none)
      (alive : t.alive = Function.update s.alive c false) (opened : t.opened = s.opened) (ends : Ends s e t c)
  | clears (id : ℕ) (closing : s.caller id = .closing) (returned : t.caller id = .idle) (streamer : t.streamer = none)
      (alive : t.alive = s.alive) (opened : t.opened = s.opened)

theorem of_update_false {alive : ℕ → Bool} {c d : ℕ} (lives : Function.update alive d false c = true) :
    c ≠ d ∧ alive c = true := by
  by_cases same : c = d
  · simp [same] at lives
  · rw [Function.update_of_ne same] at lives
    exact ⟨same, lives⟩

theorem lost_update_false {alive : ℕ → Bool} {c d : ℕ} (lives : alive c = true)
    (dies : Function.update alive d false c = false) : c = d := by
  by_contra other
  rw [Function.update_of_ne other, lives] at dies
  cases dies

theorem Effect.same (streamer : t.streamer = s.streamer) (alive : t.alive = s.alive) (opened : t.opened = s.opened) :
    Effect s e t :=
  .keeps streamer (fun _ lives => alive ▸ lives) opened fun c lives dies => by
    rw [alive, lives] at dies
    cases dies

theorem effect_markDisconnected (there : s.listener feed ≠ .markingDisconnected) (lock : Option OptionsModel.Task) :
    Effect s e ({ s with streamerLock := lock }.markDisconnected feed) := by
  unfold TastyTradeSource.markDisconnected
  split
  · exact .same rfl rfl rfl
  · next notClosed =>
    split
    · exact .same rfl rfl rfl
    · next c current =>
      refine .tears c (Bool.eq_false_of_not_eq_true notClosed) current rfl rfl rfl
        (.inr ⟨.listener feed, decide_eq_false there, decide_eq_true ?_, current⟩)
      exact Function.update_self ..

theorem effect_retry (s : TastyTradeSource) (feed : Feed) : Effect s e (s.retry feed) := by
  unfold TastyTradeSource.retry
  split <;> exact .same rfl rfl rfl

theorem effect_loop (s : TastyTradeSource) (feed : Feed) : Effect s e (s.loop feed) := by
  unfold TastyTradeSource.loop
  split <;> exact .same rfl rfl rfl

theorem effect_connect {next : Listener} (wf : WellFormed s) (held : s.streamerLock = some (.listener feed))
    (runs : s.listener feed ≠ .idle) : Effect s e (s.connect.setListener feed next) :=
  .connects (.inl ⟨feed, runs⟩) (wf.noStreamer _ held) rfl rfl rfl

theorem effect_reconnect {attempt : Attempt} (wf : WellFormed s) (there : s.listener feed = .reconnecting attempt)
    (taken : s.stepReconnect feed answer delivered attempt = some t) : Effect s e t := by
  unfold stepReconnect at taken
  split at taken
  · cases taken
    exact .same rfl rfl rfl
  · split at taken
    · cases taken
      exact .same rfl rfl rfl
    · cases taken
      exact effect_retry s feed
  · obtain ⟨found, -, rfl⟩ := Option.map_eq_some_iff.mp taken
    cases found with
    | current => exact .same rfl rfl rfl
    | opens => exact .same rfl rfl rfl
    | raises => exact effect_retry s feed
  · have holds := wf.listeners feed
    rw [there] at holds
    split at taken
    · cases taken
      exact effect_connect wf holds.2 (by rw [there]; nofun)
    · cases taken
      unfold TastyTradeSource.retry
      split <;> exact .same rfl rfl rfl
  · split at taken
    · cases taken
      exact .same rfl rfl rfl
    · cases taken
      exact .same rfl rfl rfl
  · cases taken
    exact .same rfl rfl rfl
  · cases taken
    exact .same rfl rfl rfl
  · obtain ⟨u, sent, rfl⟩ := Option.map_eq_some_iff.mp taken
    obtain ⟨subscribed, rfl, -, -⟩ := subscribeBatch_cases sent
    split
    · exact .same rfl rfl rfl
    · unfold TastyTradeSource.retry
      split <;> exact .same rfl rfl rfl

theorem effect_listen (wf : WellFormed s) (taken : s.stepListener feed answer delivered = some t) :
    Effect s e t := by
  unfold stepListener at taken
  split at taken
  · split at taken
    · cases taken
      exact .same rfl rfl rfl
    · cases taken
  · split at taken
    · cases taken
    · next ensuring =>
      obtain ⟨found, ensured, rfl⟩ := Option.map_eq_some_iff.mp taken
      cases found with
      | current => exact .same rfl rfl rfl
      | opens => exact .same rfl rfl rfl
      | raises => exact effect_markDisconnected (by rw [ensuring]; nofun) s.streamerLock
    · next opening =>
      have held := wf.listeners feed
      rw [opening] at held
      split at taken
      · cases taken
        exact effect_connect wf held (by rw [opening]; nofun)
      · cases taken
        exact effect_markDisconnected (by rw [opening]; nofun) none
    · next connection listening =>
      cases taken
      split
      · exact effect_loop s feed
      · exact effect_markDisconnected (by rw [listening]; nofun) s.streamerLock
    · cases taken
      exact .same rfl rfl rfl
    · split at taken
      · cases taken
      · split at taken
        · cases taken
          exact .same rfl rfl rfl
        · cases taken
          exact .same rfl rfl rfl
    · next attempt there => exact effect_reconnect wf there taken
    · cases taken
      exact effect_loop s feed

theorem effect_called {id : ℕ} (wf : WellFormed s) (taken : s.stepCaller id answer delivered = some t) :
    Effect s e t := by
  cases stepCaller_moves taken with
  | plain => exact .same rfl rfl rfl
  | locks => exact .same rfl rfl rfl
  | connects request opening returns =>
    exact .connects (.inr ⟨id, by rw [opening]; rfl⟩) (wf.noStreamer _ (wf.callers id _ opening)) rfl rfl rfl
  | unlocks => exact .same rfl rfl rfl
  | starts feed idle =>
    unfold TastyTradeSource.loop
    split <;> exact .same rfl rfl rfl
  | closes connection cancelling current =>
    refine .keeps rfl (fun c lives => (of_update_false lives).2) rfl fun c lives dies => .inr ⟨.caller id, ?_, ?_, ?_⟩
    · exact decide_eq_false (by rw [cancelling]; nofun)
    · exact decide_eq_true (Function.update_self ..)
    · rw [lost_update_false lives dies]
      exact current
  | clears closing => exact .clears id closing (Function.update_self ..) rfl rfl rfl

theorem step_effect (wf : WellFormed s) (taken : s.step e = some t) : Effect s e t := by
  cases e with
  | authenticate =>
    cases taken
    exact .same rfl rfl rfl
  | subscribe id other symbols =>
    obtain ⟨-, rfl⟩ := call_cases taken
    exact .same rfl rfl rfl
  | snapshotGreeks id symbols =>
    obtain ⟨-, rfl⟩ := call_cases taken
    exact .same rfl rfl rfl
  | requestCandles id =>
    obtain ⟨-, rfl⟩ := call_cases taken
    exact .same rfl rfl rfl
  | unsubscribe id symbols =>
    obtain ⟨-, rfl⟩ := call_cases taken
    split <;> exact .same rfl rfl rfl
  | close id =>
    obtain ⟨-, rfl⟩ := call_cases taken
    exact .same rfl rfl rfl
  | drop connection =>
    cases taken
    exact .keeps rfl (fun c lives => (of_update_false lives).2) rfl
      fun c lives dies => .inl (by rw [lost_update_false lives dies])
  | rehash other order =>
    rw [TastyTradeSource.step] at taken
    split at taken
    · cases taken
      exact .same rfl rfl rfl
    · cases taken
  | resumeListener feed answer delivered => exact effect_listen wf taken
  | resumeCaller id answer delivered => exact effect_called wf taken

structure Moves (feed : Feed) (s t : TastyTradeSource) : Prop where
  listener : ∃ next, t.listener = Function.update s.listener feed next
  caller : t.caller = s.caller
  closed : t.closed = s.closed

theorem Moves.to (next : Listener) (listener : t.listener = Function.update s.listener feed next)
    (caller : t.caller = s.caller) (closed : t.closed = s.closed) : Moves feed s t :=
  ⟨⟨next, listener⟩, caller, closed⟩

theorem moves_markDisconnected (s : TastyTradeSource) (feed : Feed) (lock : Option OptionsModel.Task) :
    Moves feed s ({ s with streamerLock := lock }.markDisconnected feed) := by
  unfold TastyTradeSource.markDisconnected
  split
  · exact .to _ rfl rfl rfl
  · split <;> exact .to _ rfl rfl rfl

theorem moves_retry (s : TastyTradeSource) (feed : Feed) (lock : Option OptionsModel.Task)
    (subscribed : ℕ → Feed → Finset String) :
    Moves feed s ({ s with streamerLock := lock, subscribed := subscribed }.retry feed) := by
  unfold TastyTradeSource.retry
  split <;> exact .to _ rfl rfl rfl

theorem moves_loop (s : TastyTradeSource) (feed : Feed) : Moves feed s (s.loop feed) := .to _ rfl rfl rfl

theorem moves_reconnect {attempt : Attempt} (taken : s.stepReconnect feed answer delivered attempt = some t) :
    Moves feed s t := by
  unfold stepReconnect at taken
  split at taken
  · cases taken
    exact .to _ rfl rfl rfl
  · split at taken
    · cases taken
      exact .to _ rfl rfl rfl
    · cases taken
      exact moves_retry s feed s.streamerLock s.subscribed
  · obtain ⟨found, -, rfl⟩ := Option.map_eq_some_iff.mp taken
    cases found with
    | current => exact .to _ rfl rfl rfl
    | opens => exact .to _ rfl rfl rfl
    | raises => exact moves_retry s feed s.streamerLock s.subscribed
  · split at taken
    · cases taken
      exact .to _ rfl rfl rfl
    · cases taken
      exact moves_retry s feed none s.subscribed
  · split at taken
    · cases taken
      exact .to _ rfl rfl rfl
    · cases taken
      exact .to _ rfl rfl rfl
  · cases taken
    exact .to _ rfl rfl rfl
  · cases taken
    exact .to _ rfl rfl rfl
  · obtain ⟨u, sent, rfl⟩ := Option.map_eq_some_iff.mp taken
    obtain ⟨subscribed, rfl, -, -⟩ := subscribeBatch_cases sent
    split
    · exact .to _ rfl rfl rfl
    · exact moves_retry s feed s.streamerLock subscribed

theorem moves_listen (taken : s.stepListener feed answer delivered = some t) : Moves feed s t := by
  unfold stepListener at taken
  split at taken
  · split at taken
    · cases taken
      exact .to _ rfl rfl rfl
    · cases taken
  · split at taken
    · cases taken
    · obtain ⟨found, -, rfl⟩ := Option.map_eq_some_iff.mp taken
      cases found with
      | current => exact .to _ rfl rfl rfl
      | opens => exact .to _ rfl rfl rfl
      | raises => exact moves_markDisconnected s feed s.streamerLock
    · split at taken
      · cases taken
        exact .to _ rfl rfl rfl
      · cases taken
        exact moves_markDisconnected s feed none
    · cases taken
      split
      · exact moves_loop s feed
      · exact moves_markDisconnected s feed s.streamerLock
    · cases taken
      exact .to _ rfl rfl rfl
    · split at taken
      · cases taken
      · split at taken
        · cases taken
          exact .to _ rfl rfl rfl
        · cases taken
          exact .to _ rfl rfl rfl
    · exact moves_reconnect taken
    · cases taken
      exact moves_loop s feed

theorem idle_listen (idle : s.listener feed = .idle) (taken : s.stepListener feed answer delivered = some t) :
    t.listener feed = .idle := by
  simp only [stepListener, idle] at taken
  split at taken
  · split at taken
    · cases taken
      exact setListener_self s feed .idle
    · cases taken
  · cases taken

theorem loop_idle (closed : s.closed = true) (idle : ∀ feed, s.listener feed = .idle) (feed other : Feed) :
    (s.loop feed).listener other = .idle := by
  simp only [TastyTradeSource.loop, closed, if_true, TastyTradeSource.setListener]
  by_cases same : other = feed
  · rw [same, Function.update_self]
  · rw [Function.update_of_ne same, idle other]

theorem idle_called {id : ℕ} (closed : s.closed = true) (idle : ∀ feed, s.listener feed = .idle)
    (taken : s.stepCaller id answer delivered = some t) (feed : Feed) : t.listener feed = .idle := by
  cases stepCaller_moves taken with
  | starts started stopped => exact loop_idle closed idle started feed
  | _ => exact idle feed

theorem closed_called {id : ℕ} (taken : s.stepCaller id answer delivered = some t) : t.closed = s.closed := by
  cases stepCaller_moves taken <;> rfl

theorem moved_caller {is : Caller → Bool} {id other : ℕ} {next : Caller} (after : is (t.caller other) = true)
    (moved : t.caller = Function.update s.caller id next) :
    is (s.caller other) = true ∨ other = id ∧ is next = true := by
  rw [moved] at after
  by_cases same : other = id
  · subst same
    rw [Function.update_self] at after
    exact .inr ⟨rfl, after⟩
  · rw [Function.update_of_ne same] at after
    exact .inl after

theorem kept_caller {is : Caller → Bool} {id other : ℕ} {next : Caller} (after : is (t.caller other) = true)
    (moved : t.caller = Function.update s.caller id next) (isNot : is next = false) : is (s.caller other) = true :=
  (moved_caller after moved).resolve_right fun moves => Bool.false_ne_true (isNot.symm.trans moves.2)

def awaitsEnd : Caller → Bool
  | .closing => true
  | _ => false

theorem awaitsEnd_iff {caller : Caller} : awaitsEnd caller = true ↔ caller = .closing := by
  cases caller <;> simp [awaitsEnd]

theorem closes_of_awaitsEnd {caller : Caller} (awaits : awaitsEnd caller = true) : closes caller = true := by
  rw [awaitsEnd_iff.mp awaits]
  rfl

theorem awaitsEnd_of_closes {caller : Caller} (notClosing : closes caller = false) : awaitsEnd caller = false :=
  Bool.eq_false_of_not_eq_true fun awaits => Bool.false_ne_true (notClosing.symm.trans (closes_of_awaitsEnd awaits))

structure Shuts (s t : TastyTradeSource) (id : ℕ) : Prop where
  cancelling : s.caller id = .cancelling
  ended : ∀ feed, s.listener feed = .idle
  listener : t.listener = s.listener
  dead : ∃ c, t.streamer = some c ∧ t.alive c = false

theorem awaitsEnd_called {id other : ℕ} (taken : s.stepCaller id answer delivered = some t)
    (after : awaitsEnd (t.caller other) = true) : awaitsEnd (s.caller other) = true ∨ Shuts s t other := by
  by_cases cancelling : s.caller id = .cancelling
  · simp only [stepCaller, cancelling] at taken
    split at taken
    · cases taken
    · next ended =>
      push Not at ended
      split at taken
      · cases taken
        exact .inl (kept_caller after rfl rfl)
      · next c current =>
        cases taken
        rcases moved_caller after rfl with before | ⟨rfl, -⟩
        · exact .inl before
        · exact .inr ⟨cancelling, ended, rfl, c, current, Function.update_self ..⟩
  · refine .inl ?_
    cases stepCaller_moves taken with
    | plain tracked subscribed next notOpening notClosing =>
      exact kept_caller after rfl (awaitsEnd_of_closes notClosing)
    | locks => exact kept_caller after rfl rfl
    | connects request => exact kept_caller after rfl (awaitsEnd_of_closes (goOn_not_closes _ request))
    | unlocks => exact kept_caller after rfl rfl
    | starts => exact kept_caller after rfl rfl
    | closes connection there => exact absurd there cancelling
    | clears => exact kept_caller after rfl rfl

theorem closes_called {id other : ℕ} (taken : s.stepCaller id answer delivered = some t)
    (after : closes (t.caller other) = true) : closes (s.caller other) = true := by
  cases stepCaller_moves taken with
  | plain tracked subscribed next notOpening notClosing => exact kept_caller after rfl notClosing
  | locks => exact kept_caller after rfl rfl
  | connects request => exact kept_caller after rfl (goOn_not_closes _ request)
  | unlocks => exact kept_caller after rfl rfl
  | starts => exact kept_caller after rfl rfl
  | closes connection there =>
    rcases moved_caller after rfl with before | ⟨rfl, -⟩
    · exact before
    · rw [there]
      rfl
  | clears => exact kept_caller after rfl rfl

theorem mayOpen_goOn (connection : ℕ) (request : Request) : mayOpen (Request.goOn connection request) = false := by
  cases request <;> rfl

theorem mayOpen_called {id other : ℕ} (taken : s.stepCaller id answer delivered = some t)
    (after : mayOpen (t.caller other) = true) : mayOpen (s.caller other) = true := by
  have sent {change : Finset String → Finset String} {connection : ℕ} {feed : Feed} {next : Caller}
      (taken : (s.send change connection feed answer delivered).map (fun u => u.setCaller id next) = some t)
      (isNot : mayOpen next = false) : mayOpen (s.caller other) = true := by
    obtain ⟨u, sent, rfl⟩ := Option.map_eq_some_iff.mp taken
    rcases send_cases sent with ⟨rfl, -⟩ | ⟨-, rfl⟩
    · exact kept_caller after rfl isNot
    · exact kept_caller after rfl isNot
  unfold stepCaller at taken
  split at taken
  · cases taken
  · next request ensuring =>
    split at taken
    · cases taken
      exact kept_caller after rfl rfl
    · obtain ⟨found, -, rfl⟩ := Option.map_eq_some_iff.mp taken
      cases found with
      | current connection => exact kept_caller after rfl (mayOpen_goOn connection request)
      | opens =>
        rcases moved_caller after rfl with before | ⟨rfl, -⟩
        · exact before
        · rw [ensuring]
          rfl
      | raises => exact kept_caller after rfl rfl
  · next request opening =>
    split at taken
    · cases taken
      exact kept_caller after rfl (mayOpen_goOn _ request)
    · cases taken
      exact kept_caller after rfl rfl
  · cases taken
    have moved (starts : Prop) [Decidable starts] (u : TastyTradeSource) (same : u.caller = s.caller) :
        ((if starts then u else s).setCaller id .idle).caller = Function.update s.caller id .idle := by
      split
      · show Function.update u.caller id .idle = _
        rw [same]
      · rfl
    exact kept_caller after (moved _ _ rfl) rfl
  · exact sent taken (by split <;> rfl)
  · cases taken
    exact kept_caller after rfl rfl
  · exact sent taken (by split <;> rfl)
  · cases taken
    exact kept_caller after rfl rfl
  · cases taken
    exact kept_caller after rfl rfl
  · exact sent taken (by split <;> rfl)
  · cases taken
    exact kept_caller after rfl rfl
  · exact sent taken (by split <;> rfl)
  · exact sent taken (by split <;> rfl)
  · cases taken
    exact kept_caller after rfl rfl
  · split at taken
    · cases taken
    · split at taken
      · cases taken
        exact kept_caller after rfl rfl
      · cases taken
        exact kept_caller after rfl rfl
  · cases taken
    split at after
    · exact kept_caller after rfl rfl
    · exact kept_caller after rfl rfl

structure Enters (s : TastyTradeSource) (e : Event) (t : TastyTradeSource) : Prop where
  listener : t.listener = s.listener
  closed : s.closed = true → t.closed = true
  caller : t.caller = s.caller ∨ ∃ id next, s.caller id = .idle ∧ t.caller = Function.update s.caller id next ∧
    awaitsEnd next = false ∧ (closes next = true → e = .close id) ∧ (mayOpen next = true → asks e = true)

theorem Enters.frame (caller : t.caller = s.caller) (listener : t.listener = s.listener)
    (closed : t.closed = s.closed) : Enters s e t :=
  ⟨listener, fun isClosed => closed ▸ isClosed, .inl caller⟩

theorem Enters.begins {id : ℕ} (next : Caller) (idle : s.caller id = .idle)
    (caller : t.caller = Function.update s.caller id next)
    (notAwaiting : awaitsEnd next = false) (closing : closes next = true → e = .close id)
    (opening : mayOpen next = true → asks e = true) (listener : t.listener = s.listener)
    (closed : s.closed = true → t.closed = true) : Enters s e t :=
  ⟨listener, closed, .inr ⟨id, next, idle, caller, notAwaiting, closing, opening⟩⟩

theorem step_cases (taken : s.step e = some t) :
    (∃ feed answer delivered, e = .resumeListener feed answer delivered ∧
        s.stepListener feed answer delivered = some t) ∨
      (∃ id answer delivered, e = .resumeCaller id answer delivered ∧ s.stepCaller id answer delivered = some t) ∨
      Enters s e t := by
  have never {p : Prop} (holds : false = true) : p := absurd holds Bool.false_ne_true
  cases e with
  | resumeListener feed answer delivered => exact .inl ⟨feed, answer, delivered, rfl, taken⟩
  | resumeCaller id answer delivered => exact .inr (.inl ⟨id, answer, delivered, rfl, taken⟩)
  | rehash feed order =>
    rw [TastyTradeSource.step] at taken
    split at taken
    · cases taken
      exact .inr (.inr (.frame rfl rfl rfl))
    · cases taken
  | authenticate =>
    cases taken
    exact .inr (.inr (.frame rfl rfl rfl))
  | drop connection =>
    cases taken
    exact .inr (.inr (.frame rfl rfl rfl))
  | unsubscribe id symbols =>
    obtain ⟨idle, rfl⟩ := call_cases taken
    split
    · exact .inr (.inr (.frame rfl rfl rfl))
    · exact .inr (.inr (.begins _ idle rfl rfl never never rfl fun isClosed => isClosed))
  | close id =>
    obtain ⟨idle, rfl⟩ := call_cases taken
    exact .inr (.inr (.begins _ idle rfl rfl (fun _ => rfl) never rfl fun _ => rfl))
  | subscribe id feed symbols =>
    obtain ⟨idle, rfl⟩ := call_cases taken
    exact .inr (.inr (.begins _ idle rfl rfl never (fun _ => rfl) rfl fun isClosed => isClosed))
  | snapshotGreeks id symbols =>
    obtain ⟨idle, rfl⟩ := call_cases taken
    exact .inr (.inr (.begins _ idle rfl rfl never (fun _ => rfl) rfl fun isClosed => isClosed))
  | requestCandles id =>
    obtain ⟨idle, rfl⟩ := call_cases taken
    exact .inr (.inr (.begins _ idle rfl rfl never (fun _ => rfl) rfl fun isClosed => isClosed))

theorem closed_step (taken : s.step e = some t) (closed : s.closed = true) : t.closed = true := by
  rcases step_cases taken with ⟨feed, answer, delivered, -, taken⟩ | ⟨id, answer, delivered, -, taken⟩ | enters
  · rwa [(moves_listen taken).closed]
  · rwa [closed_called taken]
  · exact enters.closed closed

theorem idle_step (closed : s.closed = true) (idle : ∀ feed, s.listener feed = .idle) (taken : s.step e = some t)
    (feed : Feed) : t.listener feed = .idle := by
  rcases step_cases taken with ⟨other, answer, delivered, -, taken⟩ | ⟨id, answer, delivered, -, taken⟩ | enters
  · obtain ⟨next, moved⟩ := (moves_listen taken).listener
    by_cases same : feed = other
    · subst same
      exact idle_listen (idle feed) taken
    · rw [moved, Function.update_of_ne same, idle feed]
  · exact idle_called closed idle taken feed
  · rw [enters.listener, idle feed]

theorem awaitsEnd_step {other : ℕ} (taken : s.step e = some t) (after : awaitsEnd (t.caller other) = true) :
    awaitsEnd (s.caller other) = true ∨ Shuts s t other := by
  rcases step_cases taken with ⟨feed, answer, delivered, -, taken⟩ | ⟨id, answer, delivered, -, taken⟩ | enters
  · exact .inl ((moves_listen taken).caller ▸ after)
  · exact awaitsEnd_called taken after
  · rcases enters.caller with same | ⟨id, next, -, moved, notAwaiting, -, -⟩
    · exact .inl (same ▸ after)
    · exact .inl (kept_caller after moved notAwaiting)

theorem closes_step {other : ℕ} (taken : s.step e = some t) (after : closes (t.caller other) = true) :
    closes (s.caller other) = true ∨ e = .close other := by
  rcases step_cases taken with ⟨feed, answer, delivered, -, taken⟩ | ⟨id, answer, delivered, -, taken⟩ | enters
  · exact .inl ((moves_listen taken).caller ▸ after)
  · exact .inl (closes_called taken after)
  · rcases enters.caller with same | ⟨id, next, -, moved, -, closing, -⟩
    · exact .inl (same ▸ after)
    · rcases moved_caller after moved with before | ⟨rfl, begins⟩
      · exact .inl before
      · exact .inr (closing begins)

theorem mayOpen_step {other : ℕ} (taken : s.step e = some t) (after : mayOpen (t.caller other) = true) :
    mayOpen (s.caller other) = true ∨ asks e = true := by
  rcases step_cases taken with ⟨feed, answer, delivered, -, taken⟩ | ⟨id, answer, delivered, -, taken⟩ | enters
  · exact .inl ((moves_listen taken).caller ▸ after)
  · exact .inl (mayOpen_called taken after)
  · rcases enters.caller with same | ⟨id, next, -, moved, -, -, opening⟩
    · exact .inl (same ▸ after)
    · rcases moved_caller after moved with before | ⟨-, begins⟩
      · exact .inl before
      · exact .inr (opening begins)

theorem moved_called {id : ℕ} (taken : s.stepCaller id answer delivered = some t) :
    ∃ next, t.caller = Function.update s.caller id next := by
  cases stepCaller_moves taken with
  | connects request => exact ⟨Request.goOn s.opened request, rfl⟩
  | _ => exact ⟨_, rfl⟩

/-- A connection that is open is the one that the source knows; a `close` that awaits its end knows a dead one. -/
structure Owned (s : TastyTradeSource) : Prop where
  wf : WellFormed s
  current : ∀ c, s.alive c = true → s.streamer = some c
  ending : ∀ id, awaitsEnd (s.caller id) = true →
    (∃ c, s.streamer = some c ∧ s.alive c = false) ∧ ∀ feed, s.listener feed = .idle
  alone : ∀ id other, closes (s.caller id) = true → closes (s.caller other) = true → id = other

theorem Owned.current_step (owned : Owned s) (taken : s.step e = some t) (c : ℕ) (lives : t.alive c = true) :
    t.streamer = some c := by
  cases step_effect owned.wf taken with
  | keeps streamer alive => exact streamer.trans (owned.current c (alive c lives))
  | connects opening before streamer alive =>
    rw [alive] at lives
    by_cases same : c = s.opened
    · rw [streamer, same]
    · rw [Function.update_of_ne same] at lives
      cases before.symm.trans (owned.current c lives)
  | tears d notClosed before streamer alive =>
    rw [alive] at lives
    by_cases same : c = d
    · simp [same] at lives
    · rw [Function.update_of_ne same] at lives
      exact absurd (Option.some.inj ((owned.current c lives).symm.trans before)) same
  | clears id closing returned streamer alive =>
    rw [alive] at lives
    obtain ⟨⟨d, current, dead⟩, -⟩ := owned.ending id (by rw [closing]; rfl)
    obtain rfl : c = d := Option.some.inj ((owned.current c lives).symm.trans current)
    cases dead.symm.trans lives

theorem Owned.ending_step (owned : Owned s) (taken : s.step e = some t) (id : ℕ)
    (awaits : awaitsEnd (t.caller id) = true) :
    (∃ c, t.streamer = some c ∧ t.alive c = false) ∧ ∀ feed, t.listener feed = .idle := by
  rcases awaitsEnd_step taken awaits with before | shuts
  · obtain ⟨⟨c, current, dead⟩, ended⟩ := owned.ending id before
    have closed := owned.wf.closing id (closes_of_awaitsEnd before)
    refine ⟨?_, idle_step closed ended taken⟩
    cases step_effect owned.wf taken with
    | keeps streamer alive =>
      refine ⟨c, streamer.trans current, Bool.eq_false_of_not_eq_true fun lives => ?_⟩
      cases dead.symm.trans (alive c lives)
    | connects opening nothing => cases nothing.symm.trans current
    | tears d notClosed => cases notClosed.symm.trans closed
    | clears other closing returned =>
      have same : id = other :=
        owned.alone id other (closes_of_awaitsEnd before) (by rw [closing]; rfl)
      rw [same, returned] at awaits
      cases awaits
  · refine ⟨shuts.dead, fun feed => ?_⟩
    rw [shuts.listener, shuts.ended feed]

theorem Owned.step (owned : Owned s) (alone : ClosesAlone s e) (taken : s.step e = some t) : Owned t where
  wf := owned.wf.step taken
  current := owned.current_step taken
  ending := owned.ending_step taken
  alone id other one another := by
    rcases closes_step taken one with first | rfl
    · rcases closes_step taken another with second | rfl
      · exact owned.alone id other first second
      · cases (alone id).symm.trans first
    · rcases closes_step taken another with second | same
      · cases (alone other).symm.trans second
      · cases same
        rfl

theorem returns_called {id : ℕ} (running : closes (s.caller id) = true) (taken : s.step e = some t)
    (returned : closes (t.caller id) = false) :
    ∃ answer delivered, e = .resumeCaller id answer delivered ∧ s.stepCaller id answer delivered = some t := by
  have stays (same : t.caller id = s.caller id) : False := by
    rw [same, running] at returned
    cases returned
  rcases step_cases taken with ⟨feed, answer, delivered, -, taken⟩ | ⟨other, answer, delivered, rfl, taken⟩ | enters
  · exact absurd (congrFun (moves_listen taken).caller id) stays
  · by_cases same : id = other
    · subst same
      exact ⟨answer, delivered, rfl, taken⟩
    · obtain ⟨next, moved⟩ := moved_called taken
      exact absurd (by rw [moved, Function.update_of_ne same]) stays
  · rcases enters.caller with same | ⟨other, next, idle, moved, -⟩
    · exact absurd (congrFun same id) stays
    · by_cases same : id = other
      · rw [same, idle] at running
        cases running
      · exact absurd (by rw [moved, Function.update_of_ne same]) stays

theorem Owned.returned {id : ℕ} (owned : Owned s) (running : closes (s.caller id) = true)
    (taken : s.step e = some t) (returned : closes (t.caller id) = false) :
    (∀ c, t.alive c = false) ∧ t.closed = true ∧ ∀ feed, t.listener feed = .idle := by
  have closed := owned.wf.closing id running
  have none_alive (nothing : t.streamer = none) (c : ℕ) : t.alive c = false :=
    Bool.eq_false_of_not_eq_true fun lives => nomatch nothing.symm.trans (owned.current_step taken c lives)
  obtain ⟨answer, delivered, -, called⟩ := returns_called running taken returned
  cases there : s.caller id with
  | cancelling =>
    simp only [stepCaller, there] at called
    split at called
    · cases called
    · next ended =>
      push Not at ended
      split at called
      · next nothing =>
        cases called
        exact ⟨none_alive nothing, closed, ended⟩
      · cases called
        simp [TastyTradeSource.setCaller, closes] at returned
  | closing =>
    obtain ⟨⟨d, current, dead⟩, idle⟩ := owned.ending id (awaitsEnd_iff.mpr there)
    have none_left (c : ℕ) : s.alive c = false := Bool.eq_false_of_not_eq_true fun lives => by
      obtain rfl : c = d := Option.some.inj ((owned.current c lives).symm.trans current)
      cases dead.symm.trans lives
    simp only [stepCaller, there] at called
    cases called
    split <;> exact ⟨none_left, closed, idle⟩
  | _ =>
    rw [there] at running
    cases running

theorem listener_called {id : ℕ} (taken : s.stepCaller id answer delivered = some t) (feed : Feed) :
    t.listener feed = s.listener feed ∨ s.listener feed = .idle := by
  cases stepCaller_moves taken with
  | starts started idle =>
    by_cases same : feed = started
    · exact .inr (same ▸ idle)
    · exact .inl (Function.update_of_ne same ..)
  | _ => exact .inl rfl

theorem shuts_of_awaited {released : Await → Bool} {p : Sockets} {task : OptionsModel.Task} {c : ℕ}
    (always : ∀ answer, released answer = true) (exiting : p.exiting task = some c)
    (awaited : awaitsExit p.source task = true) (taken : p.source.step e = some t)
    (ended : awaitsExit t task = false) : p.shuts released c e = true := by
  cases task with
  | listener feed =>
    have there : p.source.listener feed = .markingDisconnected := of_decide_eq_true awaited
    have gone : t.listener feed ≠ .markingDisconnected := of_decide_eq_false ended
    rcases step_cases taken with ⟨other, answer, delivered, rfl, taken⟩ | ⟨id, answer, delivered, -, taken⟩ | enters
    · obtain ⟨next, moved⟩ := (moves_listen taken).listener
      by_cases same : feed = other
      · subst same
        simp [shuts, always, exiting]
      · rw [moved, Function.update_of_ne same] at gone
        exact absurd there gone
    · rcases listener_called taken feed with same | idle
      · exact absurd (same.trans there) gone
      · cases idle.symm.trans there
    · rw [enters.listener] at gone
      exact absurd there gone
  | caller id =>
    have there : p.source.caller id = .closing := of_decide_eq_true awaited
    have gone : t.caller id ≠ .closing := of_decide_eq_false ended
    rcases step_cases taken with ⟨feed, answer, delivered, -, taken⟩ | ⟨other, answer, delivered, rfl, taken⟩ | enters
    · exact absurd ((congrFun (moves_listen taken).caller id).trans there) gone
    · obtain ⟨next, moved⟩ := moved_called taken
      by_cases same : id = other
      · subst same
        simp [shuts, always, exiting]
      · rw [moved, Function.update_of_ne same] at gone
        exact absurd there gone
    · rcases enters.caller with same | ⟨other, next, idle, moved, -⟩
      · exact absurd ((congrFun same id).trans there) gone
      · by_cases same : id = other
        · cases (same ▸ idle).symm.trans there
        · rw [moved, Function.update_of_ne same] at gone
          exact absurd there gone

theorem alive_lost {c : ℕ} (wf : WellFormed s) (taken : s.step e = some t) (lives : s.alive c = true)
    (dies : t.alive c = false) : Ends s e t c := by
  cases step_effect wf taken with
  | keeps streamer alive opened lost => exact lost c lives dies
  | connects opening before streamer alive =>
    rw [alive] at dies
    by_cases same : c = s.opened
    · simp [same] at dies
    · rw [Function.update_of_ne same, lives] at dies
      cases dies
  | tears d notClosed before streamer alive opened ends =>
    rw [alive] at dies
    exact lost_update_false lives dies ▸ ends
  | clears id closing returned streamer alive =>
    rw [alive, lives] at dies
    cases dies

theorem alive_opened (wf : WellFormed s) (taken : s.step e = some t) (opens : t.opened ≠ s.opened) :
    t.alive s.opened = true ∧ t.opened = s.opened + 1 ∧
      ((∃ feed, s.listener feed ≠ .idle) ∨ ∃ id, mayOpen (s.caller id) = true) := by
  cases step_effect wf taken with
  | keeps streamer alive opened => exact absurd opened opens
  | connects opening before streamer alive opened =>
    exact ⟨by rw [alive, Function.update_self], opened, opening⟩
  | tears d notClosed before streamer alive opened => exact absurd opened opens
  | clears id closing returned streamer alive opened => exact absurd opened opens

/-- A websocket that is open belongs to a connection in use or to one whose end a task awaits. -/
structure Accounted (p : Sockets) : Prop where
  owned : Owned p.source
  awaited : ∀ task c, p.exiting task = some c → awaitsExit p.source task = true
  used : ∀ c, p.isOpen c = true → p.source.alive c = true ∨ ∃ task, p.exiting task = some c

variable {released : Await → Bool} {p q : Sockets}

theorem awaited_step (taken : p.step released e = some q) (task : OptionsModel.Task) (c : ℕ)
    (exiting : q.exiting task = some c) : awaitsExit q.source task = true := by
  obtain ⟨t, moved, rfl⟩ := Option.map_eq_some_iff.mp taken
  by_contra left
  simp only [Bool.eq_false_of_not_eq_true left, Bool.not_false, if_true] at exiting
  cases exiting

theorem Accounted.used_step (accounted : Accounted p) (always : ∀ answer, released answer = true)
    (taken : p.step released e = some q) (c : ℕ) (stays : q.isOpen c = true) :
    q.source.alive c = true ∨ ∃ task, q.exiting task = some c := by
  obtain ⟨t, moved, rfl⟩ := Option.map_eq_some_iff.mp taken
  have wf := accounted.owned.wf
  by_cases new : t.opened ≠ p.source.opened ∧ c = p.source.opened
  · exact .inl (new.2 ▸ (alive_opened wf moved new.1).1)
  · simp only [if_neg new, Bool.and_eq_true, Bool.not_eq_true'] at stays
    rcases accounted.used c stays.1 with lives | ⟨task, exiting⟩
    · cases dies : t.alive c with
      | true => exact .inl rfl
      | false =>
        rcases alive_lost wf moved lives dies with rfl | ⟨task, before, after, current⟩
        · simp [shuts] at stays
        · exact .inr ⟨task, by simp [before, after, current]⟩
    · have awaited := accounted.awaited task c exiting
      cases still : awaitsExit t task with
      | true => exact .inr ⟨task, by simp [still, awaited, exiting]⟩
      | false => cases stays.2.symm.trans (shuts_of_awaited always exiting awaited moved still)

theorem Accounted.step (accounted : Accounted p) (always : ∀ answer, released answer = true)
    (alone : ClosesAlone p.source e) (taken : p.step released e = some q) : Accounted q where
  owned := by
    obtain ⟨t, moved, rfl⟩ := Option.map_eq_some_iff.mp taken
    exact accounted.owned.step alone moved
  awaited := awaited_step taken
  used := accounted.used_step always taken

theorem accounted_of_run {events : List Event} (always : ∀ answer, released answer = true)
    (alone : Guarded (Sockets.step released) (fun p e => ClosesAlone p.source e) {} events)
    (reached : run (Sockets.step released) {} events = some p) : Accounted p :=
  have start : Accounted {} := ⟨⟨⟨fun _ => trivial, nofun, nofun, nofun, nofun⟩, nofun, nofun, nofun⟩, nofun, nofun⟩
  run_guarded_invariant (fun _ _ _ accounted alone taken => accounted.step always alone taken) start alone reached

theorem Accounted.returned {id : ℕ} (accounted : Accounted p) (always : ∀ answer, released answer = true)
    (running : closes (p.source.caller id) = true) (taken : p.step released e = some q)
    (returned : closes (q.source.caller id) = false) :
    (∀ c, q.isOpen c = false) ∧ q.source.closed = true ∧ ∀ feed, q.source.listener feed = .idle := by
  have used := accounted.used_step always taken
  have awaited := awaited_step taken
  obtain ⟨t, moved, rfl⟩ := Option.map_eq_some_iff.mp taken
  obtain ⟨dead, closed, idle⟩ := accounted.owned.returned running moved returned
  refine ⟨fun c => Bool.eq_false_of_not_eq_true fun stays => ?_, closed, idle⟩
  rcases used c stays with lives | ⟨task, exiting⟩
  · cases (dead c).symm.trans lives
  · have awaits := awaited task c exiting
    cases task with
    | listener feed => cases (idle feed).symm.trans (of_decide_eq_true awaits)
    | caller other =>
      -- only one call closes, and it has returned
      have there : t.caller other = .closing := of_decide_eq_true awaits
      obtain ⟨answer, delivered, rfl, -⟩ := returns_called running moved returned
      have closing : closes (t.caller other) = true := by
        rw [there]
        rfl
      have before := (closes_step moved closing).resolve_right nofun
      obtain rfl := accounted.owned.alone id other running before
      rw [there] at returned
      cases returned

structure Over (since : ℕ) (p : Sockets) : Prop where
  wf : WellFormed p.source
  closed : p.source.closed = true
  idle : ∀ feed, p.source.listener feed = .idle
  later : ∀ c, p.isOpen c = true → since ≤ c
  opened : since ≤ p.source.opened

theorem Over.step {since : ℕ} (done : Over since p) (taken : p.step released e = some q) : Over since q := by
  obtain ⟨t, moved, rfl⟩ := Option.map_eq_some_iff.mp taken
  refine ⟨done.wf.step moved, closed_step moved done.closed, idle_step done.closed done.idle moved,
    fun c stays => ?_, ?_⟩
  · by_cases new : t.opened ≠ p.source.opened ∧ c = p.source.opened
    · exact new.2 ▸ done.opened
    · simp only [if_neg new, Bool.and_eq_true] at stays
      exact done.later c stays.1
  · by_cases opens : t.opened = p.source.opened
    · exact opens ▸ done.opened
    · rw [(alive_opened done.wf moved opens).2.1]
      exact done.opened.trans (Nat.le_succ _)

theorem Over.silent {since : ℕ} (done : Over since p) (silent : ∀ id, mayOpen (p.source.caller id) = false)
    (shut : ∀ c, p.isOpen c = false) (taken : p.step released e = some q) (c : ℕ) : q.isOpen c = false := by
  obtain ⟨t, moved, rfl⟩ := Option.map_eq_some_iff.mp taken
  have same : t.opened = p.source.opened := by
    by_contra opens
    rcases (alive_opened done.wf moved opens).2.2 with ⟨feed, runs⟩ | ⟨id, opens⟩
    · exact absurd (done.idle feed) runs
    · cases (silent id).symm.trans opens
  simp [same, shut]

theorem mayOpen_socket {other : ℕ} (taken : p.step released e = some q)
    (after : mayOpen (q.source.caller other) = true) : mayOpen (p.source.caller other) = true ∨ asks e = true := by
  obtain ⟨t, moved, rfl⟩ := Option.map_eq_some_iff.mp taken
  exact mayOpen_step moved after

/-- No run leaks a connection, and when `close` returns none is left and nobody listens; later on only a call that was
then waiting to open one, or is made after it, can open another. -/
theorem no_connection_leaks (always : ∀ answer, released answer = true) {events : List Event}
    (alone : Guarded (Sockets.step released) (fun p e => ClosesAlone p.source e) {} events)
    (reached : run (Sockets.step released) {} events = some p) :
    (∀ c, p.isOpen c = true → p.source.streamer = some c ∨ ∃ task, p.exiting task = some c) ∧
      ∀ id e q, closes (p.source.caller id) = true → p.step released e = some q →
        closes (q.source.caller id) = false →
        (∀ c, q.isOpen c = false) ∧ ∀ later u, run (Sockets.step released) q later = some u →
          (∀ feed, u.source.listener feed = .idle) ∧ (∀ c, u.isOpen c = true → q.source.opened ≤ c) ∧
            ((∀ id, mayOpen (q.source.caller id) = false) → (∀ e ∈ later, asks e = false) →
              ∀ c, u.isOpen c = false) := by
  have accounted := accounted_of_run always alone reached
  refine ⟨fun c stays => (accounted.used c stays).imp_left (accounted.owned.current c), fun id e q running taken
    returned => ?_⟩
  obtain ⟨shut, closed, idle⟩ := accounted.returned always running taken returned
  have start : Over q.source.opened q := by
    refine ⟨?_, closed, idle, fun c stays => (nomatch (shut c).symm.trans stays), le_rfl⟩
    obtain ⟨t, moved, rfl⟩ := Option.map_eq_some_iff.mp taken
    exact accounted.owned.wf.step moved
  refine ⟨shut, fun later u after => ?_⟩
  have done : Over q.source.opened u := run_invariant (fun _ _ _ done taken => done.step taken) start after
  refine ⟨done.idle, done.later, fun silent quiet => ?_⟩
  have keep (v : Sockets) (b : Event) (w : Sockets)
      (held : Over q.source.opened v ∧ (∀ id, mayOpen (v.source.caller id) = false) ∧ ∀ c, v.isOpen c = false)
      (asksNothing : asks b = false) (taken : v.step released b = some w) :
      Over q.source.opened w ∧ (∀ id, mayOpen (w.source.caller id) = false) ∧ ∀ c, w.isOpen c = false := by
    refine ⟨held.1.step taken, fun id => Bool.eq_false_of_not_eq_true fun opens => ?_,
      held.1.silent held.2.1 held.2.2 taken⟩
    rcases mayOpen_socket taken opens with before | asked
    · cases (held.2.1 id).symm.trans before
    · cases asksNothing.symm.trans asked
  have meets : Guarded (Sockets.step released) (fun _ b => asks b = false) q later :=
    guarded_of_forall (fun b member _ => quiet b member) q
  exact (run_guarded_invariant keep ⟨start, silent, shut⟩ meets after).2.2

def shutDown : List Event :=
  [.authenticate, .subscribe 0 .quote ["SPY"], .resumeCaller 0 .returns false, .resumeCaller 0 .returns false,
    .resumeCaller 0 .returns false, .resumeCaller 0 .returns false, .resumeListener .quote .returns false,
    .close 0, .resumeListener .quote .cancelled false, .resumeCaller 0 .returns false]

/-- The SDK's `__aexit__` closes the websocket before it awaits anything that may fail. -/
theorem no_connection_leaks_shutDown : ∃ p q, run (Sockets.step fun _ => true) {} shutDown = some p ∧
    p.isOpen 0 = true ∧ p.exiting (.caller 0) = some 0 ∧
    p.step (fun _ => true) (.resumeCaller 0 .raises false) = some q ∧ (∀ c, q.isOpen c = false) ∧
      ∀ feed, q.source.listener feed = .idle := by
  have nobody (id : ℕ) :
      closes (((run (Sockets.step fun _ => true) {} (shutDown.take 7)).getD {}).source.caller id) = false := by
    by_cases same : id = 0
    · rw [same]
      rfl
    · have idle : ((run (Sockets.step fun _ => true) {} (shutDown.take 7)).getD {}).source.caller id = .idle := by
        show Function.update (Function.update (Function.update (Function.update (Function.update
          (fun _ => Caller.idle) 0 _) 0 _) 0 _) 0 _) 0 _ id = _
        simp only [Function.update_of_ne same]
      rw [idle]
      rfl
  have rest {s t : Sockets} {e : Event} {events : List Event} (taken : s.step (fun _ => true) e = some t)
      (other : ∀ id, e ≠ .close id)
      (rest : Guarded (Sockets.step fun _ => true) (fun p e => ClosesAlone p.source e) t events) :
      Guarded (Sockets.step fun _ => true) (fun p e => ClosesAlone p.source e) s (e :: events) :=
    .cons (by cases e <;> first | trivial | exact absurd rfl (other _)) taken rest
  have alone : Guarded (Sockets.step fun _ => true) (fun p e => ClosesAlone p.source e) {} shutDown :=
    rest rfl nofun <| rest rfl nofun <| rest rfl nofun <| rest rfl nofun <| rest rfl nofun <| rest rfl nofun <|
      rest rfl nofun <| .cons nobody rfl <| rest rfl nofun <| rest rfl nofun trivial
  obtain ⟨-, ends⟩ := no_connection_leaks (fun _ => rfl) alone rfl
  obtain ⟨shut, after⟩ := ends 0 (.resumeCaller 0 .raises false) _ rfl rfl rfl
  exact ⟨_, _, rfl, rfl, rfl, rfl, shut, (after [] _ rfl).1⟩

end OptionsProof.Connections
