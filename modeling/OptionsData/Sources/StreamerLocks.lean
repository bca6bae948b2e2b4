import OptionsData.Sources.TastyTradeSource

namespace OptionsProof.Reconnect

open Kit OptionsModel OptionsModel.TastyTradeSource

@[simp] theorem setListener_self (s : TastyTradeSource) (feed : Feed) (listener : Listener) :
    (s.setListener feed listener).listener feed = listener :=
  Function.update_self ..

theorem mem_setTracked (s : TastyTradeSource) (feed kind : Feed) (order : List String) (symbol : String) :
    symbol ∈ (s.setTracked feed order).tracked kind ↔
      if kind = feed then symbol ∈ order else symbol ∈ s.tracked kind := by
  show symbol ∈ Function.update s.tracked feed order kind ↔ _
  by_cases same : kind = feed
  · subst same
    rw [Function.update_self, if_pos rfl]
  · rw [Function.update_of_ne same, if_neg same]

theorem send_cases {s t : TastyTradeSource} {change : Finset String → Finset String} {connection : ℕ} {feed : Feed}
    {answer : Await} {delivered : Bool} (sent : s.send change connection feed answer delivered = some t) :
    t = s ∧ answer ≠ .returns ∨ (answer = .returns ∨ delivered = true) ∧ t = { s with
      subscribed := Function.update s.subscribed connection
        (Function.update (s.subscribed connection) feed (change (s.subscribed connection feed))) } := by
  unfold send at sent
  split at sent
  · dsimp only at sent
    cases sent
    split
    · next out => exact .inr ⟨out, rfl⟩
    · next kept => exact .inl ⟨rfl, fun returns => kept (.inl returns)⟩
  · split at sent
    · cases sent
    · next raises =>
      cases sent
      exact .inl ⟨rfl, raises⟩

theorem update_subscribed (subscribed : ℕ → Feed → Finset String) (connection : ℕ) (feed : Feed)
    (symbols : Finset String) (c : ℕ) (f : Feed) :
    Function.update subscribed connection (Function.update (subscribed connection) feed symbols) c f =
      if c = connection ∧ f = feed then symbols else subscribed c f := by
  by_cases same : c = connection
  · subst same
    by_cases alike : f = feed
    · simp [alike]
    · simp [alike]
  · simp [same]

theorem subscribeBatch_cases {s t : TastyTradeSource} {connection : ℕ} {feed : Feed} {batch : List String}
    {answer : Await} {delivered : Bool} (sent : s.subscribeBatch connection feed batch answer delivered = some t) :
    ∃ subscribed, t = { s with subscribed := subscribed } ∧ (∀ c f, s.subscribed c f ⊆ subscribed c f) ∧
      (answer = .returns → ∀ symbol ∈ batch, symbol ∈ subscribed connection feed) := by
  rcases send_cases sent with ⟨rfl, raises⟩ | ⟨-, rfl⟩
  · exact ⟨_, rfl, fun _ _ => subset_rfl, fun returns => absurd returns raises⟩
  · refine ⟨_, rfl, fun c f => ?_, fun _ symbol member => ?_⟩
    · rw [update_subscribed]
      split
      · next same =>
        rcases same with ⟨rfl, rfl⟩
        exact Finset.subset_union_left
      · exact subset_rfl
    · rw [update_subscribed, if_pos ⟨rfl, rfl⟩]
      exact Finset.mem_union_right _ (List.mem_toFinset.mpr member)

theorem unsubscribeBatch_cases {s t : TastyTradeSource} {connection : ℕ} {feed : Feed} {batch : List String}
    {answer : Await} {delivered : Bool} (sent : s.unsubscribeBatch connection feed batch answer delivered = some t) :
    ∃ subscribed, t = { s with subscribed := subscribed } ∧ ∀ c f, ∀ symbol ∈ s.subscribed c f,
      (c = connection → f = feed → answer = .returns ∨ delivered = true → symbol ∉ batch) →
        symbol ∈ subscribed c f := by
  rcases send_cases sent with ⟨rfl, -⟩ | ⟨out, rfl⟩
  · exact ⟨_, rfl, fun _ _ _ member _ => member⟩
  · refine ⟨_, rfl, fun c f symbol member spared => ?_⟩
    rw [update_subscribed]
    split
    · next same =>
      rcases same with ⟨rfl, rfl⟩
      exact Finset.mem_sdiff.mpr ⟨member, fun gone => spared rfl rfl out (List.mem_toFinset.mp gone)⟩
    · exact member

def Holds (s : TastyTradeSource) (feed : Feed) : Listener → Prop
  | .opening => s.streamerLock = some (.listener feed)
  | .reconnecting .opening => s.reconnectLock = some feed ∧ s.streamerLock = some (.listener feed)
  | .reconnecting (.resubscribing _ connection _) => s.reconnectLock = some feed ∧ connection < s.opened
  | .reconnecting _ => s.reconnectLock = some feed
  | _ => True

def closes : Caller → Bool
  | .cancelling | .closing => true
  | _ => false

structure WellFormed (s : TastyTradeSource) : Prop where
  listeners : ∀ feed, Holds s feed (s.listener feed)
  callers : ∀ id request, s.caller id = .opening request → s.streamerLock = some (.caller id)
  noStreamer : ∀ task, s.streamerLock = some task → s.streamer = none
  current : ∀ connection, s.streamer = some connection → connection < s.opened
  closing : ∀ caller, closes (s.caller caller) → s.closed = true

theorem Holds.reconnectLock {s : TastyTradeSource} {feed : Feed} {attempt : Attempt}
    (holds : Holds s feed (.reconnecting attempt)) : s.reconnectLock = some feed := by
  cases attempt with
  | opening => exact holds.1
  | resubscribing => exact holds.1
  | _ => exact holds

theorem Holds.keep {s t : TastyTradeSource} {feed : Feed} {listener : Listener} (holds : Holds s feed listener)
    (reconnectLock : s.reconnectLock = some feed → t.reconnectLock = some feed)
    (streamerLock : s.streamerLock = some (.listener feed) → t.streamerLock = some (.listener feed))
    (opened : s.opened ≤ t.opened) : Holds t feed listener := by
  cases listener with
  | opening => exact streamerLock holds
  | reconnecting attempt =>
    cases attempt with
    | opening => exact ⟨reconnectLock holds.1, streamerLock holds.2⟩
    | resubscribing => exact ⟨reconnectLock holds.1, holds.2.trans_le opened⟩
    | _ => exact reconnectLock holds
  | _ => trivial

theorem WellFormed.moves {s t : TastyTradeSource} {feed : Feed} {next : Listener} (wf : WellFormed s)
    (moved : t.listener = Function.update s.listener feed next) (callers : t.caller = s.caller)
    (closed : t.closed = s.closed) (holds : Holds t feed next)
    (reconnectLock : ∀ other ≠ feed, s.reconnectLock = some other → t.reconnectLock = some other)
    (streamerLock : ∀ task ≠ .listener feed, s.streamerLock = some task → t.streamerLock = some task)
    (noStreamer : ∀ task, t.streamerLock = some task → t.streamer = none)
    (current : ∀ connection, t.streamer = some connection → connection < t.opened) (opened : s.opened ≤ t.opened) :
    WellFormed t where
  listeners other := by
    rw [moved]
    by_cases same : other = feed
    · subst same
      rw [Function.update_self]
      exact holds
    · rw [Function.update_of_ne same]
      exact (wf.listeners other).keep (reconnectLock other same)
        (streamerLock _ fun equal => same (by cases equal; rfl)) opened
  callers caller request opening := streamerLock _ (fun equal => nomatch equal)
    (wf.callers caller request (callers ▸ opening))
  noStreamer := noStreamer
  current := current
  closing caller closes := by
    rw [callers] at closes
    exact closed.trans (wf.closing caller closes)

theorem WellFormed.calls {s t : TastyTradeSource} {caller : ℕ} {next : Caller} (wf : WellFormed s)
    (moved : t.caller = Function.update s.caller caller next) (listeners : t.listener = s.listener)
    (reconnectLock : t.reconnectLock = s.reconnectLock) (closed : s.closed = true → t.closed = true)
    (closing : closes next → t.closed = true)
    (holds : ∀ request, next = .opening request → t.streamerLock = some (.caller caller))
    (streamerLock : ∀ task ≠ .caller caller, s.streamerLock = some task → t.streamerLock = some task)
    (noStreamer : ∀ task, t.streamerLock = some task → t.streamer = none)
    (current : ∀ connection, t.streamer = some connection → connection < t.opened) (opened : s.opened ≤ t.opened) :
    WellFormed t where
  listeners feed := by
    rw [listeners]
    exact (wf.listeners feed).keep (fun held => reconnectLock.trans held)
      (streamerLock _ fun equal => nomatch equal) opened
  callers other request opening := by
    rw [moved] at opening
    by_cases same : other = caller
    · subst same
      rw [Function.update_self] at opening
      exact holds request opening
    · rw [Function.update_of_ne same] at opening
      exact streamerLock _ (fun equal => same (by cases equal; rfl)) (wf.callers other request opening)
  noStreamer := noStreamer
  current := current
  closing other := by
    rw [moved]
    by_cases same : other = caller
    · subst same
      rw [Function.update_self]
      exact closing
    · rw [Function.update_of_ne same]
      exact fun closes => closed (wf.closing other closes)

theorem only_holder {τ : Type} {lock after : Option τ} {holder : τ} (held : lock = some holder) (other : τ)
    (differs : other ≠ holder) (taken : lock = some other) : after = some other :=
  absurd (Option.some.inj (taken.symm.trans held)) differs

theorem not_held {τ : Type} {lock after : Option τ} {holder : τ} (free : lock = none) (other : τ)
    (_ : other ≠ holder) (taken : lock = some other) : after = some other :=
  absurd (free.symm.trans taken) nofun

theorem WellFormed.setListener {s : TastyTradeSource} {feed : Feed} {next : Listener} (wf : WellFormed s)
    (holds : Holds s feed next) : WellFormed (s.setListener feed next) :=
  wf.moves (t := s.setListener feed next) rfl rfl rfl (holds.keep id id le_rfl) (fun _ _ => id) (fun _ _ => id)
    wf.noStreamer wf.current le_rfl

theorem WellFormed.setCaller {s : TastyTradeSource} {caller : ℕ} {next : Caller} (wf : WellFormed s)
    (notOpening : ∀ request, next ≠ .opening request) (notClosing : closes next = false) :
    WellFormed (s.setCaller caller next) :=
  wf.calls (t := s.setCaller caller next) rfl rfl rfl id
    (fun closes => absurd (notClosing.symm.trans closes) Bool.false_ne_true)
    (fun request opens => absurd opens (notOpening request)) (fun _ _ => id) wf.noStreamer wf.current le_rfl

theorem WellFormed.subscribed {s : TastyTradeSource} (wf : WellFormed s) (subscribed : ℕ → Feed → Finset String) :
    WellFormed { s with subscribed := subscribed } :=
  ⟨wf.listeners, wf.callers, wf.noStreamer, wf.current, wf.closing⟩

theorem current_connect (s : TastyTradeSource) (connection : ℕ) (current : s.connect.streamer = some connection) :
    connection < s.connect.opened := by
  cases current
  exact Nat.lt_succ_self _

theorem WellFormed.connectListener {s : TastyTradeSource} {feed : Feed} {next : Listener} (wf : WellFormed s)
    (held : s.streamerLock = some (.listener feed)) (holds : Holds s.connect feed next) :
    WellFormed (s.connect.setListener feed next) :=
  wf.moves (t := s.connect.setListener feed next) rfl rfl rfl (holds.keep id id le_rfl) (fun _ _ => id)
    (only_holder held) (fun _ taken => nomatch taken) (current_connect s) (Nat.le_succ _)

theorem WellFormed.markDisconnected {s : TastyTradeSource} (wf : WellFormed s) (feed : Feed) :
    WellFormed (s.markDisconnected feed) := by
  unfold TastyTradeSource.markDisconnected
  split
  · exact wf.setListener trivial
  · split
    · exact wf.setListener trivial
    · exact wf.moves rfl rfl rfl trivial (fun _ _ => id) (fun _ _ => id) (fun _ _ => rfl)
        (fun _ none => nomatch none) le_rfl

theorem WellFormed.retry {s : TastyTradeSource} {feed : Feed} (wf : WellFormed s)
    (held : s.reconnectLock = some feed) : WellFormed (s.retry feed) := by
  unfold TastyTradeSource.retry
  split
  · exact wf.moves rfl rfl rfl trivial
      (only_holder held) (fun _ _ => id) wf.noStreamer wf.current le_rfl
  · exact wf.setListener held

theorem WellFormed.unlock {s : TastyTradeSource} {feed : Feed} (wf : WellFormed s)
    (held : s.streamerLock = some (.listener feed)) :
    WellFormed { s.setListener feed .idle with streamerLock := none } :=
  wf.moves rfl rfl rfl trivial (fun _ _ => id)
    (only_holder held) (fun _ taken => nomatch taken) wf.current le_rfl

theorem retry_setListener (s : TastyTradeSource) (feed : Feed) (listener : Listener) :
    (s.setListener feed listener).retry feed = s.retry feed := by
  simp [TastyTradeSource.retry, TastyTradeSource.setListener]

theorem markDisconnected_setListener (s : TastyTradeSource) (feed : Feed) (listener : Listener) :
    (s.setListener feed listener).markDisconnected feed = s.markDisconnected feed := by
  simp [TastyTradeSource.markDisconnected, TastyTradeSource.setListener]

theorem ensureStreamer_cases {s : TastyTradeSource} {found : Found} (ensured : s.ensureStreamer = some found) :
    s.streamerLock = none ∧
      (s.streamer = none ∧ (found = .opens ∨ found = .raises) ∨
        ∃ connection, s.streamer = some connection ∧ found = .current connection) := by
  unfold ensureStreamer at ensured
  split at ensured
  · cases ensured
  · next connection free current =>
    cases ensured
    exact ⟨free, .inr ⟨connection, current, rfl⟩⟩
  · next free none =>
    cases ensured
    refine ⟨free, .inl ⟨none, ?_⟩⟩
    split
    · exact .inl rfl
    · exact .inr rfl

theorem WellFormed.reconnect {s t : TastyTradeSource} {feed : Feed} {answer : Await} {delivered : Bool}
    {attempt : Attempt} (wf : WellFormed s) (there : s.listener feed = .reconnecting attempt)
    (taken : s.stepReconnect feed answer delivered attempt = some t) : WellFormed t := by
  have holds := wf.listeners feed
  rw [there] at holds
  have held := holds.reconnectLock
  have returned : WellFormed { s.setListener feed .returned with reconnectLock := none } :=
    wf.moves rfl rfl rfl trivial (only_holder held) (fun _ _ => id) wf.noStreamer wf.current le_rfl
  unfold stepReconnect at taken
  split at taken
  · cases taken
    exact wf.setListener held
  · split at taken
    · cases taken
      exact wf.moves rfl rfl rfl held (fun _ _ => id) (fun _ _ => id) wf.noStreamer wf.current le_rfl
    · cases taken
      exact wf.retry held
  · obtain ⟨found, ensured, rfl⟩ := Option.map_eq_some_iff.mp taken
    obtain ⟨free, ⟨none, rfl | rfl⟩ | ⟨connection, current, rfl⟩⟩ := ensureStreamer_cases ensured
    · exact wf.moves rfl rfl rfl ⟨held, rfl⟩ (fun _ _ => id)
        (not_held free) (fun _ _ => none) wf.current le_rfl
    · exact wf.retry held
    · exact wf.setListener held
  · split at taken
    · cases taken
      exact wf.connectListener holds.2 held
    · cases taken
      rw [← retry_setListener _ feed .idle]
      exact (wf.unlock holds.2).retry held
  · split at taken
    · cases taken
      exact returned
    · next connection current =>
      cases taken
      exact wf.setListener ⟨held, wf.current connection current⟩
  · cases taken
    exact wf.setListener holds
  · cases taken
    exact returned
  · obtain ⟨u, sent, rfl⟩ := Option.map_eq_some_iff.mp taken
    obtain ⟨subscribed, rfl, -, -⟩ := subscribeBatch_cases sent
    split
    · exact (wf.subscribed subscribed).setListener holds
    · exact (wf.subscribed subscribed).retry held

theorem WellFormed.loop {s : TastyTradeSource} (wf : WellFormed s) (feed : Feed) : WellFormed (s.loop feed) := by
  unfold TastyTradeSource.loop
  split <;> exact wf.setListener trivial

theorem WellFormed.listen {s t : TastyTradeSource} {feed : Feed} {answer : Await} {delivered : Bool}
    (wf : WellFormed s) (taken : s.stepListener feed answer delivered = some t) : WellFormed t := by
  unfold stepListener at taken
  split at taken
  · split at taken
    · cases taken
      refine wf.moves rfl rfl rfl trivial (fun other differs taken => ?_) (fun task differs taken => ?_)
        (fun task taken => ?_) wf.current le_rfl
      · exact (if_neg fun held => differs (Option.some.inj (taken.symm.trans held))).trans taken
      · exact (if_neg fun held => differs (Option.some.inj (taken.symm.trans held))).trans taken
      · dsimp only at taken
        split at taken
        · cases taken
        · exact wf.noStreamer task taken
    · cases taken
  · split at taken
    · cases taken
    · obtain ⟨found, ensured, rfl⟩ := Option.map_eq_some_iff.mp taken
      obtain ⟨free, ⟨none, rfl | rfl⟩ | ⟨connection, current, rfl⟩⟩ := ensureStreamer_cases ensured
      · exact wf.moves rfl rfl rfl rfl (fun _ _ => id)
          (not_held free) (fun _ _ => none) wf.current le_rfl
      · exact wf.markDisconnected feed
      · exact wf.setListener trivial
    · next opening =>
      have held : s.streamerLock = some (.listener feed) := by
        have holds := wf.listeners feed
        rw [opening] at holds
        exact holds
      split at taken
      · cases taken
        exact wf.connectListener held trivial
      · cases taken
        rw [← markDisconnected_setListener _ feed .idle]
        exact (wf.unlock held).markDisconnected feed
    · cases taken
      split
      · exact wf.loop feed
      · exact wf.markDisconnected feed
    · cases taken
      exact wf.setListener trivial
    · split at taken
      · cases taken
      · next unlocked =>
        split at taken
        · cases taken
          exact wf.setListener trivial
        · cases taken
          refine wf.moves rfl rfl rfl rfl (fun _ _ taken => absurd ?_ unlocked) (fun _ _ => id) wf.noStreamer
            wf.current le_rfl
          simp [taken]
    · next attempt there => exact wf.reconnect there taken
    · cases taken
      exact wf.loop feed

theorem goOn_ne_opening (connection : ℕ) (request other : Request) :
    Request.goOn connection request ≠ .opening other := by
  cases request <;> simp [Request.goOn]

theorem goOn_not_closes (connection : ℕ) (request : Request) : closes (Request.goOn connection request) = false := by
  cases request <;> rfl

inductive CallerMoves (s : TastyTradeSource) (caller : ℕ) (answer : Await) : TastyTradeSource → Prop where
  | plain (tracked : Feed → List String) (subscribed : ℕ → Feed → Finset String) (next : Caller)
      (notOpening : ∀ request, next ≠ .opening request) (notClosing : closes next = false) :
      CallerMoves s caller answer ({ s with tracked := tracked, subscribed := subscribed }.setCaller caller next)
  | locks (request : Request) (free : s.streamerLock = none) (nothing : s.streamer = none) :
      CallerMoves s caller answer
        { s.setCaller caller (.opening request) with streamerLock := some (.caller caller) }
  | connects (request : Request) (opening : s.caller caller = .opening request) (returns : answer = .returns) :
      CallerMoves s caller answer (s.connect.setCaller caller (Request.goOn s.opened request))
  | unlocks (request : Request) (opening : s.caller caller = .opening request) :
      CallerMoves s caller answer { s.setCaller caller .idle with streamerLock := none }
  | starts (feed : Feed) (idle : s.listener feed = .idle) :
      CallerMoves s caller answer ((s.loop feed).setCaller caller .idle)
  | closes (connection : ℕ) (cancelling : s.caller caller = .cancelling) (current : s.streamer = some connection) :
      CallerMoves s caller answer
        { s.setCaller caller .closing with alive := Function.update s.alive connection false }
  | clears (closing : s.caller caller = .closing) :
      CallerMoves s caller answer { s.setCaller caller .idle with streamer := none }

theorem CallerMoves.moves {s t : TastyTradeSource} {caller : ℕ} {answer : Await} (next : Caller)
    (notOpening : ∀ request, next ≠ .opening request) (notClosing : OptionsProof.Reconnect.closes next = false)
    (moved : t = s.setCaller caller next) : CallerMoves s caller answer t :=
  moved ▸ .plain s.tracked s.subscribed next notOpening notClosing

theorem CallerMoves.sent {s t : TastyTradeSource} {caller connection : ℕ} {answer : Await} {delivered : Bool}
    {feed : Feed} {change : Finset String → Finset String} {next : Caller}
    (taken : (s.send change connection feed answer delivered).map (fun u => u.setCaller caller next) = some t)
    (notOpening : ∀ request, next ≠ .opening request) (notClosing : OptionsProof.Reconnect.closes next = false) :
    CallerMoves s caller answer t := by
  obtain ⟨u, sent, rfl⟩ := Option.map_eq_some_iff.mp taken
  rcases send_cases sent with ⟨rfl, -⟩ | ⟨-, rfl⟩
  · exact .plain u.tracked u.subscribed next notOpening notClosing
  · exact .plain s.tracked _ next notOpening notClosing

theorem stepCaller_moves {s t : TastyTradeSource} {caller : ℕ} {answer : Await} {delivered : Bool}
    (taken : s.stepCaller caller answer delivered = some t) : CallerMoves s caller answer t := by
  unfold stepCaller at taken
  split at taken
  · cases taken
  · split at taken
    · cases taken
      exact .moves .idle nofun rfl rfl
    · obtain ⟨found, ensured, rfl⟩ := Option.map_eq_some_iff.mp taken
      obtain ⟨free, ⟨none, rfl | rfl⟩ | ⟨connection, current, rfl⟩⟩ := ensureStreamer_cases ensured
      · exact .locks _ free none
      · exact .moves .idle nofun rfl rfl
      · exact .moves _ (goOn_ne_opening connection _) (goOn_not_closes connection _) rfl
  · next request opening =>
    split at taken
    · next returns =>
      cases taken
      exact .connects request opening returns
    · cases taken
      exact .unlocks request opening
  · cases taken
    split
    · next idle => exact .starts _ idle
    · exact .moves .idle nofun rfl rfl
  · exact .sent taken (by split <;> nofun) (by split <;> rfl)
  · cases taken
    exact .moves (.collecting _ _) nofun rfl rfl
  · exact .sent taken (by split <;> nofun) (by split <;> rfl)
  · cases taken
    exact .moves (.cleaningUp _ _) nofun rfl rfl
  · cases taken
    exact .moves .idle nofun rfl rfl
  · exact .sent taken (by split <;> nofun) (by split <;> rfl)
  · cases taken
    exact .moves .idle nofun rfl rfl
  · exact .sent taken (by split <;> nofun) (by split <;> rfl)
  · exact .sent taken (by split <;> nofun) (by split <;> rfl)
  · cases taken
    exact .plain _ s.subscribed .idle nofun rfl
  · next cancelling =>
    split at taken
    · cases taken
    · split at taken
      · cases taken
        exact .moves .idle nofun rfl rfl
      · next connection current =>
        cases taken
        exact .closes connection cancelling current
  · next closing =>
    cases taken
    split
    · exact .moves .idle nofun rfl rfl
    · exact .clears closing

theorem WellFormed.called {s t : TastyTradeSource} {caller : ℕ} {answer : Await} {delivered : Bool}
    (wf : WellFormed s) (taken : s.stepCaller caller answer delivered = some t) : WellFormed t := by
  cases stepCaller_moves taken with
  | plain tracked subscribed next notOpening notClosing =>
    exact wf.calls rfl rfl rfl id (fun closes => absurd (notClosing.symm.trans closes) Bool.false_ne_true)
      (fun request opens => absurd opens (notOpening request)) (fun _ _ => id) wf.noStreamer wf.current le_rfl
  | locks request free nothing =>
    exact wf.calls rfl rfl rfl id nofun (fun _ _ => rfl) (not_held free) (fun _ _ => nothing) wf.current le_rfl
  | connects request opening returns =>
    have held := wf.callers caller request opening
    exact wf.calls (t := s.connect.setCaller caller _) rfl rfl rfl id (by simp [goOn_not_closes])
      (fun other opens => absurd opens (goOn_ne_opening _ _ _))
      (only_holder held) (fun _ taken => nomatch taken) (current_connect s) (Nat.le_succ _)
  | unlocks request opening =>
    have held := wf.callers caller request opening
    exact wf.calls rfl rfl rfl id nofun nofun
      (only_holder held) (fun _ taken => nomatch taken) wf.current le_rfl
  | starts feed idle => exact (wf.loop feed).setCaller nofun rfl
  | closes connection cancelling =>
    exact wf.calls rfl rfl rfl id (fun _ => wf.closing caller (by rw [cancelling]; rfl)) nofun (fun _ _ => id)
      wf.noStreamer wf.current le_rfl
  | clears closing =>
    exact wf.calls rfl rfl rfl id nofun nofun (fun _ _ => id) (fun _ _ => rfl)
      (fun _ current => nomatch current) le_rfl

theorem call_cases {s t begun : TastyTradeSource} {caller : ℕ} (taken : s.call caller begun = some t) :
    s.caller caller = .idle ∧ t = begun := by
  unfold TastyTradeSource.call at taken
  split at taken
  · next idle =>
    cases taken
    exact ⟨idle, rfl⟩
  · cases taken

theorem WellFormed.step {s t : TastyTradeSource} {e : Event} (wf : WellFormed s)
    (taken : TastyTradeSource.step s e = some t) : WellFormed t := by
  cases e with
  | authenticate =>
    cases taken
    exact ⟨wf.listeners, wf.callers, wf.noStreamer, wf.current, wf.closing⟩
  | subscribe caller feed symbols =>
    obtain ⟨-, rfl⟩ := call_cases taken
    exact wf.calls rfl rfl rfl id nofun nofun (fun _ _ => id) wf.noStreamer wf.current le_rfl
  | snapshotGreeks caller symbols =>
    obtain ⟨-, rfl⟩ := call_cases taken
    exact wf.setCaller nofun rfl
  | requestCandles caller =>
    obtain ⟨-, rfl⟩ := call_cases taken
    exact wf.setCaller nofun rfl
  | unsubscribe caller symbols =>
    obtain ⟨-, rfl⟩ := call_cases taken
    split
    · exact ⟨wf.listeners, wf.callers, wf.noStreamer, wf.current, wf.closing⟩
    · exact wf.setCaller nofun rfl
  | close caller =>
    obtain ⟨-, rfl⟩ := call_cases taken
    exact wf.calls rfl rfl rfl (fun _ => rfl) (fun _ => rfl) nofun (fun _ _ => id) wf.noStreamer wf.current le_rfl
  | drop connection =>
    cases taken
    exact ⟨wf.listeners, wf.callers, wf.noStreamer, wf.current, wf.closing⟩
  | rehash feed order =>
    rw [TastyTradeSource.step] at taken
    split at taken
    · cases taken
      exact ⟨wf.listeners, wf.callers, wf.noStreamer, wf.current, wf.closing⟩
    · cases taken
  | resumeListener feed answer delivered => exact wf.listen taken
  | resumeCaller caller answer delivered => exact wf.called taken

theorem wellFormed_of_run {events : List Event} {s : TastyTradeSource} (reached : run step {} events = some s) :
    WellFormed s :=
  have start : WellFormed {} := ⟨fun _ => trivial, nofun, nofun, nofun, nofun⟩
  run_invariant (fun _ _ _ wf taken => wf.step taken) start reached

end OptionsProof.Reconnect
