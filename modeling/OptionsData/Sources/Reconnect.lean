import OptionsData.Sources.StreamerLocks

namespace OptionsProof.Reconnect

open Kit OptionsModel OptionsModel.TastyTradeSource

inductive Phase where
  | listening
  /-- `_mark_disconnected` has begun, and `_reconnect` has not looked at the streamer yet. -/
  | reported
  | reconnecting
deriving DecidableEq, Repr

def phase : Listener → Phase
  | .markingDisconnected | .awaitingReconnect => .reported
  | .reconnecting _ => .reconnecting
  | _ => .listening

def Expected (s : TastyTradeSource) : Prop :=
  (∃ feed, phase (s.listener feed) = .reported) → ∃ feed, phase (s.listener feed) = .reconnecting

instance (s : TastyTradeSource) : Decidable (Expected s) := inferInstanceAs (Decidable (_ → _))

/-- What has to be so before the steps that are of consequence to a `_reconnect`. -/
def Orderly (s : TastyTradeSource) : Event → Prop
  | .resumeListener feed answer _ => match s.listener feed with
    | .opening => answer = .returns → Expected s
    | .reconnecting .ensured => s.streamer ≠ none
    | .reconnecting (.resubscribing .greeks connection []) => s.streamer = some connection
    | _ => True
  | .resumeCaller caller answer delivered => match s.caller caller with
    | .opening _ => answer = .returns → Expected s
    | .cleaningUp connection (batch :: _) => s.streamer = some connection →
        answer = .returns ∨ delivered = true → ∀ symbol ∈ batch, symbol ∉ s.tracked .greeks
    | _ => True
  | _ => True

def Spares (feed : Feed) (symbol : String) (s : TastyTradeSource) : Event → Prop
  | .unsubscribe _ symbols => s.streamer = none → symbol ∉ symbols
  | .resumeCaller caller answer delivered => match s.caller caller with
    | .unsubscribing _ _ (batch :: _) _ => feed = .quote → answer = .returns ∨ delivered = true → symbol ∉ batch
    | .unsubscribing _ _ [] (batch :: _) => feed = .greeks → answer = .returns ∨ delivered = true → symbol ∉ batch
    | .unsubscribing _ symbols [] [] => symbol ∉ symbols
    | _ => True
  | _ => True

instance (s : TastyTradeSource) (e : Event) : Decidable (Orderly s e) := by
  unfold Orderly
  repeat' split
  all_goals infer_instance

instance (feed : Feed) (symbol : String) (s : TastyTradeSource) (e : Event) :
    Decidable (Spares feed symbol s e) := by
  unfold Spares
  split <;> try split
  all_goals infer_instance

def Resubscribes (feed : Feed) (symbol : String) (s : TastyTradeSource) : Listener → Prop
  | .reconnecting (.resubscribing kind connection batches) => s.streamer = some connection →
      symbol ∈ s.subscribed connection feed ∨ kind = feed ∧ symbol ∈ batches.flatten ∨ kind = .quote ∧ feed = .greeks
  | _ => True

def Served (feed : Feed) (symbol : String) (s : TastyTradeSource) : Prop :=
  (∃ listener, phase (s.listener listener) = .reconnecting) ∨
    (s.streamer = none ∧ ∃ listener, phase (s.listener listener) = .reported) ∨
      ∃ connection, s.streamer = some connection ∧ symbol ∈ s.subscribed connection feed

structure Recovering (feed : Feed) (symbol : String) (s : TastyTradeSource) : Prop where
  tracked : symbol ∈ s.tracked feed
  resubscribes : s.closed = false → ∀ listener, Resubscribes feed symbol s (s.listener listener)
  served : s.closed = false → Served feed symbol s

variable {feed : Feed} {symbol : String} {s t : TastyTradeSource}

theorem Resubscribes.keep {l : Listener} (resubscribes : Resubscribes feed symbol s l)
    (streamer : t.streamer = s.streamer)
    (kept : ∀ c, s.streamer = some c → symbol ∈ s.subscribed c feed → symbol ∈ t.subscribed c feed) :
    Resubscribes feed symbol t l := by
  unfold Resubscribes at *
  split
  · intro current
    rw [streamer] at current
    exact (resubscribes current).imp_left (kept _ current)
  · trivial

theorem Recovering.frame (rec : Recovering feed symbol s) (closed : t.closed = s.closed)
    (listener : t.listener = s.listener) (streamer : t.streamer = s.streamer) (tracked : symbol ∈ t.tracked feed)
    (kept : ∀ c, s.streamer = some c → symbol ∈ s.subscribed c feed → symbol ∈ t.subscribed c feed) :
    Recovering feed symbol t where
  tracked := tracked
  resubscribes notClosed l := by
    rw [listener]
    exact (rec.resubscribes (closed ▸ notClosed) l).keep streamer kept
  served notClosed := by
    unfold Served
    rw [listener, streamer]
    exact (rec.served (closed ▸ notClosed)).imp_right (Or.imp_right fun ⟨c, current, held⟩ =>
      ⟨c, current, kept c current held⟩)

theorem Recovering.moves {listener : Feed} {next : Listener} (rec : Recovering feed symbol s)
    (moved : t.listener = Function.update s.listener listener next) (closed : t.closed = s.closed)
    (streamer : t.streamer = s.streamer) (tracked : t.tracked = s.tracked)
    (kept : ∀ c, symbol ∈ s.subscribed c feed → symbol ∈ t.subscribed c feed)
    (resubscribes : s.closed = false → Resubscribes feed symbol t next)
    (served : s.closed = false → phase next = phase (s.listener listener) ∨ Served feed symbol t) :
    Recovering feed symbol t where
  tracked := tracked ▸ rec.tracked
  resubscribes notClosed l := by
    rw [moved]
    by_cases same : l = listener
    · subst same
      rw [Function.update_self]
      exact resubscribes (closed ▸ notClosed)
    · rw [Function.update_of_ne same]
      exact (rec.resubscribes (closed ▸ notClosed) l).keep streamer fun c _ => kept c
  served notClosed := by
    rcases served (closed ▸ notClosed) with same | done
    · have phases (l : Feed) : phase (t.listener l) = phase (s.listener l) := by
        rw [moved]
        by_cases alike : l = listener
        · subst alike
          rw [Function.update_self, same]
        · rw [Function.update_of_ne alike]
      unfold Served
      simp only [phases, streamer]
      exact (rec.served (closed ▸ notClosed)).imp_right (Or.imp_right fun ⟨c, current, held⟩ =>
        ⟨c, current, kept c held⟩)
    · exact done

theorem Recovering.setListener {listener : Feed} {next : Listener} (rec : Recovering feed symbol s)
    (resubscribes : s.closed = false → Resubscribes feed symbol (s.setListener listener next) next)
    (served : s.closed = false →
      phase next = phase (s.listener listener) ∨ Served feed symbol (s.setListener listener next)) :
    Recovering feed symbol (s.setListener listener next) :=
  rec.moves rfl rfl rfl rfl (fun _ => id) resubscribes served

theorem Recovering.of_closed (tracked : symbol ∈ t.tracked feed) (closed : t.closed = true) :
    Recovering feed symbol t :=
  ⟨tracked, fun notClosed => absurd (closed.symm.trans notClosed) (by simp),
    fun notClosed => absurd (closed.symm.trans notClosed) (by simp)⟩

theorem Recovering.retry {listener : Feed} {attempt : Attempt} (rec : Recovering feed symbol s)
    (there : s.listener listener = .reconnecting attempt) : Recovering feed symbol (s.retry listener) := by
  unfold TastyTradeSource.retry
  split
  · next closed =>
    exact .of_closed rec.tracked closed
  · exact rec.setListener (fun _ => trivial) fun _ => .inl (by rw [there]; rfl)

theorem Recovering.markDisconnected (rec : Recovering feed symbol s) (listener : Feed) :
    Recovering feed symbol (s.markDisconnected listener) := by
  unfold TastyTradeSource.markDisconnected
  split
  · next closed =>
    exact .of_closed rec.tracked closed
  · split
    · next none =>
      exact rec.setListener (fun _ => trivial) fun _ =>
        .inr (.inr (.inl ⟨none, listener, by simp [phase]⟩))
    · refine ⟨rec.tracked, fun notClosed l => ?_, fun _ => .inr (.inl ⟨rfl, listener, by simp [phase]⟩)⟩
      unfold Resubscribes
      split
      · exact nofun
      · trivial

theorem Recovering.loop {listener : Feed} (rec : Recovering feed symbol s)
    (outside : phase (s.listener listener) = .listening) : Recovering feed symbol (s.loop listener) := by
  unfold TastyTradeSource.loop
  split <;>
    exact rec.setListener (fun _ => trivial) fun _ =>
      .inl outside.symm

theorem update_resubscribing {listener l kind : Feed} {next : Listener} {connection : ℕ}
    {batches : List (List String)} (other : ∀ k c b, next ≠ .reconnecting (.resubscribing k c b))
    (there : Function.update s.listener listener next l = .reconnecting (.resubscribing kind connection batches)) :
    s.listener l = .reconnecting (.resubscribing kind connection batches) := by
  by_cases alike : l = listener
  · subst alike
    rw [Function.update_self] at there
    exact absurd there (other kind connection batches)
  · rwa [Function.update_of_ne alike] at there

theorem Recovering.connect (rec : Recovering feed symbol s) (wf : WellFormed s)
    (before : ∀ l kind c b, t.listener l = .reconnecting (.resubscribing kind c b) →
      s.listener l = .reconnecting (.resubscribing kind c b))
    (closed : t.closed = s.closed) (tracked : t.tracked = s.tracked) (streamer : t.streamer = some s.opened)
    (reconnects : s.closed = false → ∃ l, phase (t.listener l) = .reconnecting) :
    Recovering feed symbol t where
  tracked := tracked ▸ rec.tracked
  resubscribes _ l := by
    unfold Resubscribes
    split
    · next kind c batches there =>
      intro current
      have holds := wf.listeners l
      rw [before l kind c batches there] at holds
      have same := Option.some.inj (streamer.symm.trans current)
      exact absurd same holds.2.ne'
    · trivial
  served notClosed := .inl (reconnects (closed ▸ notClosed))

theorem Recovering.expected (rec : Recovering feed symbol s) (wf : WellFormed s) {task : OptionsModel.Task}
    (held : s.streamerLock = some task) (expected : Expected s) (notClosed : s.closed = false) :
    ∃ l, phase (s.listener l) = .reconnecting := by
  rcases rec.served notClosed with reconnects | ⟨-, reported⟩ | ⟨connection, current, -⟩
  · exact reconnects
  · exact expected reported
  · exact absurd ((wf.noStreamer task held).symm.trans current) (by simp)

theorem Recovering.reconnect {listener : Feed} {answer : Await} {delivered : Bool} {attempt : Attempt}
    (rec : Recovering feed symbol s) (wf : WellFormed s) (there : s.listener listener = .reconnecting attempt)
    (orderly : Orderly s (.resumeListener listener answer delivered))
    (taken : s.stepReconnect listener answer delivered attempt = some t) : Recovering feed symbol t := by
  simp only [Orderly, there] at orderly
  have inside : phase (s.listener listener) = .reconnecting := by rw [there]; rfl
  have resubscribes (notClosed : s.closed = false) := rec.resubscribes notClosed listener
  rw [there] at resubscribes
  have listed : symbol ∈ (chunked (s.tracked feed) SUBSCRIBE_BATCH_SIZE).flatten := by
    rw [flatten_chunked _ (by decide)]
    exact rec.tracked
  unfold stepReconnect at taken
  split at taken
  · cases taken
    exact rec.setListener (fun _ => trivial) fun _ => .inl inside.symm
  · split at taken
    · cases taken
      exact rec.moves rfl rfl rfl rfl (fun _ => id) (fun _ => trivial) fun _ => .inl inside.symm
    · cases taken
      exact rec.retry there
  · obtain ⟨found, ensured, rfl⟩ := Option.map_eq_some_iff.mp taken
    cases found with
    | current =>
      exact rec.setListener (fun _ => trivial) fun _ => .inl inside.symm
    | opens => exact rec.moves rfl rfl rfl rfl (fun _ => id) (fun _ => trivial) fun _ => .inl inside.symm
    | raises => exact rec.retry there
  · split at taken
    · cases taken
      exact rec.connect wf (fun _ _ _ _ => update_resubscribing nofun) rfl rfl rfl fun _ =>
        ⟨listener, by simp [phase]⟩
    · cases taken
      have unlocked : Recovering feed symbol { s with streamerLock := none } :=
        rec.frame rfl rfl rfl rec.tracked fun _ _ => id
      exact unlocked.retry there
  · split at taken
    -- without a streamer `_resubscribe_all` would return at once
    · next none => exact absurd none orderly
    · cases taken
      refine rec.setListener (fun _ _ => ?_) fun _ => .inl inside.symm
      cases feed with
      | quote => exact .inr (.inl ⟨rfl, listed⟩)
      | greeks => exact .inr (.inr ⟨rfl, rfl⟩)
  · cases taken
    refine rec.setListener (fun notClosed current => ?_) fun _ => .inl inside.symm
    rcases resubscribes notClosed current with held | ⟨-, left⟩ | ⟨-, rfl⟩
    · exact .inl held
    · exact absurd left List.not_mem_nil
    · exact .inr (.inl ⟨rfl, listed⟩)
  · next connection =>
    cases taken
    refine rec.moves rfl rfl rfl rfl (fun _ => id) (fun _ => trivial) fun notClosed =>
      .inr (.inr (.inr ⟨connection, orderly, ?_⟩))
    rcases resubscribes notClosed orderly with held | ⟨-, left⟩ | ⟨isQuote, -⟩
    · exact held
    · exact absurd left List.not_mem_nil
    · cases isQuote
  · next kind connection batch batches =>
    obtain ⟨u, sent, rfl⟩ := Option.map_eq_some_iff.mp taken
    obtain ⟨subscribed, rfl, grows, arrives⟩ := subscribeBatch_cases sent
    split
    · next returns =>
      refine rec.moves rfl rfl rfl rfl (fun c held => grows c feed held) (fun notClosed current => ?_) fun _ =>
        .inl inside.symm
      rcases resubscribes notClosed current with held | ⟨rfl, left⟩ | rest
      · exact .inl (grows _ _ held)
      · rcases List.mem_append.mp left with now | later
        · exact .inl (arrives returns symbol now)
        · exact .inr (.inl ⟨rfl, later⟩)
      · exact .inr (.inr rest)
    · have sentOn : Recovering feed symbol { s with subscribed := subscribed } :=
        rec.frame rfl rfl rfl rec.tracked fun c _ held => grows c feed held
      exact sentOn.retry there

theorem reconnecting_elsewhere {listener l : Feed} {next : Listener}
    (elsewhere : phase (s.listener listener) ≠ .reconnecting) (reconnecting : phase (s.listener l) = .reconnecting)
    (moved : t.listener = Function.update s.listener listener next) : phase (t.listener l) = .reconnecting := by
  have other : l ≠ listener := by
    intro same
    subst same
    exact elsewhere reconnecting
  rw [moved, Function.update_of_ne other]
  exact reconnecting

theorem Recovering.listen {listener : Feed} {answer : Await} {delivered : Bool}
    (rec : Recovering feed symbol s) (wf : WellFormed s)
    (orderly : Orderly s (.resumeListener listener answer delivered))
    (taken : s.stepListener listener answer delivered = some t) : Recovering feed symbol t := by
  unfold stepListener at taken
  split at taken
  · split at taken
    · next closed =>
      cases taken
      exact .of_closed rec.tracked closed
    · cases taken
  · split at taken
    · cases taken
    · next ensuring =>
      have outside : phase (s.listener listener) = .listening := by rw [ensuring]; rfl
      obtain ⟨found, ensured, rfl⟩ := Option.map_eq_some_iff.mp taken
      cases found with
      | current =>
        exact rec.setListener (fun _ => trivial) fun _ => .inl outside.symm
      | opens => exact rec.moves rfl rfl rfl rfl (fun _ => id) (fun _ => trivial) fun _ => .inl outside.symm
      | raises => exact rec.markDisconnected listener
    · next opening =>
      simp only [Orderly, opening] at orderly
      have held := wf.listeners listener
      rw [opening] at held
      split at taken
      · next returns =>
        cases taken
        refine rec.connect wf (fun _ _ _ _ => update_resubscribing nofun) rfl rfl rfl fun notClosed => ?_
        obtain ⟨l, reconnecting⟩ := rec.expected wf held (orderly returns) notClosed
        have elsewhere : phase (s.listener listener) ≠ .reconnecting := by simp [opening, phase]
        exact ⟨l, reconnecting_elsewhere elsewhere reconnecting rfl⟩
      · cases taken
        have unlocked : Recovering feed symbol { s with streamerLock := none } :=
          rec.frame rfl rfl rfl rec.tracked fun _ _ => id
        exact unlocked.markDisconnected listener
    · next listening =>
      cases taken
      split
      · exact rec.loop (by rw [listening]; rfl)
      · exact rec.markDisconnected listener
    · next marking =>
      cases taken
      exact rec.setListener (fun _ => trivial) fun _ => .inl (by rw [marking]; rfl)
    · next awaiting =>
      split at taken
      · cases taken
      · split at taken
        · next checked =>
          cases taken
          refine rec.setListener (fun _ => trivial) fun notClosed => .inr ?_
          rcases rec.served notClosed with ⟨l, reconnecting⟩ | ⟨none, -⟩ | served
          · have elsewhere : phase (s.listener listener) ≠ .reconnecting := by simp [awaiting, phase]
            exact .inl ⟨l, reconnecting_elsewhere elsewhere reconnecting rfl⟩
          · rw [none, notClosed] at checked
            simp at checked
          · exact .inr (.inr served)
        · cases taken
          exact rec.moves rfl rfl rfl rfl (fun _ => id) (fun _ => trivial) fun _ =>
            .inr (.inl ⟨listener, by simp [phase]⟩)
    · next attempt there => exact rec.reconnect wf there orderly taken
    · next returned =>
      cases taken
      exact rec.loop (by rw [returned]; rfl)

theorem Recovering.setCaller (rec : Recovering feed symbol s) (caller : ℕ) (next : Caller) :
    Recovering feed symbol (s.setCaller caller next) :=
  rec.frame rfl rfl rfl rec.tracked fun _ _ => id

theorem Recovering.called {caller : ℕ} {answer : Await} {delivered : Bool} (rec : Recovering feed symbol s)
    (wf : WellFormed s) (orderly : Orderly s (.resumeCaller caller answer delivered))
    (spares : Spares feed symbol s (.resumeCaller caller answer delivered))
    (taken : s.stepCaller caller answer delivered = some t) : Recovering feed symbol t := by
  simp only [Orderly] at orderly
  simp only [Spares] at spares
  unfold stepCaller at taken
  split at taken
  · cases taken
  · split at taken
    · cases taken
      exact rec.setCaller caller _
    · obtain ⟨found, ensured, rfl⟩ := Option.map_eq_some_iff.mp taken
      cases found with
      | opens => exact rec.frame rfl rfl rfl rec.tracked fun _ _ => id
      | _ => exact rec.setCaller caller _
  · next opening =>
    rw [opening] at orderly
    split at taken
    · next returns =>
      cases taken
      have inside := rec.expected wf (wf.callers _ _ opening) (orderly returns)
      exact rec.connect wf (fun _ _ _ _ there => there) rfl rfl rfl inside
    · cases taken
      exact rec.frame rfl rfl rfl rec.tracked fun _ _ => id
  · cases taken
    split
    · next idle => exact (rec.loop (by rw [idle]; rfl)).setCaller caller _
    · exact rec.setCaller caller _
  · obtain ⟨u, sent, rfl⟩ := Option.map_eq_some_iff.mp taken
    obtain ⟨subscribed, rfl, grows, -⟩ := subscribeBatch_cases sent
    exact rec.frame rfl rfl rfl rec.tracked fun c _ held => grows c feed held
  · cases taken
    exact rec.setCaller caller _
  · obtain ⟨u, sent, rfl⟩ := Option.map_eq_some_iff.mp taken
    obtain ⟨subscribed, rfl, grows, -⟩ := subscribeBatch_cases sent
    exact rec.frame rfl rfl rfl rec.tracked fun c _ held => grows c feed held
  · cases taken
    exact rec.setCaller caller _
  · cases taken
    exact rec.setCaller caller _
  · next cleaning =>
    rw [cleaning] at orderly
    obtain ⟨u, sent, rfl⟩ := Option.map_eq_some_iff.mp taken
    obtain ⟨subscribed, rfl, kept⟩ := unsubscribeBatch_cases sent
    refine rec.frame rfl rfl rfl rec.tracked fun c current held => kept c feed symbol held ?_
    rintro rfl rfl out member
    exact orderly current out symbol member rec.tracked
  · cases taken
    exact rec.setCaller caller _
  · next unsubscribing =>
    rw [unsubscribing] at spares
    obtain ⟨u, sent, rfl⟩ := Option.map_eq_some_iff.mp taken
    obtain ⟨subscribed, rfl, kept⟩ := unsubscribeBatch_cases sent
    exact rec.frame rfl rfl rfl rec.tracked fun c _ held => kept c feed symbol held fun _ => spares
  · next unsubscribing =>
    rw [unsubscribing] at spares
    obtain ⟨u, sent, rfl⟩ := Option.map_eq_some_iff.mp taken
    obtain ⟨subscribed, rfl, kept⟩ := unsubscribeBatch_cases sent
    exact rec.frame rfl rfl rfl rec.tracked fun c _ held => kept c feed symbol held fun _ => spares
  · next unsubscribing =>
    rw [unsubscribing] at spares
    cases taken
    refine rec.frame rfl rfl rfl ?_ fun _ _ => id
    exact List.mem_filter.mpr ⟨rec.tracked, by simpa using spares⟩
  · split at taken
    · cases taken
    · split at taken
      · cases taken
        exact rec.setCaller caller _
      · cases taken
        exact rec.frame rfl rfl rfl rec.tracked fun _ _ => id
  · next closing =>
    cases taken
    have closed : s.closed = true := wf.closing caller (by rw [closing]; rfl)
    split
    · exact rec.setCaller caller _
    · exact .of_closed rec.tracked closed

theorem Recovering.step {e : Event} (rec : Recovering feed symbol s) (wf : WellFormed s) (orderly : Orderly s e)
    (spares : Spares feed symbol s e) (taken : TastyTradeSource.step s e = some t) : Recovering feed symbol t := by
  cases e with
  | authenticate =>
    cases taken
    exact rec.frame rfl rfl rfl rec.tracked fun _ _ => id
  | subscribe caller other symbols =>
    obtain ⟨-, rfl⟩ := call_cases taken
    refine rec.frame rfl rfl rfl ((mem_setTracked s other feed _ symbol).mpr ?_) fun _ _ => id
    split
    · next same => exact List.mem_append_left _ (same ▸ rec.tracked)
    · exact rec.tracked
  | snapshotGreeks caller symbols =>
    obtain ⟨-, rfl⟩ := call_cases taken
    exact rec.setCaller caller _
  | requestCandles caller =>
    obtain ⟨-, rfl⟩ := call_cases taken
    exact rec.setCaller caller _
  | unsubscribe caller symbols =>
    obtain ⟨-, rfl⟩ := call_cases taken
    split
    · next none =>
      refine rec.frame rfl rfl rfl ?_ fun _ _ => id
      exact List.mem_filter.mpr ⟨rec.tracked, by simpa using spares none⟩
    · exact rec.setCaller caller _
  | close caller =>
    obtain ⟨-, rfl⟩ := call_cases taken
    exact .of_closed rec.tracked rfl
  | drop connection =>
    cases taken
    exact rec.frame rfl rfl rfl rec.tracked fun _ _ => id
  | rehash other order =>
    rw [TastyTradeSource.step] at taken
    split at taken
    · next perm =>
      cases taken
      refine rec.frame rfl rfl rfl ((mem_setTracked s other feed order symbol).mpr ?_) fun _ _ => id
      split
      · next same => exact perm.mem_iff.mpr (same ▸ rec.tracked)
      · exact rec.tracked
    · cases taken
  | resumeListener listener answer delivered => exact rec.listen wf orderly taken
  | resumeCaller caller answer delivered => exact rec.called wf orderly spares taken

theorem markDisconnected_frame (s : TastyTradeSource) (listener : Feed) :
    (s.markDisconnected listener).tracked = s.tracked ∧
      (phase ((s.markDisconnected listener).listener listener) = .reported →
        (s.markDisconnected listener).streamer = none) := by
  unfold TastyTradeSource.markDisconnected
  split
  · exact ⟨rfl, fun reported => by simp [setListener, phase] at reported⟩
  · split
    · next none => exact ⟨rfl, fun _ => none⟩
    · exact ⟨rfl, fun _ => rfl⟩

theorem reports_cases {listener : Feed} {answer : Await} {delivered : Bool}
    (taken : s.stepListener listener answer delivered = some t) (before : phase (s.listener listener) = .listening)
    (after : phase (t.listener listener) = .reported) : t.streamer = none ∧ t.tracked = s.tracked := by
  have other (next : Listener) (outside : phase next = .listening) :
      phase ((s.setListener listener next).listener listener) ≠ .reported := by
    simp [setListener, outside]
  have marked (u : TastyTradeSource) (tracked : u.tracked = s.tracked)
      (after : phase ((u.markDisconnected listener).listener listener) = .reported) :
      (u.markDisconnected listener).streamer = none ∧ (u.markDisconnected listener).tracked = s.tracked := by
    obtain ⟨same, none⟩ := markDisconnected_frame u listener
    exact ⟨none after, same.trans tracked⟩
  unfold stepListener at taken
  split at taken
  · split at taken
    · cases taken
      exact absurd after (other _ rfl)
    · cases taken
  · split at taken
    · cases taken
    · obtain ⟨found, -, rfl⟩ := Option.map_eq_some_iff.mp taken
      cases found with
      | current => exact absurd after (other _ rfl)
      | opens => exact absurd after (other _ rfl)
      | raises => exact marked s rfl after
    · split at taken
      · cases taken
        simp [setListener, phase] at after
      · cases taken
        exact marked _ rfl after
    · cases taken
      split at after
      · unfold TastyTradeSource.loop at after
        split at after <;> exact absurd after (other _ rfl)
      · next failed =>
        rw [if_neg failed]
        exact marked s rfl after
    · next marking => rw [marking] at before; cases before
    · next awaiting => rw [awaiting] at before; cases before
    · next reconnecting => rw [reconnecting] at before; cases before
    · cases taken
      unfold TastyTradeSource.loop at after
      split at after <;> exact absurd after (other _ rfl)

theorem Recovering.of_report {listener : Feed} (tracked : symbol ∈ t.tracked feed) (none : t.streamer = none)
    (reported : phase (t.listener listener) = .reported) : Recovering feed symbol t where
  tracked := tracked
  resubscribes _ l := by
    unfold Resubscribes
    split
    · exact fun current => absurd (none.symm.trans current) (by simp)
    · trivial
  served _ := .inr (.inl ⟨none, listener, reported⟩)

theorem setListener_ne_returned {listener : Feed} {next : Listener} (differs : next ≠ .returned) :
    (s.setListener listener next).listener listener ≠ .returned := by
  simp [setListener, differs]

theorem retry_returned {listener : Feed} (after : (s.retry listener).listener listener = .returned) :
    (s.retry listener).closed = true := by
  unfold TastyTradeSource.retry at after ⊢
  split at after
  · next closed =>
    rw [if_pos closed]
    exact closed
  · exact absurd after (setListener_ne_returned nofun)

theorem markDisconnected_ne_returned (s : TastyTradeSource) (listener : Feed) :
    (s.markDisconnected listener).listener listener ≠ .returned := by
  unfold TastyTradeSource.markDisconnected
  split
  · exact setListener_ne_returned nofun
  · split <;> exact setListener_ne_returned nofun

theorem loop_ne_returned (s : TastyTradeSource) (listener : Feed) :
    (s.loop listener).listener listener ≠ .returned := by
  unfold TastyTradeSource.loop
  split <;> exact setListener_ne_returned nofun

theorem reconnect_returns {listener : Feed} {answer : Await} {delivered : Bool} {attempt : Attempt}
    (taken : s.stepReconnect listener answer delivered attempt = some t)
    (there : s.listener listener = .reconnecting attempt)
    (orderly : Orderly s (.resumeListener listener answer delivered))
    (after : t.listener listener = .returned) (notClosed : t.closed = false) :
    t.reconnectLock = none ∧ t.streamer ≠ none := by
  simp only [Orderly, there] at orderly
  have retried (u : TastyTradeSource) (same : t = u.retry listener) :
      t.reconnectLock = none ∧ t.streamer ≠ none := by
    subst same
    exact absurd ((retry_returned after).symm.trans notClosed) (by simp)
  unfold stepReconnect at taken
  split at taken
  · cases taken
    exact absurd after (setListener_ne_returned nofun)
  · split at taken
    · cases taken
      exact absurd after (setListener_ne_returned nofun)
    · exact retried _ (Option.some.inj taken).symm
  · obtain ⟨found, -, rfl⟩ := Option.map_eq_some_iff.mp taken
    cases found with
    | raises => exact retried _ rfl
    | _ => exact absurd after (setListener_ne_returned nofun)
  · split at taken
    · cases taken
      exact absurd after (setListener_ne_returned nofun)
    · exact retried _ (Option.some.inj taken).symm
  · split at taken
    · next none => exact absurd none orderly
    · cases taken
      exact absurd after (setListener_ne_returned nofun)
  · cases taken
    exact absurd after (setListener_ne_returned nofun)
  · cases taken
    exact ⟨rfl, fun none => absurd (orderly.symm.trans none) (by simp)⟩
  · obtain ⟨u, -, rfl⟩ := Option.map_eq_some_iff.mp taken
    split at after
    · exact absurd after (setListener_ne_returned nofun)
    · next failed => exact retried u (if_neg failed)

theorem returns_cases {listener : Feed} {answer : Await} {delivered : Bool}
    (taken : s.stepListener listener answer delivered = some t)
    (orderly : Orderly s (.resumeListener listener answer delivered)) (before : s.listener listener ≠ .returned)
    (after : t.listener listener = .returned) (notClosed : t.closed = false) :
    t.reconnectLock = none ∧ t.streamer ≠ none := by
  unfold stepListener at taken
  split at taken
  · split at taken
    · cases taken
      exact absurd after (setListener_ne_returned nofun)
    · cases taken
  · split at taken
    · cases taken
    · obtain ⟨found, -, rfl⟩ := Option.map_eq_some_iff.mp taken
      cases found with
      | raises => exact absurd after (markDisconnected_ne_returned s listener)
      | _ => exact absurd after (setListener_ne_returned nofun)
    · split at taken
      · cases taken
        exact absurd after (setListener_ne_returned nofun)
      · cases taken
        exact absurd after (markDisconnected_ne_returned _ listener)
    · cases taken
      split at after
      · exact absurd after (loop_ne_returned s listener)
      · exact absurd after (markDisconnected_ne_returned s listener)
    · cases taken
      exact absurd after (setListener_ne_returned nofun)
    · split at taken
      · cases taken
      · next free =>
        split at taken
        · next checked =>
          cases taken
          refine ⟨Option.not_isSome_iff_eq_none.mp free, fun none => ?_⟩
          have isNone : s.streamer = .none := none
          have isOpen : s.closed = false := notClosed
          simp [isNone, isOpen] at checked
        · cases taken
          exact absurd after (setListener_ne_returned nofun)
    · next attempt there => exact reconnect_returns taken there orderly after notClosed
    · next returned => exact absurd returned before

/-- A drop that a listener reports, up to the return of its `_reconnect`. -/
structure Recovery where
  listener : Feed
  before : List Event
  held : TastyTradeSource
  reached : run step {} before = some held
  report : Await × Bool
  down : TastyTradeSource
  reports : held.stepListener listener report.1 report.2 = some down
  listening : phase (held.listener listener) = .listening
  reported : phase (down.listener listener) = .reported
  during : List Event
  returning : TastyTradeSource
  recovers : run step down during = some returning
  last : Await × Bool
  done : TastyTradeSource
  returns : returning.stepListener listener last.1 last.2 = some done
  inside : returning.listener listener ≠ .returned
  outside : done.listener listener = .returned
  notClosed : done.closed = false

namespace Recovery

def since (r : Recovery) : List Event := r.during ++ [.resumeListener r.listener r.last.1 r.last.2]

/-- Every symbol tracked when the drop was reported and not unsubscribed since is subscribed where it should be. -/
def Serves (r : Recovery) : Prop :=
  ∀ feed, ∀ symbol ∈ r.held.tracked feed, Guarded step (Spares feed symbol) r.down r.since →
    ∃ connection, r.done.streamer = some connection ∧ symbol ∈ r.done.subscribed connection feed

theorem orderly_serves (r : Recovery) (orderly : Guarded step Orderly r.down r.since) : r.Serves := by
  intro feed symbol tracked spared
  obtain ⟨none, same⟩ := reports_cases r.reports r.listening r.reported
  have wf : WellFormed r.down := (wellFormed_of_run r.reached).listen r.reports
  have start : Recovering feed symbol r.down := .of_report (same ▸ tracked) none r.reported
  have both := orderly.and spared
  obtain ⟨earlier, final⟩ := both.append
  have keep (s : TastyTradeSource) (e : Event) (t : TastyTradeSource)
      (kept : WellFormed s ∧ Recovering feed symbol s) (guard : Orderly s e ∧ Spares feed symbol s e)
      (taken : step s e = some t) : WellFormed t ∧ Recovering feed symbol t :=
    ⟨kept.1.step taken, kept.2.step kept.1 guard.1 guard.2 taken⟩
  obtain ⟨wf, rec⟩ := run_guarded_invariant keep ⟨wf, start⟩ earlier r.recovers
  obtain ⟨⟨inOrder, spares⟩, -⟩ := final _ r.recovers
  have wf' := wf.listen r.returns
  obtain ⟨free, streamer⟩ := returns_cases r.returns inOrder r.inside r.outside r.notClosed
  rcases (rec.listen wf inOrder r.returns).served r.notClosed with ⟨l, reconnecting⟩ | ⟨none, -⟩ | served
  · have holds := wf'.listeners l
    unfold phase at reconnecting
    split at reconnecting
    · cases reconnecting
    · cases reconnecting
    · next attempt there =>
      rw [there] at holds
      exact absurd (free.symm.trans holds.reconnectLock) (by simp)
    · cases reconnecting
  · exact absurd none streamer
  · exact served

def steady : TastyTradeSource :=
  (run step {} [Event.authenticate, .subscribe 0 .quote ["SPY"], .resumeCaller 0 .returns false,
    .resumeCaller 0 .returns false, .resumeCaller 0 .returns false, .resumeCaller 0 .returns false,
    .resumeListener .quote .returns false, .drop 0]).get (by decide +kernel)

def raced : Recovery where
  listener := .quote
  before := _
  held := steady
  reached := (Option.some_get _).symm
  report := (.raises, false)
  down := (steady.stepListener .quote .raises false).get (by decide +kernel)
  reports := (Option.some_get _).symm
  listening := by decide +kernel
  reported := by decide +kernel
  during := [Event.requestCandles 1, .resumeCaller 1 .returns false, .resumeCaller 1 .returns false,
    .resumeListener .quote .returns false]
  returning := (run step _ _).get (by decide +kernel)
  recovers := (Option.some_get _).symm
  last := (.returns, false)
  done := (stepListener _ .quote .returns false).get (by decide +kernel)
  returns := (Option.some_get _).symm
  inside := by decide +kernel
  outside := by decide +kernel
  notClosed := by decide +kernel

theorem raced_unserved : ¬ ∀ r : Recovery, r.Serves := by
  intro serves
  obtain ⟨connection, current, subscribed⟩ := serves raced .quote "SPY" (by decide +kernel) (by decide +kernel)
  have second : raced.done.streamer = some 1 := by decide +kernel
  cases current.symm.trans second
  revert subscribed
  decide +kernel

def alone : Recovery where
  listener := .quote
  before := _
  held := steady
  reached := (Option.some_get _).symm
  report := (.raises, false)
  down := (steady.stepListener .quote .raises false).get (by decide +kernel)
  reports := (Option.some_get _).symm
  listening := by decide +kernel
  reported := by decide +kernel
  during := List.replicate 8 (.resumeListener .quote .returns false)
  returning := (run step _ _).get (by decide +kernel)
  recovers := (Option.some_get _).symm
  last := (.returns, false)
  done := (stepListener _ .quote .returns false).get (by decide +kernel)
  returns := (Option.some_get _).symm
  inside := by decide +kernel
  outside := by decide +kernel
  notClosed := by decide +kernel

theorem orderly_serves_alone :
    ∃ connection, alone.done.streamer = some connection ∧ "SPY" ∈ alone.done.subscribed connection .quote :=
  orderly_serves alone (by decide +kernel) .quote "SPY" (by decide +kernel) (by decide +kernel)

end Recovery

end OptionsProof.Reconnect
