import OptionsData.Sources.StreamerLocks

namespace OptionsProof.LateReport

open Kit OptionsModel OptionsModel.TastyTradeSource OptionsProof.Reconnect

def listensOn : Listener → Option ℕ
  | .listening connection => some connection
  | _ => none

/-- Should a listener report now that the connection it listens on has failed, it closes and clears no other. -/
def ReportsOwn (s : TastyTradeSource) : Prop :=
  ∀ feed c delivered t, listensOn (s.listener feed) = some c → s.stepListener feed .raises delivered = some t →
    ∀ d ≠ c, (s.streamer = some d → t.streamer = some d) ∧ t.alive d = s.alive d

def opens (s : TastyTradeSource) : Event → Bool
  | .resumeListener feed .returns _ => s.listener feed = .opening ∨ s.listener feed = .reconnecting .opening
  | .resumeCaller id .returns _ => match s.caller id with
    | .opening _ => true
    | _ => false
  | _ => false

/-- No connection is opened while a listener still waits for the events of an earlier one. -/
def Timely (s : TastyTradeSource) (e : Event) : Prop :=
  opens s e = true → s.closed = false → ∀ feed, listensOn (s.listener feed) = none

instance (s : TastyTradeSource) (e : Event) : Decidable (Timely s e) := inferInstanceAs (Decidable (_ → _))

def failed (s : TastyTradeSource) : Event → Option ℕ
  | .resumeListener feed .raises _ => if s.closed then none else listensOn (s.listener feed)
  | _ => none

def tornDown (s : TastyTradeSource) : Event → Option ℕ
  | .resumeListener feed answer delivered =>
    (s.stepListener feed answer delivered).bind fun t => if t.streamer = none then s.streamer else none
  | _ => none

def failures (events : List Event) : List ℕ := outputs step failed {} events

def teardowns (events : List Event) : List ℕ := outputs step tornDown {} events

variable {s t : TastyTradeSource} {e : Event} {feed : Feed} {answer : Await} {delivered : Bool}

inductive Effect (s : TastyTradeSource) (e : Event) (t : TastyTradeSource) : Prop where
  | closes (closed : t.closed = true)
  | keeps (closed : t.closed = s.closed) (streamer : t.streamer = s.streamer) (opened : t.opened = s.opened)
      (noted : ∀ c, failed s e = some c → s.streamer = none)
      (joins : ∀ feed c, listensOn (t.listener feed) = some c →
        listensOn (s.listener feed) = some c ∨ s.streamer = some c)
  | connects (closed : t.closed = s.closed) (opening : opens s e = true) (before : s.streamer = none)
      (streamer : t.streamer = some s.opened) (opened : t.opened = s.opened + 1) (quiet : failed s e = none)
      (joins : ∀ feed c, listensOn (t.listener feed) = some c →
        listensOn (s.listener feed) = some c ∨ c = s.opened)
  | clears (closed : t.closed = s.closed) (feed : Feed) (c d : ℕ) (listened : listensOn (s.listener feed) = some c)
      (reported : failed s e = some c) (before : s.streamer = some d) (torn : tornDown s e = some d)
      (streamer : t.streamer = none) (opened : t.opened = s.opened)
      (joins : ∀ feed c, listensOn (t.listener feed) = some c → listensOn (s.listener feed) = some c)

theorem joins_update {next : Listener} {other : Feed} {c : ℕ} {allowed : Prop}
    (moved : t.listener = Function.update s.listener feed next) (joins : listensOn next = some c → allowed)
    (listens : listensOn (t.listener other) = some c) : listensOn (s.listener other) = some c ∨ allowed := by
  rw [moved] at listens
  by_cases same : other = feed
  · subst same
    rw [Function.update_self] at listens
    exact .inr (joins listens)
  · rw [Function.update_of_ne same] at listens
    exact .inl listens

theorem Effect.moves {next : Listener}
    (frame : t = { t with
      streamer := s.streamer, closed := s.closed, opened := s.opened
      listener := Function.update s.listener feed next })
    (elsewhere : listensOn next = none) (quiet : failed s e = none) : Effect s e t := by
  rw [frame]
  exact .keeps rfl rfl rfl (fun _ reported => nomatch quiet.symm.trans reported) fun _ _ =>
    joins_update rfl fun listens => nomatch elsewhere.symm.trans listens

theorem Effect.calls
    (frame : t = { t with
      streamer := s.streamer, closed := s.closed, opened := s.opened, listener := s.listener })
    (quiet : failed s e = none) : Effect s e t := by
  rw [frame]
  exact .keeps rfl rfl rfl (fun _ reported => nomatch quiet.symm.trans reported) fun _ _ => .inl

theorem failed_eq_none (elsewhere : listensOn (s.listener feed) = none) :
    failed s (.resumeListener feed answer delivered) = none := by
  cases answer <;> simp [failed, elsewhere]

theorem effect_connect {next : Listener} (wf : WellFormed s) (held : s.streamerLock = some (.listener feed))
    (opening : opens s e = true) (quiet : failed s e = none)
    (joins : ∀ c, listensOn next = some c → c = s.opened) : Effect s e (s.connect.setListener feed next) :=
  .connects rfl opening (wf.noStreamer _ held) rfl rfl quiet fun _ c listens =>
    joins_update rfl (joins c) listens

theorem effect_retry (quiet : failed s e = none) : Effect s e (s.retry feed) := by
  unfold TastyTradeSource.retry
  split
  · next closed => exact .closes closed
  · exact .moves rfl rfl quiet

theorem effect_reconnect {attempt : Attempt} (wf : WellFormed s) (there : s.listener feed = .reconnecting attempt)
    (taken : s.stepReconnect feed answer delivered attempt = some t) :
    Effect s (.resumeListener feed answer delivered) t := by
  have quiet : failed s (.resumeListener feed answer delivered) = none := failed_eq_none (by rw [there]; rfl)
  unfold stepReconnect at taken
  split at taken
  · cases taken
    exact .moves rfl rfl quiet
  · split at taken
    · cases taken
      exact .moves rfl rfl quiet
    · cases taken
      exact effect_retry quiet
  · obtain ⟨found, -, rfl⟩ := Option.map_eq_some_iff.mp taken
    cases found with
    | current => exact .moves rfl rfl quiet
    | opens => exact .moves rfl rfl quiet
    | raises => exact effect_retry quiet
  · have holds := wf.listeners feed
    rw [there] at holds
    split at taken
    · next returns =>
      cases taken
      subst returns
      exact effect_connect wf holds.2 (by simp [opens, there]) quiet nofun
    · cases taken
      unfold TastyTradeSource.retry
      split
      · next closed => exact .closes closed
      · exact .moves rfl rfl quiet
  · split at taken
    · cases taken
      exact .moves rfl rfl quiet
    · cases taken
      exact .moves rfl rfl quiet
  · cases taken
    exact .moves rfl rfl quiet
  · cases taken
    exact .moves rfl rfl quiet
  · obtain ⟨u, sent, rfl⟩ := Option.map_eq_some_iff.mp taken
    obtain ⟨subscribed, rfl, -, -⟩ := subscribeBatch_cases sent
    split
    · exact .moves rfl rfl quiet
    · unfold TastyTradeSource.retry
      split
      · next closed => exact .closes closed
      · exact .moves rfl rfl quiet

theorem effect_nothing (none : s.streamer = none) (lock : Option OptionsModel.Task)
    (quiet : failed s e = .none) : Effect s e ({ s with streamerLock := lock }.markDisconnected feed) := by
  unfold TastyTradeSource.markDisconnected
  split
  · next closed => exact .closes closed
  · split
    · exact .moves rfl rfl quiet
    · next c current => cases none.symm.trans current

theorem effect_report {c : ℕ} (listens : s.listener feed = .listening c) :
    Effect s (.resumeListener feed .raises delivered) (s.markDisconnected feed) := by
  have leaves {next : Listener} (elsewhere : listensOn next = none) (other : Feed) (b : ℕ)
      (joined : listensOn (Function.update s.listener feed next other) = some b) :
      listensOn (s.listener other) = some b := by
    by_cases same : other = feed
    · subst same
      rw [Function.update_self, elsewhere] at joined
      cases joined
    · rwa [Function.update_of_ne same] at joined
  unfold TastyTradeSource.markDisconnected
  split
  · next closed => exact .closes closed
  · next notClosed =>
    have reported : failed s (.resumeListener feed .raises delivered) = some c := by
      simp [failed, notClosed, listens, listensOn]
    cases current : s.streamer with
    | none => exact .keeps rfl rfl rfl (fun _ _ => current) fun other b joined => .inl (leaves rfl other b joined)
    | some d =>
      have torn : tornDown s (.resumeListener feed .raises delivered) = some d := by
        simp [tornDown, stepListener, listens, TastyTradeSource.markDisconnected, notClosed, current]
      exact .clears rfl feed c d (by rw [listens]; rfl) reported current torn rfl rfl (leaves rfl)

theorem effect_loop {other : Feed} (quiet : failed s e = none) : Effect s e (s.loop other) := by
  unfold TastyTradeSource.loop
  split <;> exact .moves rfl rfl quiet

theorem effect_listen (wf : WellFormed s) (taken : s.stepListener feed answer delivered = some t) :
    Effect s (.resumeListener feed answer delivered) t := by
  unfold stepListener at taken
  split at taken
  · split at taken
    · next closed =>
      cases taken
      exact .closes closed
    · cases taken
  · next notCancelled =>
    split at taken
    · cases taken
    · next ensuring =>
      have quiet : failed s (.resumeListener feed answer delivered) = none := failed_eq_none (by rw [ensuring]; rfl)
      obtain ⟨found, ensured, rfl⟩ := Option.map_eq_some_iff.mp taken
      obtain ⟨free, ⟨none, rfl | rfl⟩ | ⟨connection, current, rfl⟩⟩ := ensureStreamer_cases ensured
      · exact .moves rfl rfl quiet
      · exact effect_nothing none s.streamerLock quiet
      · have joins (c : ℕ) (joined : listensOn (.listening connection) = some c) : s.streamer = some c := by
          cases joined
          exact current
        exact .keeps rfl rfl rfl (fun _ reported => nomatch quiet.symm.trans reported) fun _ c =>
          joins_update rfl (joins c)
    · next opening =>
      have quiet : failed s (.resumeListener feed answer delivered) = none := failed_eq_none (by rw [opening]; rfl)
      have held := wf.listeners feed
      rw [opening] at held
      split at taken
      · next returns =>
        cases taken
        subst returns
        exact effect_connect wf held (by simp [opens, opening]) quiet fun c joined => by
          cases joined
          rfl
      · cases taken
        exact effect_nothing (wf.noStreamer _ held) none quiet
    · next c listens =>
      cases taken
      split
      · next returns =>
        subst returns
        exact effect_loop rfl
      · next failing =>
        cases answer with
        | returns => exact absurd rfl failing
        | raises => exact effect_report listens
        | cancelled => exact absurd rfl notCancelled
    · next marking =>
      cases taken
      exact .moves rfl rfl (failed_eq_none (by rw [marking]; rfl))
    · next awaiting =>
      have quiet : failed s (.resumeListener feed answer delivered) = none := failed_eq_none (by rw [awaiting]; rfl)
      split at taken
      · cases taken
      · split at taken
        · cases taken
          exact .moves rfl rfl quiet
        · cases taken
          exact .moves rfl rfl quiet
    · next attempt there => exact effect_reconnect wf there taken
    · next returned =>
      cases taken
      exact effect_loop (failed_eq_none (by rw [returned]; rfl))

theorem effect_called {id : ℕ} (wf : WellFormed s) (taken : s.stepCaller id answer delivered = some t) :
    Effect s (.resumeCaller id answer delivered) t := by
  cases stepCaller_moves taken with
  | plain => exact .calls rfl rfl
  | locks => exact .calls rfl rfl
  | connects request opening returns =>
    subst returns
    exact .connects rfl (by simp [opens, opening]) (wf.noStreamer _ (wf.callers id _ opening)) rfl rfl rfl
      fun _ _ => .inl
  | unlocks => exact .calls rfl rfl
  | starts =>
    unfold TastyTradeSource.loop
    split <;> exact .moves rfl rfl rfl
  | closes => exact .calls rfl rfl
  | clears closing => exact .closes (wf.closing id (by rw [closing]; rfl))

theorem step_effect (wf : WellFormed s) (taken : step s e = some t) : Effect s e t := by
  cases e with
  | authenticate =>
    cases taken
    exact .calls rfl rfl
  | subscribe id other symbols =>
    obtain ⟨-, rfl⟩ := call_cases taken
    exact .calls rfl rfl
  | snapshotGreeks id symbols =>
    obtain ⟨-, rfl⟩ := call_cases taken
    exact .calls rfl rfl
  | requestCandles id =>
    obtain ⟨-, rfl⟩ := call_cases taken
    exact .calls rfl rfl
  | unsubscribe id symbols =>
    obtain ⟨-, rfl⟩ := call_cases taken
    split <;> exact .calls rfl rfl
  | close id =>
    obtain ⟨-, rfl⟩ := call_cases taken
    exact .closes rfl
  | drop connection =>
    cases taken
    exact .calls rfl rfl
  | rehash other order =>
    rw [step] at taken
    split at taken
    · cases taken
      exact .calls rfl rfl
    · cases taken
  | resumeListener feed answer delivered => exact effect_listen wf taken
  | resumeCaller id answer delivered => exact effect_called wf taken

theorem opens_taken (opening : opens s e = true) (taken : step s e = some t) :
    t.streamer = some s.opened ∧ t.closed = s.closed ∧
      ∀ feed c, listensOn (s.listener feed) = some c → listensOn (t.listener feed) = some c := by
  unfold opens at opening
  split at opening
  · next feed delivered =>
    have elsewhere : listensOn (s.listener feed) = none := by
      rcases of_decide_eq_true opening with there | there <;> rw [there] <;> rfl
    have stays {next : Listener} {other : Feed} {c : ℕ} (listens : listensOn (s.listener other) = some c) :
        listensOn (Function.update s.listener feed next other) = some c := by
      have differs : other ≠ feed := by
        intro same
        subst same
        cases elsewhere.symm.trans listens
      rwa [Function.update_of_ne differs]
    rcases of_decide_eq_true opening with there | there
    · simp only [step, stepListener, there, reduceCtorEq, if_false, if_true] at taken
      cases taken
      exact ⟨rfl, rfl, fun _ _ => stays⟩
    · simp only [step, stepListener, stepReconnect, there, reduceCtorEq, if_false, if_true] at taken
      cases taken
      exact ⟨rfl, rfl, fun _ _ => stays⟩
  · next id delivered =>
    split at opening
    · next request there =>
      simp only [step, stepCaller, there, if_true] at taken
      cases taken
      exact ⟨rfl, rfl, fun _ _ listens => listens⟩
    · cases opening
  · cases opening

theorem listensOn_eq_some {l : Listener} {c : ℕ} : listensOn l = some c ↔ l = .listening c := by
  cases l <;> simp [listensOn]

theorem failed_listens {c : ℕ} (reported : failed s e = some c) : ∃ feed, listensOn (s.listener feed) = some c := by
  unfold failed at reported
  split at reported
  · next feed delivered =>
    split at reported
    · cases reported
    · exact ⟨feed, reported⟩
  · cases reported

theorem tornDown_eq_none (taken : step s e = some t) (kept : t.streamer = none → s.streamer = none) :
    tornDown s e = none := by
  unfold tornDown
  split
  · next feed answer delivered =>
    have listened : s.stepListener feed answer delivered = some t := taken
    rw [listened, Option.bind_some]
    split
    · next none => exact kept none
    · rfl
  · rfl

def Bounded (s : TastyTradeSource) : Prop := ∀ feed c, listensOn (s.listener feed) = some c → c < s.opened

theorem Bounded.step (bounded : s.closed = false → Bounded s) (wf : WellFormed s)
    (taken : TastyTradeSource.step s e = some t) (notClosed : t.closed = false) : Bounded t := by
  intro feed c listens
  cases step_effect wf taken with
  | closes closed => cases closed.symm.trans notClosed
  | keeps closed streamer opened noted joins =>
    rw [opened]
    rcases joins feed c listens with before | current
    · exact bounded (closed ▸ notClosed) feed c before
    · exact wf.current c current
  | connects closed opening before streamer opened quiet joins =>
    rw [opened]
    rcases joins feed c listens with before | rfl
    · exact (bounded (closed ▸ notClosed) feed c before).trans (Nat.lt_succ_self _)
    · exact Nat.lt_succ_self _
  | clears closed other b d listened reported before torn streamer opened joins =>
    rw [opened]
    exact bounded (closed ▸ notClosed) feed c (joins feed c listens)

structure Accounted (past : List Event) (s : TastyTradeSource) : Prop where
  connections : s.opened = (teardowns past).length + if s.streamer.isSome then 1 else 0
  once : ∀ c, (teardowns past).count c = if c ∈ failures past then 1 else 0
  current : ∀ c, s.streamer = some c → c ∉ failures past
  older : ∀ c ∈ failures past, c < s.opened
  listening : ∀ feed c, listensOn (s.listener feed) = some c →
    s.streamer = some c ∨ s.streamer = none ∧ c ∈ failures past

variable {past : List Event}

theorem Accounted.next (accounted : Accounted past s) (reached : run step {} past = some s)
    (taken : step s e = some t) (kept : t.streamer = none → s.streamer = none)
    (known : ∀ c, failed s e = some c → c ∈ failures past)
    (connections : t.opened + (if s.streamer.isSome then 1 else 0) = s.opened + if t.streamer.isSome then 1 else 0)
    (current : ∀ c, t.streamer = some c → c ∉ failures past) (grows : s.opened ≤ t.opened)
    (listening : ∀ feed c, listensOn (t.listener feed) = some c →
      t.streamer = some c ∨ t.streamer = none ∧ c ∈ failures past) : Accounted (past ++ [e]) t := by
  have torn : teardowns (past ++ [e]) = teardowns past := by
    rw [teardowns, outputs_concat reached, tornDown_eq_none taken kept]
    exact List.append_nil _
  have same (c : ℕ) : c ∈ failures (past ++ [e]) ↔ c ∈ failures past := by
    rw [failures, outputs_concat reached, List.mem_append, Option.mem_toList]
    exact ⟨fun member => member.elim id fun reported => known c reported, .inl⟩
  have before := accounted.connections
  exact {
    connections := by rw [torn]; omega
    once := fun c => by rw [torn, accounted.once]; simp only [same]
    current := fun c now => by rw [same]; exact current c now
    older := fun c member => (accounted.older c ((same c).mp member)).trans_le grows
    listening := fun feed c listens => by rw [same]; exact listening feed c listens }

theorem Accounted.step (accounted : s.closed = false → Accounted past s) (reached : run step {} past = some s)
    (timely : Timely s e) (taken : step s e = some t) (notClosed : t.closed = false) :
    Accounted (past ++ [e]) t := by
  have wf := wellFormed_of_run reached
  cases step_effect wf taken with
  | closes closed => cases closed.symm.trans notClosed
  | keeps closed streamer opened noted joins =>
    have before := accounted (closed ▸ notClosed)
    have known (c : ℕ) (reported : failed s e = some c) : c ∈ failures past := by
      obtain ⟨feed, listens⟩ := failed_listens reported
      rcases before.listening feed c listens with current | ⟨-, member⟩
      · cases (noted c reported).symm.trans current
      · exact member
    refine before.next reached taken (fun none => streamer ▸ none) known (by rw [streamer, opened])
      (fun c current => before.current c (streamer ▸ current)) opened.ge fun feed c listens => ?_
    rw [streamer]
    rcases joins feed c listens with listened | current
    · exact before.listening feed c listened
    · exact .inl current
  | connects closed opening nothing streamer opened quiet joins =>
    have before := accounted (closed ▸ notClosed)
    have idle := timely opening (closed ▸ notClosed)
    refine before.next reached taken (fun _ => nothing) (fun c reported => nomatch quiet.symm.trans reported)
      (by simp [nothing, streamer, opened]) (fun c current member => ?_) (by omega) fun feed c listens => ?_
    · have older := before.older c member
      have same := Option.some.inj (streamer.symm.trans current)
      omega
    · rcases joins feed c listens with listened | rfl
      · cases (idle feed).symm.trans listened
      · exact .inl streamer
  | clears closed feed c d listened reported current torn streamer opened joins =>
    have before := accounted (closed ▸ notClosed)
    obtain rfl : d = c := by
      rcases before.listening feed c listened with same | ⟨none, -⟩
      · exact Option.some.inj (current.symm.trans same)
      · cases none.symm.trans current
    have fails : failures (past ++ [e]) = failures past ++ [d] := by
      rw [failures, outputs_concat reached, reported]
      rfl
    have tears : teardowns (past ++ [e]) = teardowns past ++ [d] := by
      rw [teardowns, outputs_concat reached, torn]
      rfl
    have fresh := before.current d current
    have count := before.connections
    exact {
      connections := by simp [tears, streamer, opened, count, current]
      once := fun b => by
        rw [tears, fails, List.count_append, before.once]
        by_cases same : b = d
        · subst same
          simp [fresh]
        · simp [same, Ne.symm same]
      current := fun b now => nomatch streamer.symm.trans now
      older := fun b member => by
        rw [opened]
        rw [fails] at member
        rcases List.mem_append.mp member with earlier | last
        · exact before.older b earlier
        · rw [List.mem_singleton.mp last]
          exact wf.current d current
      listening := fun other b listens => by
        refine .inr ⟨streamer, ?_⟩
        rw [fails]
        rcases before.listening other b (joins other b listens) with same | ⟨none, -⟩
        · simp [Option.some.inj (same.symm.trans current)]
        · cases none.symm.trans current }

theorem report_taken {c : ℕ} (listens : listensOn (s.listener feed) = some c) :
    s.stepListener feed .raises delivered = some (s.markDisconnected feed) := by
  simp [stepListener, listensOn_eq_some.mp listens]

theorem reportsOwn_of_closed (closed : s.closed = true) : ReportsOwn s := by
  intro feed c delivered t listens taken d differs
  rw [report_taken listens, TastyTradeSource.markDisconnected, if_pos closed] at taken
  cases taken
  exact ⟨id, rfl⟩

theorem reportsOwn_iff (notClosed : s.closed = false) :
    ReportsOwn s ↔ ∀ feed c d, listensOn (s.listener feed) = some c → s.streamer = some d → d = c := by
  have isOpen : ¬ s.closed = true := by simp [notClosed]
  constructor
  · intro own feed c d listens current
    by_contra differs
    have kept := (own feed c false _ listens (report_taken listens) d differs).1 current
    rw [TastyTradeSource.markDisconnected, if_neg isOpen, current] at kept
    cases kept
  · intro same feed c delivered t listens taken d differs
    rw [report_taken listens, TastyTradeSource.markDisconnected, if_neg isOpen] at taken
    cases current : s.streamer with
    | none =>
      rw [current] at taken
      cases taken
      exact ⟨by simp, rfl⟩
    | some b =>
      obtain rfl := same feed c b listens current
      rw [current] at taken
      cases taken
      exact ⟨fun equal => absurd (Option.some.inj equal).symm differs, Function.update_of_ne differs ..⟩

theorem accounted_of_run {events : List Event} (timely : Guarded step Timely {} events)
    (reached : run step {} events = some s) (notClosed : s.closed = false) : Accounted events s := by
  let holds (past : List Event) (u : TastyTradeSource) : Prop :=
    run step {} past = some u ∧ (u.closed = false → Accounted past u)
  have start : Accounted [] {} := ⟨rfl, fun _ => rfl, nofun, nofun, nofun⟩
  have keep (past : List Event) (u : TastyTradeSource) (e : Event) (t : TastyTradeSource) (before : holds past u)
      (inTime : Timely u e) (taken : step u e = some t) : holds (past ++ [e]) t :=
    ⟨run_concat_some.mpr ⟨u, before.1, taken⟩, .step before.2 before.1 inTime taken⟩
  have all : holds events s := run_guarded_history ⟨rfl, fun _ => start⟩ keep timely reached
  exact all.2 notClosed

theorem bounded_of_run {events : List Event} (reached : run step {} events = some s) (notClosed : s.closed = false) :
    Bounded s := by
  let holds (u : TastyTradeSource) : Prop := WellFormed u ∧ (u.closed = false → Bounded u)
  have keep (u : TastyTradeSource) (e : Event) (t : TastyTradeSource) (before : holds u)
      (taken : step u e = some t) : holds t :=
    ⟨before.1.step taken, .step before.2 before.1 taken⟩
  have start : holds {} := ⟨wellFormed_of_run (run_nil step {}), nofun⟩
  exact (run_invariant keep start reached).2 notClosed

/-- Whenever a listener notices that its connection has failed, it tears down that one: exactly if every connection
was opened in time. -/
theorem reportsOwn_iff_timely {events : List Event} (reached : run step {} events = some s) :
    (∀ past rest u, events = past ++ rest → run step {} past = some u → ReportsOwn u) ↔
      Guarded step Timely {} events := by
  constructor
  · intro own
    apply (guarded_iff_prefixes reached).mpr
    intro past e rest u same before opening notClosed feed
    subst same
    obtain ⟨v, earlier, later⟩ := run_append_some.mp reached
    obtain rfl : v = u := Option.some.inj (earlier.symm.trans before)
    obtain ⟨t, taken, -⟩ := run_cons_some.mp later
    obtain ⟨current, closed, stays⟩ := opens_taken opening taken
    cases listens : listensOn (v.listener feed) with
    | none => rfl
    | some c =>
      have ownAfter := own (past ++ [e]) rest t (by simp) (run_concat_some.mpr ⟨v, before, taken⟩)
      have same := (reportsOwn_iff (closed.trans notClosed)).mp ownAfter feed c _ (stays feed c listens) current
      have older := bounded_of_run before notClosed feed c listens
      omega
  · intro timely past rest u same before
    subst same
    cases closed : u.closed with
    | true => exact reportsOwn_of_closed closed
    | false =>
      have accounted := accounted_of_run timely.append.1 before closed
      apply (reportsOwn_iff closed).mpr
      intro feed c d listens current
      rcases accounted.listening feed c listens with same | ⟨none, -⟩
      · exact Option.some.inj (current.symm.trans same)
      · cases none.symm.trans current

theorem Accounted.replaced {events : List Event} (accounted : Accounted events s) :
    (∀ c ∈ failures events, (teardowns events).count c = 1) ∧ (∀ c ∈ teardowns events, c ∈ failures events) ∧
      s.opened = (failures events).toFinset.card + if s.streamer.isSome then 1 else 0 := by
  have member (c : ℕ) : c ∈ teardowns events ↔ c ∈ failures events := by
    rw [← List.count_pos_iff, accounted.once]
    split <;> simp_all
  have nodup : (teardowns events).Nodup := by
    apply List.nodup_iff_count_le_one.mpr
    intro c
    rw [accounted.once]
    split <;> omega
  have same : (teardowns events).toFinset = (failures events).toFinset := by
    ext c
    rw [List.mem_toFinset, List.mem_toFinset, member]
  refine ⟨fun c fails => ?_, fun c torn => (member c).mp torn, ?_⟩
  · rw [accounted.once, if_pos fails]
  · rw [← same, List.toFinset_card_of_nodup nodup]
    exact accounted.connections

theorem one_reconnect_iff {events : List Event} (reached : run step {} events = some s) :
    ((∀ past rest u, events = past ++ rest → run step {} past = some u → ReportsOwn u) ↔
      Guarded step Timely {} events) ∧
    (Guarded step Timely {} events → s.closed = false →
      (∀ c ∈ failures events, (teardowns events).count c = 1) ∧ (∀ c ∈ teardowns events, c ∈ failures events) ∧
        s.opened = (failures events).toFinset.card + if s.streamer.isSome then 1 else 0) :=
  ⟨reportsOwn_iff_timely reached, fun timely notClosed => (accounted_of_run timely reached notClosed).replaced⟩

def dropped : List Event :=
  [.authenticate, .subscribe 0 .quote ["SPY"], .resumeCaller 0 .returns false, .resumeCaller 0 .returns false,
    .resumeCaller 0 .returns false, .resumeCaller 0 .returns false, .subscribe 1 .greeks ["C450"],
    .resumeCaller 1 .returns false, .resumeCaller 1 .returns false, .resumeCaller 1 .returns false,
    .resumeListener .quote .returns false, .resumeListener .greeks .returns false, .drop 0]

def late : List Event :=
  dropped ++ .resumeListener .quote .raises false :: List.replicate 11 (.resumeListener .quote .returns false)

theorem late_report_tears_down :
    (¬ ∀ events s, run step {} events = some s → ReportsOwn s) ∧
      failures (late ++ [.resumeListener .greeks .raises false]) = [0, 0] ∧
      teardowns (late ++ [.resumeListener .greeks .raises false]) = [0, 1] := by
  refine ⟨fun all => ?_, by decide +kernel, by decide +kernel⟩
  obtain ⟨s, reached⟩ := Option.isSome_iff_exists.mp (by decide +kernel : (run step {} late).isSome)
  have own := all late s reached
  have known : ((run step {} late).map fun u => (u.closed, listensOn (u.listener .greeks), u.streamer)) =
      some (false, some 0, some 1) := by decide +kernel
  rw [reached] at known
  simp only [Option.map_some, Option.some.injEq, Prod.mk.injEq] at known
  obtain ⟨notClosed, listens, current⟩ := known
  cases (reportsOwn_iff notClosed).mp own .greeks 0 1 listens current

def prompt : List Event :=
  dropped ++ .resumeListener .quote .raises false :: .resumeListener .greeks .raises false ::
    List.replicate 10 (.resumeListener .quote .returns false)

theorem one_reconnect_iff_prompt :
    ∃ s, run step {} prompt = some s ∧ ReportsOwn s ∧ (teardowns prompt).count 0 = 1 := by
  obtain ⟨s, reached⟩ := Option.isSome_iff_exists.mp (by decide +kernel : (run step {} prompt).isSome)
  have known : (run step {} prompt).map (fun u => u.closed) = some false := by decide +kernel
  rw [reached] at known
  have timely : Guarded step Timely {} prompt := by decide +kernel
  obtain ⟨own_iff, replaced⟩ := one_reconnect_iff reached
  have own := own_iff.mpr timely prompt [] s (List.append_nil _).symm reached
  exact ⟨s, reached, own, (replaced timely (Option.some.inj known)).1 0 (by decide +kernel)⟩

end OptionsProof.LateReport
