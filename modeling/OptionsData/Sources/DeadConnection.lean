import OptionsData.Sources.Reconnect

namespace OptionsProof.DeadConnection

open Kit OptionsModel OptionsModel.TastyTradeSource OptionsProof.Reconnect

def Usable (s : TastyTradeSource) : Prop := ∀ c ∈ s.streamer, s.alive c = true

structure Begun (feed : Feed) (s : TastyTradeSource) : Prop where
  listener : s.listener feed = .reconnecting .authenticating
  streamer : s.streamer = none
  streamerLock : s.streamerLock = none
  notClosed : s.closed = false

structure Untouched (feed : Feed) (s t : TastyTradeSource) : Prop where
  listener : t.listener feed = s.listener feed
  streamer : t.streamer = s.streamer
  streamerLock : t.streamerLock = s.streamerLock
  closed : t.closed = s.closed
  alive : ∀ c ∈ s.streamer, t.alive c = s.alive c

def ownOrDrop (feed : Feed) : Event → Bool
  | .resumeListener listener _ _ => listener = feed
  | .drop _ => true
  | _ => false

def Alone (feed : Feed) (s : TastyTradeSource) (e : Event) : Prop :=
  phase (s.listener feed) = .reconnecting ∧ (ownOrDrop feed e = true ∨ ∀ t ∈ step s e, Untouched feed s t)

def Lives (s : TastyTradeSource) (e : Event) : Prop := ∀ c ∈ s.streamer, e ≠ .drop c

instance (s : TastyTradeSource) (e : Event) : Decidable (Lives s e) :=
  inferInstanceAs (Decidable (∀ c ∈ s.streamer, e ≠ .drop c))

def atStart : Listener → Bool
  | .reconnecting .backingOff | .reconnecting .authenticating => true
  | _ => false

def works (feed : Feed) : Event := .resumeListener feed .returns false

/-- If everything works from now on, the call returns, and a working streamer is current. -/
def Recovers (feed : Feed) (s : TastyTradeSource) : Prop :=
  ∃ n t c, Guarded step (fun u _ => phase (u.listener feed) = .reconnecting) s (List.replicate n (works feed)) ∧
    run step s (List.replicate n (works feed)) = some t ∧ t.listener feed = .returned ∧ t.streamer = some c ∧
      t.alive c = true

def Place (s : TastyTradeSource) (feed : Feed) : Listener → Prop
  | .reconnecting .opening => s.streamer = none ∧ s.streamerLock = some (.listener feed)
  | .reconnecting .ensured => s.streamerLock = none ∧ s.streamer ≠ none
  | .reconnecting (.resubscribing _ connection _) => s.streamerLock = none ∧ s.streamer = some connection
  | .reconnecting _ => s.streamerLock = none
  | _ => True

structure Within (feed : Feed) (s : TastyTradeSource) : Prop where
  notClosed : s.closed = false
  place : Place s feed (s.listener feed)

variable {feed : Feed} {s t : TastyTradeSource} {e : Event}

theorem Begun.within (begun : Begun feed s) : Within feed s := by
  refine ⟨begun.notClosed, ?_⟩
  rw [begun.listener]
  exact begun.streamerLock

theorem Begun.usable (begun : Begun feed s) : Usable s := by
  intro c current
  rw [begun.streamer] at current
  cases current

theorem Within.of_place {next : Listener} (notClosed : s.closed = false) (moved : s.listener feed = next)
    (place : Place s feed next) : Within feed s := by
  refine ⟨notClosed, ?_⟩
  rw [moved]
  exact place

theorem usable_congr (streamer : t.streamer = s.streamer) (alive : ∀ c ∈ s.streamer, t.alive c = s.alive c) :
    Usable t ↔ Usable s := by
  rw [Usable, streamer]
  exact forall_congr' fun c => imp_congr_right fun current => by rw [alive c current]

theorem kept_of_move {next : Listener} (notClosed : t.closed = false) (moved : t.listener feed = next)
    (place : Place t feed next) (streamer : t.streamer = s.streamer) (alive : t.alive = s.alive) :
    Within feed t ∧ (Usable t ↔ Usable s) :=
  ⟨.of_place notClosed moved place, usable_congr streamer fun c _ => congrFun alive c⟩

theorem kept_of_retry {u : TastyTradeSource} (notClosed : u.closed = false) (free : u.streamerLock = none)
    (streamer : u.streamer = s.streamer) (alive : u.alive = s.alive) :
    Within feed (u.retry feed) ∧ (Usable (u.retry feed) ↔ Usable s) := by
  rw [TastyTradeSource.retry, if_neg (by simp [notClosed])]
  exact kept_of_move notClosed (setListener_self ..) free streamer alive

theorem attempt_kept {answer : Await} {delivered : Bool} {attempt : Attempt} (within : Within feed s)
    (there : s.listener feed = .reconnecting attempt)
    (taken : s.stepReconnect feed answer delivered attempt = some t) : Within feed t ∧ (Usable t ↔ Usable s) := by
  have notClosed := within.notClosed
  have place := within.place
  rw [there] at place
  unfold stepReconnect at taken
  split at taken
  · cases taken
    exact kept_of_move notClosed (setListener_self ..) place rfl rfl
  · split at taken
    · cases taken
      exact kept_of_move notClosed (setListener_self ..) place rfl rfl
    · cases taken
      exact kept_of_retry notClosed place rfl rfl
  · obtain ⟨found, ensured, rfl⟩ := Option.map_eq_some_iff.mp taken
    obtain ⟨free, ⟨none, rfl | rfl⟩ | ⟨connection, current, rfl⟩⟩ := ensureStreamer_cases ensured
    · exact kept_of_move notClosed (setListener_self ..) ⟨none, rfl⟩ rfl rfl
    · exact kept_of_retry notClosed free rfl rfl
    · have found : s.streamer ≠ none := by simp [current]
      exact kept_of_move notClosed (setListener_self ..) ⟨free, found⟩ rfl rfl
  · obtain ⟨none, held⟩ := place
    split at taken
    · cases taken
      have connected : s.connect.streamer ≠ .none := nofun
      have after : Usable (s.connect.setListener feed (.reconnecting .ensured)) := by
        intro c current
        cases current
        exact Function.update_self ..
      have before : Usable s := by
        intro c current
        cases none.symm.trans current
      exact ⟨.of_place notClosed (setListener_self ..) ⟨rfl, connected⟩, iff_of_true after before⟩
    · cases taken
      exact kept_of_retry notClosed rfl rfl rfl
  · split at taken
    · next none => exact absurd none place.2
    · next connection current =>
      cases taken
      exact kept_of_move notClosed (setListener_self ..) ⟨place.1, current⟩ rfl rfl
  · cases taken
    exact kept_of_move notClosed (setListener_self ..) place rfl rfl
  · cases taken
    exact kept_of_move notClosed (setListener_self ..) trivial rfl rfl
  · obtain ⟨u, sent, rfl⟩ := Option.map_eq_some_iff.mp taken
    obtain ⟨subscribed, rfl, -, -⟩ := subscribeBatch_cases sent
    split
    · exact kept_of_move notClosed (setListener_self ..) place rfl rfl
    -- the failed attempt leaves its streamer behind
    · exact kept_of_retry notClosed place.1 rfl rfl

theorem phase_reconnecting {l : Listener} (inside : phase l = .reconnecting) :
    ∃ attempt, l = .reconnecting attempt := by
  unfold phase at inside
  split at inside
  · cases inside
  · cases inside
  · next attempt => exact ⟨attempt, rfl⟩
  · cases inside

theorem usable_drop (s : TastyTradeSource) (connection : ℕ) :
    Usable { s with alive := Function.update s.alive connection false } ↔ Usable s ∧ Lives s (.drop connection) := by
  constructor
  · intro usable
    refine ⟨fun c current => ?_, fun c current same => ?_⟩
    · have alive := usable c current
      by_cases same : c = connection
      · subst same
        simp at alive
      · simpa [same] using alive
    · cases same
      have alive := usable connection current
      simp at alive
  · intro kept c current
    have differs : c ≠ connection := fun same => kept.2 c current (by rw [same])
    have alive := kept.1 c current
    simpa [differs] using alive

theorem untouched_kept (within : Within feed s) (untouched : Untouched feed s t) (still : ∀ c, e ≠ .drop c) :
    Within feed t ∧ (Usable t ↔ Usable s ∧ Lives s e) := by
  have same : Usable t ↔ Usable s := usable_congr untouched.streamer untouched.alive
  have lives : Lives s e := fun c _ => still c
  refine ⟨.of_place (untouched.closed.trans within.notClosed) untouched.listener ?_,
    same.trans (and_iff_left lives).symm⟩
  have place := within.place
  unfold Place at place ⊢
  rw [untouched.streamer, untouched.streamerLock]
  exact place

theorem step_kept (within : Within feed s) (alone : Alone feed s e) (taken : step s e = some t) :
    Within feed t ∧ (Usable t ↔ Usable s ∧ Lives s e) := by
  obtain ⟨inside, apart⟩ := alone
  cases e with
  | drop connection =>
    cases taken
    exact ⟨⟨within.notClosed, within.place⟩, usable_drop s connection⟩
  | resumeListener listener answer delivered =>
    rcases apart with own | untouched
    · obtain rfl := of_decide_eq_true own
      obtain ⟨attempt, there⟩ := phase_reconnecting inside
      have lives : Lives s (.resumeListener listener answer delivered) := by simp [Lives]
      have notCancelled : answer ≠ .cancelled := by
        intro cancelled
        simp [step, stepListener, cancelled, within.notClosed] at taken
      simp only [step, stepListener, if_neg notCancelled, there] at taken
      obtain ⟨next, same⟩ := attempt_kept within there taken
      exact ⟨next, same.trans (and_iff_left lives).symm⟩
    · exact untouched_kept within (untouched t taken) (by simp)
  | _ =>
    rcases apart with own | untouched
    · cases own
    · exact untouched_kept within (untouched t taken) (by simp)

theorem call_kept {events : List Event} (begun : Begun feed s) (alone : Guarded step (Alone feed) s events)
    (reached : run step s events = some t) : Within feed t ∧ (Usable t ↔ Guarded step Lives s events) := by
  have kept := run_guarded_iff (fun _ _ _ => step_kept) begun.within alone reached
  exact ⟨kept.1, kept.2.trans (and_iff_right begun.usable)⟩

theorem Recovers.step (inside : phase (s.listener feed) = .reconnecting)
    (taken : TastyTradeSource.step s (works feed) = some t) (later : Recovers feed t) : Recovers feed s := by
  obtain ⟨n, u, c, going, reached, returned⟩ := later
  refine ⟨n + 1, u, c, ⟨inside, fun v same => ?_⟩, run_cons_some.mpr ⟨t, taken, reached⟩, returned⟩
  obtain rfl : v = t := Option.some.inj (same.symm.trans taken)
  exact going

theorem recovers_of_returned {c : ℕ} (returned : s.listener feed = .returned) (current : s.streamer = some c)
    (alive : s.alive c = true) : Recovers feed s :=
  ⟨0, s, c, trivial, rfl, returned, current, alive⟩

theorem works_taken {attempt : Attempt} (there : s.listener feed = .reconnecting attempt) :
    step s (works feed) = s.stepReconnect feed .returns false attempt := by
  simp [works, step, stepListener, there]

theorem recovers_of_batches {kind : Feed} {c : ℕ} {batches : List (List String)}
    (done : ∀ u : TastyTradeSource, u.listener feed = .reconnecting (.resubscribing kind c []) → u.streamer = some c →
      u.alive c = true → Recovers feed u)
    (there : s.listener feed = .reconnecting (.resubscribing kind c batches)) (current : s.streamer = some c)
    (alive : s.alive c = true) : Recovers feed s := by
  induction batches generalizing s with
  | nil => exact done s there current alive
  | cons batch batches ih =>
    have inside : phase (s.listener feed) = .reconnecting := by rw [there]; rfl
    have sent := works_taken there
    simp only [stepReconnect, subscribeBatch, send, alive, if_true, Option.map_some, true_or] at sent
    exact .step inside sent (ih (setListener_self ..) current alive)

theorem recovers_of_ensured {c : ℕ} (there : s.listener feed = .reconnecting .ensured) (current : s.streamer = some c)
    (alive : s.alive c = true) : Recovers feed s := by
  have inside {u : TastyTradeSource} {attempt : Attempt} (there : u.listener feed = .reconnecting attempt) :
      phase (u.listener feed) = .reconnecting := by rw [there]; rfl
  have greeksDone (u : TastyTradeSource) (there : u.listener feed = .reconnecting (.resubscribing .greeks c []))
      (current : u.streamer = some c) (alive : u.alive c = true) : Recovers feed u :=
    .step (inside there) (works_taken there) (recovers_of_returned (setListener_self ..) current alive)
  have quotesDone (u : TastyTradeSource) (there : u.listener feed = .reconnecting (.resubscribing .quote c []))
      (current : u.streamer = some c) (alive : u.alive c = true) : Recovers feed u :=
    .step (inside there) (works_taken there) (recovers_of_batches greeksDone (setListener_self ..) current alive)
  have sent := works_taken there
  simp only [stepReconnect, current] at sent
  exact .step (inside there) sent (recovers_of_batches quotesDone (setListener_self ..) current alive)

theorem recovers_of_ensuring (there : s.listener feed = .reconnecting .ensuring) (free : s.streamerLock = none)
    (session : s.session = true) (usable : Usable s) : Recovers feed s := by
  have inside : phase (s.listener feed) = .reconnecting := by rw [there]; rfl
  have ensured := works_taken there
  cases current : s.streamer with
  | some c =>
    simp only [stepReconnect, ensureStreamer, free, current, Option.map_some] at ensured
    exact .step inside ensured (recovers_of_ensured (setListener_self ..) current (usable c current))
  | none =>
    simp only [stepReconnect, ensureStreamer, free, current, session, if_true, Option.map_some] at ensured
    refine .step inside ensured ?_
    let waiting : TastyTradeSource :=
      { s.setListener feed (.reconnecting .opening) with streamerLock := some (.listener feed) }
    have opening : waiting.listener feed = .reconnecting .opening := setListener_self ..
    have alive : waiting.connect.alive s.opened = true := Function.update_self ..
    refine .step (by rw [opening]; rfl) (works_taken opening) ?_
    exact recovers_of_ensured (setListener_self ..) rfl alive

theorem recovers_of_usable (within : Within feed s) (starts : atStart (s.listener feed) = true) (usable : Usable s) :
    Recovers feed s := by
  have authenticated (u : TastyTradeSource) (there : u.listener feed = .reconnecting .authenticating)
      (free : u.streamerLock = none) (usable : Usable u) : Recovers feed u := by
    refine .step (by rw [there]; rfl) (works_taken there) ?_
    exact recovers_of_ensuring (setListener_self ..) free rfl usable
  have place := within.place
  unfold atStart at starts
  split at starts
  · next waiting =>
    rw [waiting] at place
    refine .step (by rw [waiting]; rfl) (works_taken waiting) ?_
    exact authenticated _ (setListener_self ..) place usable
  · next there =>
    rw [there] at place
    exact authenticated s there place usable
  · cases starts

theorem alone_of_own {events : List Event}
    (inside : Guarded step (fun u _ => phase (u.listener feed) = .reconnecting) s events)
    (own : ∀ e ∈ events, ownOrDrop feed e = true) : Guarded step (Alone feed) s events :=
  inside.imp fun _ e member here => ⟨here, .inl (own e member)⟩

theorem usable_of_recovers (within : Within feed s) (recovers : Recovers feed s) : Usable s := by
  obtain ⟨n, t, c, going, reached, -, current, alive⟩ := recovers
  have alone : Guarded step (Alone feed) s (List.replicate n (works feed)) := by
    apply alone_of_own going
    intro e member
    rw [List.eq_of_mem_replicate member]
    exact decide_eq_true rfl
  have kept := run_guarded_iff (fun _ _ _ => step_kept) within alone reached
  have usable : Usable t := by
    intro d same
    obtain rfl : c = d := Option.some.inj (current.symm.trans same)
    exact alive
  exact (kept.2.mp usable).1

/-- After any attempts of one call: the next one succeeds exactly if no connection died that an attempt had opened. -/
theorem reconnect_recovers_iff {events : List Event} (begun : Begun feed s)
    (alone : Guarded step (Alone feed) s events) (reached : run step s events = some t)
    (starts : atStart (t.listener feed) = true) : Recovers feed t ↔ Guarded step Lives s events := by
  obtain ⟨within, usable_iff⟩ := call_kept begun alone reached
  rw [← usable_iff]
  exact ⟨usable_of_recovers within, recovers_of_usable within starts⟩

def reconnects : TastyTradeSource :=
  (run step {} [.authenticate, .subscribe 0 .quote ["SPY"], .resumeCaller 0 .returns false,
    .resumeCaller 0 .returns false, .resumeCaller 0 .returns false, .resumeCaller 0 .returns false,
    works .quote, .drop 0, .resumeListener .quote .raises false, works .quote, works .quote]).get (by decide +kernel)

theorem reconnects_begun : Begun .quote reconnects :=
  ⟨by decide +kernel, by decide +kernel, by decide +kernel, by decide +kernel⟩

def diesResubscribing : List Event :=
  [works .quote, works .quote, works .quote, works .quote, .drop 1, .resumeListener .quote .raises false]

theorem dead_connection_stuck :
    ¬ ∀ feed s t events, Begun feed s → Guarded step (Alone feed) s events → run step s events = some t →
      atStart (t.listener feed) = true → Recovers feed t := by
  intro all
  have going : (run step reconnects diesResubscribing).isSome := by decide +kernel
  obtain ⟨t, reached⟩ := Option.isSome_iff_exists.mp going
  have inside : Guarded step (fun u _ => phase (u.listener .quote) = .reconnecting) reconnects diesResubscribing := by
    decide +kernel
  have alone := alone_of_own inside (by decide)
  have known : (run step reconnects diesResubscribing).map (fun u => atStart (u.listener .quote)) = some true := by
    decide +kernel
  rw [reached] at known
  have recovers := all .quote reconnects t diesResubscribing reconnects_begun alone reached (Option.some.inj known)
  obtain ⟨within, usable_iff⟩ := call_kept reconnects_begun alone reached
  have lives := usable_iff.mp (usable_of_recovers within recovers)
  revert lives
  decide +kernel

theorem reconnect_recovers_iff_refused :
    ∃ t, run step reconnects [.resumeListener .quote .raises false] = some t ∧ Recovers .quote t := by
  have going : (run step reconnects [.resumeListener .quote .raises false]).isSome := by decide +kernel
  obtain ⟨t, reached⟩ := Option.isSome_iff_exists.mp going
  have known : (run step reconnects [.resumeListener .quote .raises false]).map
      (fun u => atStart (u.listener .quote)) = some true := by decide +kernel
  rw [reached] at known
  have inside : Guarded step (fun u _ => phase (u.listener .quote) = .reconnecting) reconnects
      [.resumeListener .quote .raises false] := by decide +kernel
  have alone := alone_of_own inside (by decide)
  have lives : Guarded step Lives reconnects [.resumeListener .quote .raises false] := by decide +kernel
  exact ⟨t, reached, (reconnect_recovers_iff reconnects_begun alone reached (Option.some.inj known)).mpr lives⟩

end OptionsProof.DeadConnection
