import OptionsData.Sources.StreamerLocks

namespace OptionsProof.SequentialCalls

open Kit OptionsModel OptionsModel.TastyTradeSource OptionsProof.Reconnect

/-- What happens when one task makes its calls one after another on a connection that stays up. -/
def Sequential : Event → Prop
  | .subscribe caller _ _ | .unsubscribe caller _ => caller = 0
  | .resumeCaller caller answer _ => caller = 0 ∧ answer ≠ .cancelled
  | .resumeListener _ answer _ => answer = .returns
  | .rehash _ _ => True
  | _ => False

structure Connected (s : TastyTradeSource) (connection : ℕ) : Prop where
  streamer : s.streamer = some connection
  unlocked : s.streamerLock = none
  alive : s.alive connection = true
  untracked : ∀ feed, s.tracked feed = []
  noCall : s.caller 0 = .idle
  noListener : ∀ feed, s.listener feed = .idle

/-- The symbols of the call in progress, and those that a call which raised has tracked and not subscribed. -/
structure Ledger where
  asked : List String := []
  unsent : Feed → Finset String := fun _ => ∅

def record (s : TastyTradeSource) (ledger : Ledger) : Event → Ledger
  | .subscribe _ _ symbols => { ledger with asked := symbols }
  | .resumeCaller _ answer delivered => match s.caller 0 with
    | .subscribing feed connection (batch :: batches) =>
      let subscribed := s.subscribed connection feed ∪ if delivered then batch.toFinset else ∅
      if answer = .raises then { ledger with
        unsent := Function.update ledger.unsent feed
          (ledger.unsent feed ∪ ((batch :: batches).flatten.toFinset \ subscribed)) } else ledger
    | .unsubscribing _ symbols [] [] => { ledger with unsent := fun feed => ledger.unsent feed \ symbols.toFinset }
    | _ => ledger
  | _ => ledger

def returning (s : TastyTradeSource) : Event → Option Feed
  | .resumeCaller _ _ _ => match s.caller 0 with
    | .subscribing feed _ [] => some feed
    | _ => none
  | _ => none

def Subscribes (connection : ℕ) (u : TastyTradeSource × Ledger) (e : Event) : Prop :=
  ∀ feed ∈ returning u.1 e, ∀ symbol ∈ u.2.asked, symbol ∈ u.1.subscribed connection feed

def AsksNoUnsent (u : TastyTradeSource × Ledger) (e : Event) : Prop :=
  ∀ feed ∈ returning u.1 e, ∀ symbol ∈ u.2.asked, symbol ∉ u.2.unsent feed

def pending (feed : Feed) : Caller → List String
  | .ensuring (.subscribe kind newSymbols) => if kind = feed then newSymbols else []
  | .subscribing kind _ batches => if kind = feed then batches.flatten else []
  | .unsubscribing _ symbols _ _ => symbols
  | _ => []

def Sends (s : TastyTradeSource) (ledger : Ledger) (feed : Feed) (symbols : List String) : Prop :=
  (∀ symbol ∈ ledger.asked, symbol ∈ s.tracked feed) ∧
    ∀ symbol ∈ symbols, symbol ∈ s.tracked feed ∧ symbol ∉ ledger.unsent feed

def Underway (connection : ℕ) (s : TastyTradeSource) (ledger : Ledger) : Caller → Prop
  | .idle => True
  | .ensuring (.subscribe feed newSymbols) => Sends s ledger feed newSymbols
  | .subscribing feed current batches => current = connection ∧ Sends s ledger feed batches.flatten
  | .unsubscribing current symbols quotes greeks =>
    current = connection ∧ ∀ symbol ∈ quotes.flatten ++ greeks.flatten, symbol ∈ symbols
  | _ => False

def Quiet : Listener → Prop
  | .idle | .ensuring | .listening _ => True
  | _ => False

structure Accounted (connection : ℕ) (s : TastyTradeSource) (ledger : Ledger) : Prop where
  streamer : s.streamer = some connection
  unlocked : s.streamerLock = none
  alive : s.alive connection = true
  quiet : ∀ feed, Quiet (s.listener feed)
  underway : Underway connection s ledger (s.caller 0)
  unsent : ∀ feed, ∀ symbol ∈ ledger.unsent feed, symbol ∈ s.tracked feed
  balance : ∀ feed, ∀ symbol ∈ s.tracked feed, symbol ∉ pending feed (s.caller 0) →
    (symbol ∈ s.subscribed connection feed ↔ symbol ∉ ledger.unsent feed)

variable {connection : ℕ} {s t : TastyTradeSource} {ledger : Ledger}

theorem Connected.accounted (connected : Connected s connection) : Accounted connection s {} where
  streamer := connected.streamer
  unlocked := connected.unlocked
  alive := connected.alive
  quiet feed := by
    rw [connected.noListener]
    trivial
  underway := by
    rw [connected.noCall]
    trivial
  unsent _ _ member := absurd member (Finset.notMem_empty _)
  balance feed symbol tracked _ := by
    rw [connected.untracked] at tracked
    cases tracked

theorem Accounted.here {caller : Caller} (acc : Accounted connection s ledger) (there : s.caller 0 = caller) :
    Underway connection s ledger caller ∧ ∀ feed, ∀ symbol ∈ s.tracked feed, symbol ∉ pending feed caller →
      (symbol ∈ s.subscribed connection feed ↔ symbol ∉ ledger.unsent feed) := by
  subst there
  exact ⟨acc.underway, acc.balance⟩

theorem Accounted.ensures (acc : Accounted connection s ledger) : s.ensureStreamer = some (.current connection) := by
  rw [ensureStreamer, acc.unlocked, acc.streamer]

theorem Accounted.of_listener {feed : Feed} {next : Listener} (acc : Accounted connection s ledger)
    (quiet : Quiet next) : Accounted connection (s.setListener feed next) ledger where
  streamer := acc.streamer
  unlocked := acc.unlocked
  alive := acc.alive
  quiet other := by
    show Quiet (Function.update s.listener feed next other)
    by_cases same : other = feed
    · subst same
      rwa [Function.update_self]
    · rw [Function.update_of_ne same]
      exact acc.quiet other
  underway := by
    have underway := acc.underway
    unfold Underway at *
    exact underway
  unsent := acc.unsent
  balance := acc.balance

theorem Accounted.loop (acc : Accounted connection s ledger) (feed : Feed) :
    Accounted connection (s.loop feed) ledger := by
  rw [TastyTradeSource.loop]
  split
  · exact acc.of_listener trivial
  · exact acc.of_listener trivial

theorem Accounted.listen {feed : Feed} {delivered : Bool} (acc : Accounted connection s ledger)
    (taken : s.stepListener feed .returns delivered = some t) : Accounted connection t ledger := by
  have quiet := acc.quiet feed
  unfold stepListener at taken
  rw [if_neg (by simp)] at taken
  split at taken
  case h_2 =>
    rw [acc.ensures] at taken
    cases taken
    exact acc.of_listener trivial
  case h_4 =>
    cases taken
    exact acc.loop feed
  all_goals simp_all [Quiet]

theorem Accounted.called {next : Caller} {asked : List String} {unsent : Feed → Finset String}
    {tracked : Feed → List String} {subscribed : ℕ → Feed → Finset String} (acc : Accounted connection s ledger)
    (frame : t = { s with caller := Function.update s.caller 0 next, tracked := tracked, subscribed := subscribed })
    (underway : Underway connection t ⟨asked, unsent⟩ next)
    (within : ∀ feed, ∀ symbol ∈ unsent feed, symbol ∈ tracked feed)
    (balance : ∀ feed, ∀ symbol ∈ tracked feed, symbol ∉ pending feed next →
      (symbol ∈ subscribed connection feed ↔ symbol ∉ unsent feed)) :
    Accounted connection t ⟨asked, unsent⟩ := by
  have now : t.caller 0 = next := by
    subst frame
    exact Function.update_self (f := s.caller) 0 next
  subst frame
  exact {
    streamer := acc.streamer
    unlocked := acc.unlocked
    alive := acc.alive
    quiet := acc.quiet
    underway := now.symm ▸ underway
    unsent := within
    balance := now.symm ▸ balance }

theorem send_alive (change : Finset String → Finset String) (feed : Feed) (answer : Await) (delivered : Bool)
    (alive : s.alive connection = true) :
    ∃ subscribed, s.send change connection feed answer delivered = some { s with subscribed := subscribed } ∧
      ∀ other, subscribed connection other =
        if other = feed ∧ (answer = .returns ∨ delivered = true) then change (s.subscribed connection feed)
        else s.subscribed connection other := by
  rw [send, if_pos alive]
  by_cases out : answer = .returns ∨ delivered = true
  · simp only [if_pos out]
    refine ⟨_, rfl, fun other => ?_⟩
    rw [update_subscribed]
    simp only [true_and, out, and_true]
  · exact ⟨s.subscribed, by simp only [if_neg out], fun other => by rw [if_neg fun both => out both.2]⟩

theorem Accounted.ensured {request : Request} (acc : Accounted connection s ledger)
    (there : s.caller 0 = .ensuring request) :
    Accounted connection (s.setCaller 0 (Request.goOn connection request)) ledger := by
  obtain ⟨underway, balance⟩ := acc.here there
  cases request with
  | subscribe feed newSymbols =>
    have same : (chunked newSymbols SUBSCRIBE_BATCH_SIZE).flatten = newSymbols := flatten_chunked _ (by decide)
    apply acc.called rfl
    · exact ⟨rfl, same.symm ▸ underway⟩
    · exact acc.unsent
    · simp only [pending, Request.goOn, same] at balance ⊢
      exact balance
  | snapshotGreeks symbols => exact underway.elim
  | requestCandles => exact underway.elim

theorem Accounted.returned {feed : Feed} {current : ℕ} (acc : Accounted connection s ledger)
    (there : s.caller 0 = .subscribing feed current []) : Accounted connection (s.setCaller 0 .idle) ledger := by
  have balance := (acc.here there).2
  apply acc.called rfl
  · trivial
  · exact acc.unsent
  · simp only [pending, List.flatten_nil, ite_self] at balance ⊢
    exact balance

theorem Accounted.sent {feed : Feed} {current : ℕ} {batch : List String} {batches : List (List String)}
    {delivered : Bool} (acc : Accounted connection s ledger)
    (there : s.caller 0 = .subscribing feed current (batch :: batches))
    (taken : s.stepCaller 0 .returns delivered = some t) : Accounted connection t ledger := by
  obtain ⟨⟨rfl, asked, sends⟩, balance⟩ := acc.here there
  obtain ⟨subscribed, sent, changed⟩ := send_alive (· ∪ batch.toFinset) feed .returns delivered acc.alive
  simp only [stepCaller, there, subscribeBatch, sent, Option.map_some, Option.some.injEq, if_true] at taken
  apply acc.called taken.symm
  · rw [← taken]
    exact ⟨rfl, asked, fun symbol member => sends symbol (List.mem_append_right batch member)⟩
  · exact acc.unsent
  · intro kind symbol tracked settled
    show symbol ∈ subscribed current kind ↔ _
    rw [changed kind]
    by_cases same : kind = feed
    · subst same
      rw [if_pos ⟨rfl, .inl rfl⟩, Finset.mem_union, List.mem_toFinset]
      by_cases now : symbol ∈ batch
      · have spared := (sends symbol (List.mem_append_left _ now)).2
        simp only [now, or_true, spared, not_false_eq_true]
      · rw [or_iff_left now]
        exact balance kind symbol tracked (by simpa [pending, now] using settled)
    · rw [if_neg fun both => same both.1]
      exact balance kind symbol tracked (by simp [pending, Ne.symm same])

theorem Accounted.failed {feed : Feed} {current : ℕ} {batch : List String} {batches : List (List String)}
    {delivered : Bool} (acc : Accounted connection s ledger)
    (there : s.caller 0 = .subscribing feed current (batch :: batches))
    (taken : s.stepCaller 0 .raises delivered = some t) :
    Accounted connection t (record s ledger (.resumeCaller 0 .raises delivered)) := by
  obtain ⟨⟨rfl, -, sends⟩, balance⟩ := acc.here there
  obtain ⟨subscribed, sent, changed⟩ := send_alive (· ∪ batch.toFinset) feed .raises delivered acc.alive
  simp only [stepCaller, there, subscribeBatch, sent, Option.map_some, Option.some.injEq, reduceCtorEq,
    if_false] at taken
  have onWire (symbol : String) : symbol ∈ subscribed current feed ↔
      symbol ∈ s.subscribed current feed ∪ if delivered then batch.toFinset else ∅ := by
    rw [changed feed]
    cases delivered <;> simp
  simp only [record, there, if_true]
  apply acc.called taken.symm
  · trivial
  · intro kind symbol member
    by_cases same : kind = feed
    · subst same
      rw [Function.update_self, Finset.mem_union, Finset.mem_sdiff, List.mem_toFinset] at member
      rcases member with earlier | now
      · exact acc.unsent kind symbol earlier
      · exact (sends symbol now.1).1
    · rw [Function.update_of_ne same] at member
      exact acc.unsent kind symbol member
  · intro kind symbol tracked _
    show symbol ∈ subscribed current kind ↔ _
    by_cases same : kind = feed
    · subst same
      rw [Function.update_self, Finset.mem_union, Finset.mem_sdiff, List.mem_toFinset, ← onWire]
      by_cases waiting : symbol ∈ (batch :: batches).flatten
      · have spared := (sends symbol waiting).2
        simp only [waiting, spared, true_and, false_or, not_not]
      · have before := balance kind symbol tracked (by rwa [pending, if_pos rfl])
        have elsewhere : symbol ∉ batch := fun member => waiting (List.mem_append_left _ member)
        have kept : symbol ∈ subscribed current kind ↔ symbol ∈ s.subscribed current kind := by
          rw [onWire, Finset.mem_union]
          cases delivered <;> simp [elsewhere]
        simp only [kept, before, waiting, false_and, or_false]
    · rw [Function.update_of_ne same, changed kind, if_neg fun both => same both.1]
      exact balance kind symbol tracked (by simp [pending, Ne.symm same])

theorem Accounted.unsubscribed {feed : Feed} {symbols batch : List String} {current : ℕ} {next : Caller}
    {answer : Await} {delivered : Bool} {quotes greeks : List (List String)} (acc : Accounted connection s ledger)
    (there : s.caller 0 = .unsubscribing current symbols quotes greeks) (within : ∀ symbol ∈ batch, symbol ∈ symbols)
    (goesOn : ∃ quotes' greeks', next = .unsubscribing current symbols quotes' greeks' ∧
      ∀ symbol ∈ quotes'.flatten ++ greeks'.flatten, symbol ∈ symbols)
    (taken : (s.unsubscribeBatch current feed batch answer delivered).map (fun s => s.setCaller 0 next) = some t) :
    Accounted connection t ledger := by
  obtain ⟨⟨rfl, -⟩, balance⟩ := acc.here there
  obtain ⟨quotes', greeks', rfl, left⟩ := goesOn
  obtain ⟨subscribed, sent, changed⟩ := send_alive (· \ batch.toFinset) feed answer delivered acc.alive
  simp only [unsubscribeBatch, sent, Option.map_some, Option.some.injEq] at taken
  apply acc.called taken.symm
  · exact ⟨rfl, left⟩
  · exact acc.unsent
  · intro kind symbol tracked spared
    show symbol ∈ subscribed current kind ↔ _
    have elsewhere : symbol ∉ batch := fun member => spared (within symbol member)
    rw [← balance kind symbol tracked spared, changed kind]
    split
    · next both =>
      rw [both.1, Finset.mem_sdiff, List.mem_toFinset, and_iff_left elsewhere]
    · exact Iff.rfl

theorem Accounted.untracked {symbols : List String} {current : ℕ} (acc : Accounted connection s ledger)
    (there : s.caller 0 = .unsubscribing current symbols [] []) :
    Accounted connection
      ({ s with tracked := fun feed => (s.tracked feed).filter (· ∉ symbols) }.setCaller 0 .idle)
      { ledger with unsent := fun feed => ledger.unsent feed \ symbols.toFinset } := by
  have balance := (acc.here there).2
  apply acc.called rfl
  · trivial
  · intro feed symbol member
    rw [Finset.mem_sdiff, List.mem_toFinset] at member
    exact List.mem_filter.mpr ⟨acc.unsent feed symbol member.1, by simpa using member.2⟩
  · intro feed symbol tracked _
    obtain ⟨before, kept⟩ := List.mem_filter.mp tracked
    have spared : symbol ∉ symbols := by simpa using kept
    rw [Finset.mem_sdiff, List.mem_toFinset, and_iff_left spared]
    exact balance feed symbol before spared

theorem Accounted.subscribe {feed : Feed} {symbols newSymbols : List String} (acc : Accounted connection s ledger)
    (same : newSymbols = symbols.dedup.filter (· ∉ s.tracked feed)) (free : s.caller 0 = .idle) :
    Accounted connection ((s.setTracked feed (s.tracked feed ++ newSymbols)).setCaller 0
      (.ensuring (.subscribe feed newSymbols))) { ledger with asked := symbols } := by
  have balance := (acc.here free).2
  have fresh (symbol : String) : symbol ∈ newSymbols ↔ symbol ∈ symbols ∧ symbol ∉ s.tracked feed := by
    rw [same, List.mem_filter, List.mem_dedup, decide_eq_true_iff]
  have now (kind : Feed) (symbol : String) := mem_setTracked s feed kind (s.tracked feed ++ newSymbols) symbol
  apply acc.called rfl
  · refine ⟨fun symbol member => (now feed symbol).mpr ?_, fun symbol member => ⟨(now feed symbol).mpr ?_, ?_⟩⟩
    · rw [if_pos rfl, List.mem_append, fresh]
      by_cases known : symbol ∈ s.tracked feed
      · exact .inl known
      · exact .inr ⟨member, known⟩
    · rw [if_pos rfl]
      exact List.mem_append_right _ member
    · exact fun unsent => ((fresh symbol).mp member).2 (acc.unsent feed symbol unsent)
  · intro kind symbol member
    have before := acc.unsent kind symbol member
    rw [now]
    split
    · next alike => exact List.mem_append_left _ (alike ▸ before)
    · exact before
  · intro kind symbol tracked settled
    rw [now] at tracked
    split at tracked
    · next alike =>
      subst alike
      rw [pending, if_pos rfl] at settled
      exact balance kind symbol ((List.mem_append.mp tracked).resolve_right settled) List.not_mem_nil
    · exact balance kind symbol tracked List.not_mem_nil

theorem Accounted.unsubscribe {symbols : List String} (acc : Accounted connection s ledger)
    (free : s.caller 0 = .idle) (quotes greeks : String → Bool) :
    Accounted connection (s.setCaller 0 (.unsubscribing connection symbols
      (chunked (symbols.dedup.filter quotes) SUBSCRIBE_BATCH_SIZE)
      (chunked (symbols.dedup.filter greeks) SUBSCRIBE_BATCH_SIZE))) ledger := by
  have balance := (acc.here free).2
  apply acc.called rfl
  · refine ⟨rfl, fun symbol member => ?_⟩
    rw [flatten_chunked _ (by decide), flatten_chunked _ (by decide)] at member
    rcases List.mem_append.mp member with quote | greek
    · exact List.mem_dedup.mp (List.mem_of_mem_filter quote)
    · exact List.mem_dedup.mp (List.mem_of_mem_filter greek)
  · exact acc.unsent
  · intro feed symbol tracked _
    exact balance feed symbol tracked List.not_mem_nil

theorem Accounted.rehash {feed : Feed} {order : List String} (acc : Accounted connection s ledger)
    (same : order.Perm (s.tracked feed)) : Accounted connection (s.setTracked feed order) ledger := by
  have members (kind : Feed) (symbol : String) :
      symbol ∈ (s.setTracked feed order).tracked kind ↔ symbol ∈ s.tracked kind := by
    rw [mem_setTracked]
    split
    · next alike => rw [same.mem_iff, alike]
    · exact Iff.rfl
  have sends (kind : Feed) (symbols : List String) (before : Sends s ledger kind symbols) :
      Sends (s.setTracked feed order) ledger kind symbols := by
    unfold Sends at *
    simpa only [members] using before
  have underway := acc.underway
  exact {
    streamer := acc.streamer
    unlocked := acc.unlocked
    alive := acc.alive
    quiet := acc.quiet
    underway := by
      show Underway connection (s.setTracked feed order) ledger (s.caller 0)
      unfold Underway at *
      split at underway
      · trivial
      · exact sends _ _ underway
      · exact ⟨underway.1, sends _ _ underway.2⟩
      · exact underway
      · exact underway.elim
    unsent := fun kind symbol member => (members kind symbol).mpr (acc.unsent kind symbol member)
    balance := fun kind symbol tracked => acc.balance kind symbol ((members kind symbol).mp tracked) }

theorem Accounted.resumed {answer : Await} {delivered : Bool} (acc : Accounted connection s ledger)
    (notCancelled : answer ≠ .cancelled) (taken : s.stepCaller 0 answer delivered = some t) :
    Accounted connection t (record s ledger (.resumeCaller 0 answer delivered)) := by
  cases there : s.caller 0 with
  | ensuring request =>
    have unchanged : record s ledger (.resumeCaller 0 answer delivered) = ledger := by simp only [record, there]
    simp only [stepCaller, there, if_neg notCancelled, acc.ensures, Option.map_some, Option.some.injEq] at taken
    rw [unchanged, ← taken]
    exact acc.ensured there
  | subscribing feed current batches =>
    cases batches with
    | nil =>
      have unchanged : record s ledger (.resumeCaller 0 answer delivered) = ledger := by simp only [record, there]
      simp only [stepCaller, there, Option.some.injEq] at taken
      rw [unchanged, ← taken]
      split
      · exact (acc.loop feed).returned (by rw [TastyTradeSource.loop]; exact there)
      · exact acc.returned there
    | cons batch batches =>
      cases answer with
      | returns =>
        have unchanged : record s ledger (.resumeCaller 0 .returns delivered) = ledger := by simp [record, there]
        rw [unchanged]
        exact acc.sent there taken
      | raises => exact acc.failed there taken
      | cancelled => exact absurd rfl notCancelled
  | unsubscribing current symbols quotes greeks =>
    obtain ⟨-, within⟩ := (acc.here there).1
    cases quotes with
    | cons batch quotes =>
      have unchanged : record s ledger (.resumeCaller 0 answer delivered) = ledger := by simp only [record, there]
      simp only [stepCaller, there] at taken
      rw [unchanged]
      have inBatch (symbol : String) (member : symbol ∈ batch) : symbol ∈ symbols :=
        within symbol (by simp [member])
      have later (symbol : String) (member : symbol ∈ quotes.flatten ++ greeks.flatten) : symbol ∈ symbols :=
        within symbol (by simpa using .inr (by simpa using member))
      apply acc.unsubscribed there inBatch _ taken
      cases answer with
      | returns => exact ⟨_, _, rfl, later⟩
      | raises => exact ⟨_, _, rfl, fun symbol member => later symbol (List.mem_append_right _ member)⟩
      | cancelled => exact absurd rfl notCancelled
    | nil =>
      cases greeks with
      | cons batch greeks =>
        have unchanged : record s ledger (.resumeCaller 0 answer delivered) = ledger := by simp only [record, there]
        simp only [stepCaller, there] at taken
        rw [unchanged]
        have inBatch (symbol : String) (member : symbol ∈ batch) : symbol ∈ symbols :=
          within symbol (by simp [member])
        apply acc.unsubscribed there inBatch _ taken
        cases answer with
        | returns => exact ⟨_, _, rfl, fun symbol member => within symbol (List.mem_append_right batch member)⟩
        | raises => exact ⟨_, _, rfl, fun symbol member => absurd member List.not_mem_nil⟩
        | cancelled => exact absurd rfl notCancelled
      | nil =>
        simp only [stepCaller, there, Option.some.injEq] at taken
        simp only [record, there]
        rw [← taken]
        exact acc.untracked there
  | idle => simp [stepCaller, there] at taken
  | _ => exact (acc.here there).1.elim

theorem Accounted.step {e : Event} (acc : Accounted connection s ledger) (sequential : Sequential e)
    (taken : TastyTradeSource.step s e = some t) : Accounted connection t (record s ledger e) := by
  cases e with
  | subscribe caller feed symbols =>
    cases sequential
    obtain ⟨free, rfl⟩ := call_cases taken
    exact acc.subscribe rfl free
  | unsubscribe caller symbols =>
    cases sequential
    simp only [TastyTradeSource.step, acc.streamer] at taken
    obtain ⟨free, rfl⟩ := call_cases taken
    exact acc.unsubscribe free _ _
  | resumeCaller caller answer delivered =>
    obtain ⟨rfl, notCancelled⟩ := sequential
    exact acc.resumed notCancelled taken
  | resumeListener feed answer delivered =>
    cases sequential
    exact acc.listen taken
  | rehash feed order =>
    rw [TastyTradeSource.step, Option.ite_none_right_eq_some, Option.some.injEq] at taken
    obtain ⟨same, rfl⟩ := taken
    exact acc.rehash same
  | _ => exact sequential.elim

theorem Accounted.subscribes_iff {e : Event} (acc : Accounted connection s ledger) :
    Subscribes connection (s, ledger) e ↔ AsksNoUnsent (s, ledger) e := by
  refine forall₂_congr fun feed returns => forall₂_congr fun symbol asked => ?_
  obtain ⟨current, there⟩ : ∃ current, s.caller 0 = .subscribing feed current [] := by
    cases e with
    | resumeCaller caller answer delivered =>
      simp only [returning] at returns
      split at returns
      · next kind current there =>
        cases returns
        exact ⟨current, there⟩
      · cases returns
    | _ => cases returns
  obtain ⟨underway, balance⟩ := acc.here there
  have settled : symbol ∉ pending feed (.subscribing feed current []) := by simp [pending]
  exact balance feed symbol (underway.2.1 symbol asked) settled

/-- A subscribe that returns has subscribed its symbols exactly if it asks for none that a call which raised has left
tracked without sending it. -/
theorem subscribes_iff_asksNoUnsent (connected : Connected s connection) {calls : List Event}
    (sequential : ∀ e ∈ calls, Sequential e) :
    Guarded (withRecord step record) (Subscribes connection) (s, {}) calls ↔
      Guarded (withRecord step record) AsksNoUnsent (s, {}) calls := by
  apply guarded_congr (fun u => Accounted connection u.1 u.2) Sequential
  · exact fun u e acc _ => acc.subscribes_iff
  · intro u e v acc allowed taken
    obtain ⟨now, kept⟩ := withRecord_some.mp taken
    rw [kept]
    exact acc.step allowed now
  · exact connected.accounted
  · exact sequential

instance (connection : ℕ) (u : TastyTradeSource × Ledger) (e : Event) : Decidable (Subscribes connection u e) :=
  inferInstanceAs (Decidable (∀ feed, feed ∈ returning u.1 e → _))

instance (u : TastyTradeSource × Ledger) (e : Event) : Decidable (AsksNoUnsent u e) :=
  inferInstanceAs (Decidable (∀ feed, feed ∈ returning u.1 e → _))

def live : TastyTradeSource where
  session := true
  streamer := some 0
  opened := 1
  alive connection := connection == 0

theorem live_connected : Connected live 0 :=
  ⟨rfl, rfl, rfl, fun _ => rfl, rfl, fun _ => rfl⟩

def retriedAfterTimeout : List Event :=
  [.subscribe 0 .quote ["SPY"], .resumeCaller 0 .returns false, .resumeCaller 0 .raises false,
    .subscribe 0 .quote ["SPY"], .resumeCaller 0 .returns false, .resumeCaller 0 .returns false]

theorem retriedAfterTimeout_sequential : ∀ e ∈ retriedAfterTimeout, Sequential e := by
  simp [retriedAfterTimeout, Sequential]

theorem retried_subscribe_skips : ¬ ∀ (s : TastyTradeSource) (connection : ℕ) (calls : List Event),
    Connected s connection → (∀ e ∈ calls, Sequential e) →
      Guarded (withRecord step record) (Subscribes connection) (s, {}) calls := by
  intro subscribes
  have guarded := subscribes live 0 retriedAfterTimeout live_connected retriedAfterTimeout_sequential
  exact absurd guarded (by decide +kernel)

theorem subscribes_iff_asksNoUnsent_retried :
    (Guarded (withRecord step record) (Subscribes 0) (live, {}) retriedAfterTimeout ↔
      Guarded (withRecord step record) AsksNoUnsent (live, {}) retriedAfterTimeout) ∧
    Guarded (withRecord step record) (Subscribes 0) (live, {}) (retriedAfterTimeout.take 2 ++
      [.resumeCaller 0 .returns false, .resumeCaller 0 .returns false]) := by
  refine ⟨subscribes_iff_asksNoUnsent live_connected retriedAfterTimeout_sequential, ?_⟩
  rw [subscribes_iff_asksNoUnsent live_connected (by simp [retriedAfterTimeout, Sequential])]
  decide +kernel

end OptionsProof.SequentialCalls
