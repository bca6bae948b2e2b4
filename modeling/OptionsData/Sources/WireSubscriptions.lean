import OptionsData.Sources.SequentialCalls

namespace OptionsProof.WireSubscriptions

open Kit OptionsModel OptionsModel.TastyTradeSource OptionsProof.Reconnect OptionsProof.SequentialCalls

/-- One task makes its calls one after another on a connection that stays up and answers each of them. -/
def Answered : Event → Prop
  | .subscribe caller _ _ | .unsubscribe caller _ | .snapshotGreeks caller _ | .requestCandles caller => caller = 0
  | .resumeCaller caller answer _ => caller = 0 ∧ answer = .returns
  | .resumeListener _ answer _ => answer = .returns
  | .rehash _ _ => True
  | _ => False

def record (_ : TastyTradeSource) (asked : List String) : Event → List String
  | .snapshotGreeks _ symbols => symbols
  | _ => asked

variable {connection : ℕ} {s t : TastyTradeSource} {asked : List String} {e : Event}

/-- What the server sends is what the source means to receive. -/
def Exact (connection : ℕ) (s : TastyTradeSource) : Prop :=
  ∀ feed symbol, symbol ∈ s.subscribed connection feed ↔ symbol ∈ s.tracked feed

def Waits (connection : ℕ) (s : TastyTradeSource) (feed : Feed) (unsent : List String) : Prop :=
  ∀ kind symbol, symbol ∈ s.tracked kind ↔ symbol ∈ s.subscribed connection kind ∨ kind = feed ∧ symbol ∈ unsent

def Beside (connection : ℕ) (s : TastyTradeSource) (asked : List String) : Prop :=
  ∀ feed symbol, (feed = .greeks → symbol ∉ asked) →
    (symbol ∈ s.subscribed connection feed ↔ symbol ∈ s.tracked feed)

def left (quotes greeks : List (List String)) : Feed → List String
  | .quote => quotes.flatten
  | .greeks => greeks.flatten

def Leaves (connection : ℕ) (s : TastyTradeSource) (symbols : List String) (left : Feed → List String) : Prop :=
  ∀ feed symbol, (symbol ∈ symbols → symbol ∉ left feed) →
    (symbol ∈ s.subscribed connection feed ↔ symbol ∈ s.tracked feed ∧ symbol ∉ symbols)

def Stands (connection : ℕ) (s : TastyTradeSource) (asked : List String) : Caller → Prop
  | .idle | .ensuring .requestCandles | .pulling => Exact connection s
  | .ensuring (.subscribe feed newSymbols) => Waits connection s feed newSymbols
  | .subscribing feed current batches => current = connection ∧ Waits connection s feed batches.flatten
  | .ensuring (.snapshotGreeks symbols) => asked = symbols ∧ Exact connection s
  | .snapshotting current symbols batches =>
    current = connection ∧ asked = symbols ∧ (∀ symbol ∈ batches.flatten, symbol ∈ asked) ∧
      Beside connection s asked
  | .collecting current symbols => current = connection ∧ asked = symbols ∧ Beside connection s asked
  | .cleaningUp current batches =>
    current = connection ∧ (∀ symbol ∈ batches.flatten, symbol ∈ asked) ∧ Beside connection s asked ∧
      ∀ symbol ∈ asked, symbol ∈ s.subscribed connection .greeks → symbol ∈ batches.flatten
  | .unsubscribing current symbols quotes greeks =>
    current = connection ∧ (∀ feed, ∀ symbol ∈ left quotes greeks feed, symbol ∈ symbols) ∧
      Leaves connection s symbols (left quotes greeks)
  | _ => False

structure Inside (connection : ℕ) (s : TastyTradeSource) (asked : List String) : Prop where
  streamer : s.streamer = some connection
  unlocked : s.streamerLock = none
  alive : s.alive connection = true
  quiet : ∀ feed, Quiet (s.listener feed)
  stands : Stands connection s asked (s.caller 0)

theorem Exact.beside (exact_ : Exact connection s) (asked : List String) : Beside connection s asked :=
  fun feed symbol _ => exact_ feed symbol

theorem Inside.ensures (inside : Inside connection s asked) : s.ensureStreamer = some (.current connection) := by
  rw [ensureStreamer, inside.unlocked, inside.streamer]

theorem Inside.here {caller : Caller} (inside : Inside connection s asked) (there : s.caller 0 = caller) :
    Stands connection s asked caller := there ▸ inside.stands

theorem stands_congr {s' : TastyTradeSource}
    (tracked : ∀ feed symbol, symbol ∈ s'.tracked feed ↔ symbol ∈ s.tracked feed)
    (subscribed : s'.subscribed = s.subscribed) {caller : Caller} (stands : Stands connection s asked caller) :
    Stands connection s' asked caller := by
  unfold Stands Exact Waits Beside Leaves at *
  simpa only [tracked, subscribed] using stands

theorem Inside.calls {next : Caller} {asked' : List String} {tracked : Feed → List String}
    {subscribed : ℕ → Feed → Finset String} (inside : Inside connection s asked)
    (frame : t = { s with caller := Function.update s.caller 0 next, tracked := tracked, subscribed := subscribed })
    (stands : Stands connection t asked' next) : Inside connection t asked' := by
  have now : t.caller 0 = next := by
    subst frame
    exact Function.update_self (f := s.caller) 0 next
  rw [← now] at stands
  subst frame
  exact ⟨inside.streamer, inside.unlocked, inside.alive, inside.quiet, stands⟩

theorem Inside.listens {feed : Feed} {next : Listener} (inside : Inside connection s asked) (quiet : Quiet next) :
    Inside connection (s.setListener feed next) asked where
  streamer := inside.streamer
  unlocked := inside.unlocked
  alive := inside.alive
  quiet other := by
    show Quiet (Function.update s.listener feed next other)
    by_cases same : other = feed
    · rw [same, Function.update_self]
      exact quiet
    · rw [Function.update_of_ne same]
      exact inside.quiet other
  stands := stands_congr (fun _ _ => Iff.rfl) rfl inside.stands

theorem Inside.loop (inside : Inside connection s asked) (feed : Feed) : Inside connection (s.loop feed) asked := by
  rw [TastyTradeSource.loop]
  split
  · exact inside.listens trivial
  · exact inside.listens trivial

theorem Inside.listen {feed : Feed} {delivered : Bool} (inside : Inside connection s asked)
    (taken : s.stepListener feed .returns delivered = some t) : Inside connection t asked := by
  have quiet := inside.quiet feed
  unfold stepListener at taken
  rw [if_neg (by simp)] at taken
  split at taken
  case h_2 =>
    rw [inside.ensures] at taken
    cases taken
    exact inside.listens trivial
  case h_4 =>
    cases taken
    exact inside.loop feed
  all_goals simp_all [Quiet]

theorem Inside.subscribe {feed : Feed} {symbols newSymbols : List String} (inside : Inside connection s asked)
    (same : newSymbols = symbols.dedup.filter (· ∉ s.tracked feed)) (free : s.caller 0 = .idle) :
    Inside connection ((s.setTracked feed (s.tracked feed ++ newSymbols)).setCaller 0
      (.ensuring (.subscribe feed newSymbols))) asked := by
  have exact_ : Exact connection s := inside.here free
  apply inside.calls rfl
  intro kind symbol
  refine (mem_setTracked s feed kind (s.tracked feed ++ newSymbols) symbol).trans ?_
  show _ ↔ symbol ∈ s.subscribed connection kind ∨ kind = feed ∧ symbol ∈ newSymbols
  rw [exact_ kind symbol]
  by_cases alike : kind = feed
  · subst alike
    rw [if_pos rfl, List.mem_append]
    simp only [true_and]
  · rw [if_neg alike]
    simp only [alike, false_and, or_false]

theorem Inside.unsubscribe {symbols : List String} (inside : Inside connection s asked)
    (free : s.caller 0 = .idle) :
    Inside connection (s.setCaller 0 (.unsubscribing connection symbols
      (chunked (symbols.dedup.filter (· ∈ s.tracked .quote)) SUBSCRIBE_BATCH_SIZE)
      (chunked (symbols.dedup.filter (· ∈ s.tracked .greeks)) SUBSCRIBE_BATCH_SIZE))) asked := by
  have exact_ : Exact connection s := inside.here free
  have batches (feed : Feed) (symbol : String) :
      symbol ∈ left (chunked (symbols.dedup.filter (· ∈ s.tracked .quote)) SUBSCRIBE_BATCH_SIZE)
        (chunked (symbols.dedup.filter (· ∈ s.tracked .greeks)) SUBSCRIBE_BATCH_SIZE) feed ↔
      symbol ∈ symbols ∧ symbol ∈ s.tracked feed := by
    cases feed <;> simp [left, flatten_chunked _ (by decide : 0 < SUBSCRIBE_BATCH_SIZE)]
  apply inside.calls rfl
  refine ⟨rfl, fun feed symbol member => ((batches feed symbol).mp member).1, fun feed symbol spared => ?_⟩
  show symbol ∈ s.subscribed connection feed ↔ symbol ∈ s.tracked feed ∧ symbol ∉ symbols
  rw [exact_ feed symbol, batches] at *
  constructor
  · intro tracked
    exact ⟨tracked, fun asks => spared asks ⟨asks, tracked⟩⟩
  · exact And.left

theorem Inside.ensured {request : Request} (inside : Inside connection s asked)
    (there : s.caller 0 = .ensuring request) :
    Inside connection (s.setCaller 0 (Request.goOn connection request)) asked := by
  have stands := inside.here there
  have whole (symbols : List String) : (chunked symbols SUBSCRIBE_BATCH_SIZE).flatten = symbols :=
    flatten_chunked symbols (by decide)
  apply inside.calls rfl
  cases request with
  | subscribe feed newSymbols =>
    refine ⟨rfl, ?_⟩
    rw [whole]
    exact stands
  | snapshotGreeks symbols =>
    obtain ⟨rfl, exact_⟩ := stands
    refine ⟨rfl, rfl, fun symbol member => ?_, exact_.beside asked⟩
    rwa [whole] at member
  | requestCandles => exact stands

theorem Inside.subscribed {feed : Feed} {current : ℕ} {batch : List String} {batches : List (List String)}
    {delivered : Bool} (inside : Inside connection s asked)
    (there : s.caller 0 = .subscribing feed current (batch :: batches))
    (taken : s.stepCaller 0 .returns delivered = some t) : Inside connection t asked := by
  obtain ⟨rfl, waits⟩ := inside.here there
  obtain ⟨subscribed, sent, changed⟩ := send_alive (· ∪ batch.toFinset) feed .returns delivered inside.alive
  simp only [stepCaller, there, subscribeBatch, sent, Option.map_some, Option.some.injEq, if_true] at taken
  apply inside.calls taken.symm
  rw [← taken]
  refine ⟨rfl, fun kind symbol => (waits kind symbol).trans ?_⟩
  show _ ↔ symbol ∈ subscribed current kind ∨ kind = feed ∧ symbol ∈ batches.flatten
  rw [changed kind, List.flatten_cons, List.mem_append]
  by_cases alike : kind = feed
  · subst alike
    rw [if_pos ⟨rfl, .inl rfl⟩, Finset.mem_union, List.mem_toFinset]
    tauto
  · rw [if_neg fun both => alike both.1]
    tauto

theorem Inside.snapshot {current : ℕ} {symbols batch : List String} {batches : List (List String)}
    {delivered : Bool} (inside : Inside connection s asked)
    (there : s.caller 0 = .snapshotting current symbols (batch :: batches))
    (taken : s.stepCaller 0 .returns delivered = some t) : Inside connection t asked := by
  obtain ⟨rfl, rfl, within, beside⟩ := inside.here there
  obtain ⟨subscribed, sent, changed⟩ := send_alive (· ∪ batch.toFinset) .greeks .returns delivered inside.alive
  simp only [stepCaller, there, subscribeBatch, sent, Option.map_some, Option.some.injEq, if_true] at taken
  apply inside.calls taken.symm
  rw [← taken]
  refine ⟨rfl, rfl, fun symbol member => within symbol (List.mem_append_right batch member), ?_⟩
  intro kind symbol spared
  show symbol ∈ subscribed current kind ↔ symbol ∈ s.tracked kind
  rw [changed kind, ← beside kind symbol spared]
  split
  · next both =>
    have other : symbol ∉ batch := fun member => spared both.1 (within symbol (List.mem_append_left _ member))
    rw [both.1, Finset.mem_union, List.mem_toFinset, or_iff_left other]
  · exact Iff.rfl

theorem Inside.cleansUp {current : ℕ} {batch : List String} {batches : List (List String)} {delivered : Bool}
    (inside : Inside connection s asked) (there : s.caller 0 = .cleaningUp current (batch :: batches))
    (taken : s.stepCaller 0 .returns delivered = some t) : Inside connection t asked := by
  obtain ⟨rfl, within, beside, still⟩ := inside.here there
  obtain ⟨subscribed, sent, changed⟩ := send_alive (· \ batch.toFinset) .greeks .returns delivered inside.alive
  simp only [stepCaller, there, unsubscribeBatch, sent, Option.map_some, Option.some.injEq, if_true] at taken
  apply inside.calls taken.symm
  rw [← taken]
  refine ⟨rfl, fun symbol member => within symbol (List.mem_append_right batch member), ?_, ?_⟩
  · intro kind symbol spared
    show symbol ∈ subscribed current kind ↔ symbol ∈ s.tracked kind
    rw [changed kind, ← beside kind symbol spared]
    split
    · next both =>
      have other : symbol ∉ batch := fun member => spared both.1 (within symbol (List.mem_append_left _ member))
      rw [both.1, Finset.mem_sdiff, List.mem_toFinset, and_iff_left other]
    · exact Iff.rfl
  · intro symbol member onWire
    have kept : symbol ∈ subscribed current .greeks := onWire
    rw [changed .greeks, if_pos ⟨rfl, .inl rfl⟩, Finset.mem_sdiff, List.mem_toFinset] at kept
    exact (List.mem_append.mp (still symbol member kept.1)).resolve_left kept.2

theorem Inside.unsubscribed (feed : Feed) {symbols batch : List String} {current : ℕ} {delivered : Bool}
    {quotes greeks quotes' greeks' : List (List String)} (inside : Inside connection s asked)
    (there : s.caller 0 = .unsubscribing current symbols quotes greeks)
    (first : left quotes greeks feed = batch ++ left quotes' greeks' feed)
    (others : ∀ kind, kind ≠ feed → left quotes greeks kind = left quotes' greeks' kind)
    (taken : (s.unsubscribeBatch current feed batch .returns delivered).map
      (fun s => s.setCaller 0 (.unsubscribing current symbols quotes' greeks')) = some t) :
    Inside connection t asked := by
  obtain ⟨rfl, within, leaves⟩ := inside.here there
  obtain ⟨subscribed, sent, changed⟩ := send_alive (· \ batch.toFinset) feed .returns delivered inside.alive
  simp only [unsubscribeBatch, sent, Option.map_some, Option.some.injEq] at taken
  apply inside.calls taken.symm
  rw [← taken]
  refine ⟨rfl, fun kind symbol member => within kind symbol ?_, fun kind symbol spared => ?_⟩
  · by_cases alike : kind = feed
    · subst alike
      rw [first]
      exact List.mem_append_right batch member
    · rwa [others kind alike]
  · show symbol ∈ subscribed current kind ↔ symbol ∈ s.tracked kind ∧ symbol ∉ symbols
    rw [changed kind]
    by_cases alike : kind = feed
    · subst alike
      rw [if_pos ⟨rfl, .inl rfl⟩, Finset.mem_sdiff, List.mem_toFinset]
      by_cases now : symbol ∈ batch
      · have asks : symbol ∈ symbols := within kind symbol (first ▸ List.mem_append_left _ now)
        simp only [now, asks, not_true_eq_false, and_false]
      · rw [and_iff_left now]
        refine leaves kind symbol fun asks => ?_
        rw [first, List.mem_append, not_or]
        exact ⟨now, spared asks⟩
    · rw [if_neg fun both => alike both.1]
      exact leaves kind symbol fun asks => others kind alike ▸ spared asks

theorem Inside.untracked {symbols : List String} {current : ℕ} (inside : Inside connection s asked)
    (there : s.caller 0 = .unsubscribing current symbols [] []) :
    Inside connection
      ({ s with tracked := fun feed => (s.tracked feed).filter (· ∉ symbols) }.setCaller 0 .idle) asked := by
  obtain ⟨rfl, -, leaves⟩ := inside.here there
  apply inside.calls rfl
  intro feed symbol
  show symbol ∈ s.subscribed current feed ↔ symbol ∈ (s.tracked feed).filter (· ∉ symbols)
  rw [List.mem_filter, decide_eq_true_iff]
  exact leaves feed symbol fun _ => by cases feed <;> exact List.not_mem_nil

def cleanedUp : Caller → Bool
  | .cleaningUp _ [] => true
  | _ => false

theorem cleanedUp_cases {caller : Caller} (ends : cleanedUp caller = true) :
    ∃ current, caller = .cleaningUp current [] := by
  unfold cleanedUp at ends
  split at ends
  · next current => exact ⟨current, rfl⟩
  · cases ends

def endsSnapshot (s : TastyTradeSource) : Event → Bool
  | .resumeCaller _ _ _ => cleanedUp (s.caller 0)
  | _ => false

theorem Inside.resumed {delivered : Bool} (inside : Inside connection s asked)
    (goes : cleanedUp (s.caller 0) = false) (taken : s.stepCaller 0 .returns delivered = some t) :
    Inside connection t asked := by
  cases there : s.caller 0 with
  | idle => simp [stepCaller, there] at taken
  | ensuring request =>
    simp only [stepCaller, there, reduceCtorEq, if_false, inside.ensures, Option.map_some,
      Option.some.injEq] at taken
    rw [← taken]
    exact inside.ensured there
  | subscribing feed current batches =>
    cases batches with
    | nil =>
      simp only [stepCaller, there, Option.some.injEq] at taken
      obtain ⟨-, waits⟩ := inside.here there
      have exact_ : Exact connection s := fun kind symbol => by
        rw [waits kind symbol, List.flatten_nil, or_iff_left fun both => List.not_mem_nil both.2]
      rw [← taken]
      split
      · exact (inside.loop feed).calls rfl exact_
      · exact inside.calls rfl exact_
    | cons batch batches => exact inside.subscribed there taken
  | snapshotting current symbols batches =>
    cases batches with
    | nil =>
      simp only [stepCaller, there, Option.some.injEq] at taken
      obtain ⟨same, whole, -, beside⟩ := inside.here there
      rw [← taken]
      exact inside.calls rfl ⟨same, whole, beside⟩
    | cons batch batches => exact inside.snapshot there taken
  | collecting current symbols =>
    simp only [stepCaller, there, Option.some.injEq] at taken
    obtain ⟨same, rfl, beside⟩ := inside.here there
    have whole : (chunked asked SUBSCRIBE_BATCH_SIZE).flatten = asked := flatten_chunked asked (by decide)
    rw [← taken]
    apply inside.calls rfl
    refine ⟨same, fun symbol member => ?_, beside, fun symbol member _ => ?_⟩
    · rwa [whole] at member
    · rwa [whole]
  | cleaningUp current batches =>
    cases batches with
    | nil =>
      rw [there] at goes
      cases goes
    | cons batch batches => exact inside.cleansUp there taken
  | pulling =>
    simp only [stepCaller, there, Option.some.injEq] at taken
    rw [← taken]
    exact inside.calls rfl (inside.here there)
  | unsubscribing current symbols quotes greeks =>
    cases quotes with
    | cons batch quotes =>
      simp only [stepCaller, there] at taken
      exact inside.unsubscribed .quote there rfl (fun kind other => by cases kind <;> simp_all [left]) taken
    | nil =>
      cases greeks with
      | cons batch greeks =>
        simp only [stepCaller, there] at taken
        exact inside.unsubscribed .greeks there rfl (fun kind other => by cases kind <;> simp_all [left]) taken
      | nil =>
        simp only [stepCaller, there, Option.some.injEq] at taken
        rw [← taken]
        exact inside.untracked there
  | opening request => exact (inside.here there).elim
  | cancelling => exact (inside.here there).elim
  | closing => exact (inside.here there).elim

theorem Inside.step (inside : Inside connection s asked) (answered : Answered e) (goes : endsSnapshot s e = false)
    (taken : TastyTradeSource.step s e = some t) : Inside connection t (record s asked e) := by
  cases e with
  | subscribe caller feed symbols =>
    cases answered
    obtain ⟨free, rfl⟩ := call_cases taken
    exact inside.subscribe rfl free
  | unsubscribe caller symbols =>
    cases answered
    simp only [TastyTradeSource.step, inside.streamer] at taken
    obtain ⟨free, rfl⟩ := call_cases taken
    exact inside.unsubscribe free
  | snapshotGreeks caller symbols =>
    cases answered
    obtain ⟨free, rfl⟩ := call_cases taken
    exact inside.calls rfl ⟨rfl, inside.here free⟩
  | requestCandles caller =>
    cases answered
    obtain ⟨free, rfl⟩ := call_cases taken
    exact inside.calls rfl (inside.here free)
  | resumeCaller caller answer delivered =>
    obtain ⟨rfl, rfl⟩ := answered
    exact inside.resumed goes taken
  | resumeListener feed answer delivered =>
    cases answered
    exact inside.listen taken
  | rehash feed order =>
    rw [TastyTradeSource.step, Option.ite_none_right_eq_some, Option.some.injEq] at taken
    obtain ⟨same, rfl⟩ := taken
    have members (kind : Feed) (symbol : String) :
        symbol ∈ (s.setTracked feed order).tracked kind ↔ symbol ∈ s.tracked kind := by
      rw [mem_setTracked]
      split
      · next alike => rw [same.mem_iff, alike]
      · exact Iff.rfl
    have stands : Stands connection (s.setTracked feed order) asked (s.caller 0) :=
      stands_congr members rfl inside.stands
    exact ⟨inside.streamer, inside.unlocked, inside.alive, inside.quiet, stands⟩
  | authenticate => exact answered.elim
  | close caller => exact answered.elim
  | drop connection => exact answered.elim

def Synced (connection : ℕ) (v : TastyTradeSource × List String) : Prop :=
  v.1.caller 0 = .idle → Exact connection v.1

/-- The snapshot that ends here asked for no symbol whose Greeks are tracked. -/
def Spares (v : TastyTradeSource × List String) (e : Event) : Prop :=
  endsSnapshot v.1 e = true → ∀ symbol ∈ v.2, symbol ∉ v.1.tracked .greeks

theorem Inside.synced (inside : Inside connection s asked) : Synced connection (s, asked) :=
  fun free => inside.here free

theorem exact_iff_spares (inside : Inside connection s asked) {current : ℕ}
    (there : s.caller 0 = .cleaningUp current []) :
    Exact connection s ↔ ∀ symbol ∈ asked, symbol ∉ s.tracked .greeks := by
  obtain ⟨-, -, beside, still⟩ := inside.here there
  have gone (symbol : String) (member : symbol ∈ asked) : symbol ∉ s.subscribed connection .greeks :=
    fun onWire => List.not_mem_nil (still symbol member onWire)
  constructor
  · intro exact_ symbol member tracked
    exact gone symbol member ((exact_ .greeks symbol).mpr tracked)
  · intro spares feed symbol
    by_cases free : feed = .greeks → symbol ∉ asked
    · exact beside feed symbol free
    · obtain ⟨rfl, member⟩ := Classical.not_imp.mp free
      exact iff_of_false (gone symbol (not_not.mp member)) (spares symbol (not_not.mp member))

theorem keeps_synced {u v : TastyTradeSource × List String} {e : Event} (inside : Inside connection u.1 u.2)
    (answered : Answered e) (taken : withRecord step record u e = some v) :
    (Synced connection v ↔ Spares u e) ∧ (Synced connection v → Inside connection v.1 v.2) := by
  obtain ⟨now, kept⟩ := withRecord_some.mp taken
  cases ends : endsSnapshot u.1 e with
  | true =>
    cases e with
    | resumeCaller caller answer delivered =>
      obtain ⟨rfl, rfl⟩ := answered
      obtain ⟨current, there⟩ := cleanedUp_cases ends
      simp only [TastyTradeSource.step, stepCaller, there, Option.some.injEq] at now
      have synced : Synced connection v ↔ Exact connection u.1 := by
        rw [Synced, ← now]
        exact ⟨fun exact_ => exact_ (Function.update_self (f := u.1.caller) 0 _), fun exact_ _ => exact_⟩
      have spares : Spares u (.resumeCaller 0 .returns delivered) ↔ ∀ symbol ∈ u.2, symbol ∉ u.1.tracked .greeks :=
        ⟨fun all => all ends, fun all _ => all⟩
      refine ⟨synced.trans ((exact_iff_spares inside there).trans spares.symm), fun holds => ?_⟩
      exact inside.calls now.symm (now ▸ synced.mp holds)
    | _ => cases ends
  | false =>
    have next : Inside connection v.1 v.2 := kept ▸ inside.step answered ends now
    exact ⟨iff_of_true next.synced fun ended => absurd (ends.symm.trans ended) Bool.false_ne_true, fun _ => next⟩

/-- On a connection that answers, the server sends exactly what is tracked after each call exactly when no snapshot asks
for a symbol whose Greeks are tracked. -/
theorem synced_iff_spares (connected : Connected s connection) (bare : ∀ feed, s.subscribed connection feed = ∅)
    {calls : List Event} (answered : ∀ e ∈ calls, Answered e) {u : TastyTradeSource × List String}
    (reached : run (withRecord step record) (s, []) calls = some u) :
    (∀ past rest v, calls = past ++ rest → run (withRecord step record) (s, []) past = some v →
      Synced connection v) ↔ Guarded (withRecord step record) Spares (s, []) calls := by
  have exact_ : Exact connection s := fun feed symbol => by
    rw [bare, connected.untracked]
    exact iff_of_false (Finset.notMem_empty symbol) List.not_mem_nil
  have quiet (feed : Feed) : Quiet (s.listener feed) := by
    rw [connected.noListener]
    trivial
  have stands : Stands connection s [] (s.caller 0) := by
    rw [connected.noCall]
    exact exact_
  have start : Inside connection s [] :=
    ⟨connected.streamer, connected.unlocked, connected.alive, quiet, stands⟩
  have all : Guarded (withRecord step record) (fun _ e => Answered e) (s, []) calls :=
    guarded_of_forall (fun e member _ => answered e member) _
  exact run_always_guarded_iff
    (fun u e v inside _ answered taken => keeps_synced inside answered taken) start start.synced all reached

instance (v : TastyTradeSource × List String) (e : Event) : Decidable (Spares v e) :=
  inferInstanceAs (Decidable (endsSnapshot v.1 e = true → ∀ symbol ∈ v.2, symbol ∉ v.1.tracked .greeks))

def goesOn : Event := .resumeCaller 0 .returns true

def newContract : List Event :=
  .snapshotGreeks 0 [".SPXW"] :: List.replicate 6 goesOn ++ .subscribe 0 .greeks [".SPXW"] :: List.replicate 3 goesOn

theorem synced_iff_spares_newContract : ∃ u, run (withRecord step record) (live, []) newContract = some u ∧
    u.1.tracked .greeks = [".SPXW"] ∧ Exact 0 u.1 := by
  obtain ⟨u, reached⟩ : ∃ u, run (withRecord step record) (live, []) newContract = some u := ⟨_, rfl⟩
  have answered : ∀ e ∈ newContract, Answered e := by simp [newContract, goesOn, Answered]
  have right := (synced_iff_spares live_connected (fun _ => rfl) answered reached).mpr (by decide +kernel)
  have synced := right newContract [] u (List.append_nil _).symm reached
  cases reached
  exact ⟨_, rfl, rfl, synced rfl⟩

end OptionsProof.WireSubscriptions
