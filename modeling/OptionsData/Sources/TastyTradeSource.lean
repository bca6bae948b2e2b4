import OptionsData.Kit.Run
import OptionsData.Sources.AsyncUtils

namespace OptionsModel

inductive Feed where
  | quote
  | greeks
deriving DecidableEq, Repr

instance : Fintype Feed := ⟨{.quote, .greeks}, fun feed => by cases feed <;> decide⟩

/-- Where a listener is in `_reconnect`, from the check of the streamer to the return. -/
inductive Attempt where
  | backingOff
  | authenticating
  | ensuring
  | opening
  | ensured
  | resubscribing (feed : Feed) (connection : ℕ) (batches : List (List String))
deriving DecidableEq, Repr

/-- Where a `_listen_loop` is; `idle` before it starts and once it is done. -/
inductive Listener where
  | idle
  | ensuring
  | opening
  | listening (connection : ℕ)
  | markingDisconnected
  | awaitingReconnect
  | reconnecting (attempt : Attempt)
  | returned
deriving DecidableEq, Repr

/-- What a call does with the streamer that `_ensure_streamer` returns. -/
inductive Request where
  | subscribe (feed : Feed) (newSymbols : List String)
  | snapshotGreeks (symbols : List String)
  | requestCandles
deriving DecidableEq, Repr

inductive Caller where
  | idle
  | ensuring (request : Request)
  | opening (request : Request)
  | subscribing (feed : Feed) (connection : ℕ) (batches : List (List String))
  | snapshotting (connection : ℕ) (symbols : List String) (batches : List (List String))
  | collecting (connection : ℕ) (symbols : List String)
  | cleaningUp (connection : ℕ) (batches : List (List String))
  | pulling
  | unsubscribing (connection : ℕ) (symbols : List String) (quotes greeks : List (List String))
  | cancelling
  | closing
deriving DecidableEq, Repr

inductive Task where
  | listener (feed : Feed)
  | caller (id : ℕ)
deriving DecidableEq, Repr

/-- The source, its tasks and the connections it has opened, which are numbered in the order of opening. -/
structure TastyTradeSource where
  session : Bool := false
  streamer : Option ℕ := none
  streamerLock : Option Task := none
  reconnectLock : Option Feed := none
  closed : Bool := false
  /-- `_quote_symbols` and `_greeks_symbols`, in the order in which they iterate. -/
  tracked : Feed → List String := fun _ => []
  listener : Feed → Listener := fun _ => .idle
  caller : ℕ → Caller := fun _ => .idle
  opened : ℕ := 0
  /-- Takes messages: it has not dropped, and nobody has begun to end it. -/
  alive : ℕ → Bool := fun _ => false
  subscribed : ℕ → Feed → Finset String := fun _ _ => ∅

def SUBSCRIBE_BATCH_SIZE : ℕ := 200

namespace TastyTradeSource

inductive Event where
  | authenticate
  | subscribe (id : ℕ) (feed : Feed) (symbols : List String)
  | snapshotGreeks (id : ℕ) (symbols : List String)
  | requestCandles (id : ℕ)
  | unsubscribe (id : ℕ) (symbols : List String)
  | close (id : ℕ)
  | drop (connection : ℕ)
  /-- A set may iterate in any order. -/
  | rehash (feed : Feed) (order : List String)
  /-- What a listener awaits has ended; `delivered` tells whether a message that was not confirmed went out. -/
  | resumeListener (feed : Feed) (answer : Await) (delivered : Bool)
  | resumeCaller (id : ℕ) (answer : Await) (delivered : Bool)
deriving DecidableEq, Repr

def setListener (s : TastyTradeSource) (feed : Feed) (listener : Listener) : TastyTradeSource :=
  { s with listener := Function.update s.listener feed listener }

def setCaller (s : TastyTradeSource) (id : ℕ) (caller : Caller) : TastyTradeSource :=
  { s with caller := Function.update s.caller id caller }

def setTracked (s : TastyTradeSource) (feed : Feed) (symbols : List String) : TastyTradeSource :=
  { s with tracked := Function.update s.tracked feed symbols }

/-- One awaited `streamer.subscribe` or `streamer.unsubscribe`; on a dead connection it raises and sends nothing. -/
def send (s : TastyTradeSource) (change : Finset String → Finset String) (connection : ℕ) (feed : Feed)
    (answer : Await) (delivered : Bool) : Option TastyTradeSource :=
  if s.alive connection then
    let symbols := change (s.subscribed connection feed)
    some (if answer = .returns ∨ delivered then { s with
      subscribed := Function.update s.subscribed connection
        (Function.update (s.subscribed connection) feed symbols) } else s)
  else if answer = .returns then none else some s

def subscribeBatch (s : TastyTradeSource) (connection : ℕ) (feed : Feed) (batch : List String) (answer : Await)
    (delivered : Bool) : Option TastyTradeSource :=
  s.send (· ∪ batch.toFinset) connection feed answer delivered

def unsubscribeBatch (s : TastyTradeSource) (connection : ℕ) (feed : Feed) (batch : List String) (answer : Await)
    (delivered : Bool) : Option TastyTradeSource :=
  s.send (· \ batch.toFinset) connection feed answer delivered

inductive Found where
  | current (connection : ℕ)
  | opens
  | raises
deriving DecidableEq, Repr

def ensureStreamer (s : TastyTradeSource) : Option Found :=
  match s.streamerLock, s.streamer with
  | some _, _ => none
  | none, some connection => some (.current connection)
  | none, none => some (if s.session then .opens else .raises)

/-- `DXLinkStreamer.__aenter__` returns a connection without subscriptions. -/
def connect (s : TastyTradeSource) : TastyTradeSource :=
  { s with
    streamer := some s.opened
    streamerLock := none
    opened := s.opened + 1
    alive := Function.update s.alive s.opened true
    subscribed := Function.update s.subscribed s.opened fun _ => ∅ }

def loop (s : TastyTradeSource) (feed : Feed) : TastyTradeSource :=
  s.setListener feed (if s.closed then .idle else .ensuring)

/-- A listener has caught an exception: `_mark_disconnected` up to its await. -/
def markDisconnected (s : TastyTradeSource) (feed : Feed) : TastyTradeSource :=
  if s.closed then s.setListener feed .idle
  else match s.streamer with
    | none => s.setListener feed .awaitingReconnect
    | some oldStreamer =>
      { s.setListener feed .markingDisconnected with
        streamer := none
        alive := Function.update s.alive oldStreamer false }

def retry (s : TastyTradeSource) (feed : Feed) : TastyTradeSource :=
  if s.closed then { s.setListener feed .returned with reconnectLock := none }
  else s.setListener feed (.reconnecting .backingOff)

def stepReconnect (s : TastyTradeSource) (feed : Feed) (answer : Await) (delivered : Bool) :
    Attempt → Option TastyTradeSource
  | .backingOff => some (s.setListener feed (.reconnecting .authenticating))
  | .authenticating =>
    if answer = .returns then some { s.setListener feed (.reconnecting .ensuring) with session := true }
    else some (s.retry feed)
  | .ensuring => s.ensureStreamer.map fun
    | .current _ => s.setListener feed (.reconnecting .ensured)
    | .opens => { s.setListener feed (.reconnecting .opening) with streamerLock := some (.listener feed) }
    | .raises => s.retry feed
  | .opening =>
    if answer = .returns then some (s.connect.setListener feed (.reconnecting .ensured))
    else some ({ s with streamerLock := none }.retry feed)
  | .ensured => match s.streamer with
    | none => some { s.setListener feed .returned with reconnectLock := none }
    | some connection => some (s.setListener feed
        (.reconnecting (.resubscribing .quote connection (chunked (s.tracked .quote) SUBSCRIBE_BATCH_SIZE))))
  | .resubscribing .quote connection [] => some (s.setListener feed
      (.reconnecting (.resubscribing .greeks connection (chunked (s.tracked .greeks) SUBSCRIBE_BATCH_SIZE))))
  | .resubscribing .greeks _ [] => some { s.setListener feed .returned with reconnectLock := none }
  | .resubscribing kind connection (batch :: batches) =>
    (s.subscribeBatch connection kind batch answer delivered).map fun s =>
      if answer = .returns then s.setListener feed (.reconnecting (.resubscribing kind connection batches))
      else s.retry feed

/-- `_listen_loop`; only `close` cancels it. -/
def stepListener (s : TastyTradeSource) (feed : Feed) (answer : Await) (delivered : Bool) :
    Option TastyTradeSource :=
  if answer = .cancelled then
    if s.closed then some { s.setListener feed .idle with
      streamerLock := if s.streamerLock = some (.listener feed) then none else s.streamerLock
      reconnectLock := if s.reconnectLock = some feed then none else s.reconnectLock }
    else none
  else match s.listener feed with
    | .idle => none
    | .ensuring => s.ensureStreamer.map fun
      | .current connection => s.setListener feed (.listening connection)
      | .opens => { s.setListener feed .opening with streamerLock := some (.listener feed) }
      | .raises => s.markDisconnected feed
    | .opening =>
      if answer = .returns then some (s.connect.setListener feed (.listening s.opened))
      else some ({ s with streamerLock := none }.markDisconnected feed)
    | .listening _ => some (if answer = .returns then s.loop feed else s.markDisconnected feed)
    | .markingDisconnected => some (s.setListener feed .awaitingReconnect)
    | .awaitingReconnect =>
      if s.reconnectLock.isSome then none
      -- `_reconnect` takes any streamer for one that another listener has resubscribed on
      else if s.streamer.isSome ∨ s.closed then some (s.setListener feed .returned)
      else some { s.setListener feed (.reconnecting .authenticating) with reconnectLock := some feed }
    | .reconnecting attempt => s.stepReconnect feed answer delivered attempt
    | .returned => some (s.loop feed)

def Request.goOn (connection : ℕ) : Request → Caller
  | .subscribe feed newSymbols => .subscribing feed connection (chunked newSymbols SUBSCRIBE_BATCH_SIZE)
  | .snapshotGreeks symbols => .snapshotting connection symbols (chunked symbols SUBSCRIBE_BATCH_SIZE)
  | .requestCandles => .pulling

def stepCaller (s : TastyTradeSource) (id : ℕ) (answer : Await) (delivered : Bool) : Option TastyTradeSource :=
  match s.caller id with
  | .idle => none
  | .ensuring request =>
    if answer = .cancelled then some (s.setCaller id .idle)
    else s.ensureStreamer.map fun
      | .current connection => s.setCaller id (Request.goOn connection request)
      | .opens => { s.setCaller id (.opening request) with streamerLock := some (.caller id) }
      | .raises => s.setCaller id .idle
  | .opening request =>
    if answer = .returns then some (s.connect.setCaller id (Request.goOn s.opened request))
    else some { s.setCaller id .idle with streamerLock := none }
  | .subscribing feed _ [] =>
    some ((if s.listener feed = .idle then s.loop feed else s).setCaller id .idle)
  | .subscribing feed connection (batch :: batches) =>
    (s.subscribeBatch connection feed batch answer delivered).map fun s =>
      s.setCaller id (if answer = .returns then .subscribing feed connection batches else .idle)
  | .snapshotting connection symbols [] => some (s.setCaller id (.collecting connection symbols))
  -- outside the `try`: what raises here is not cleaned up
  | .snapshotting connection symbols (batch :: batches) =>
    (s.subscribeBatch connection .greeks batch answer delivered).map fun s =>
      s.setCaller id (if answer = .returns then .snapshotting connection symbols batches else .idle)
  | .collecting connection symbols =>
    some (s.setCaller id (.cleaningUp connection (chunked symbols SUBSCRIBE_BATCH_SIZE)))
  | .cleaningUp _ [] => some (s.setCaller id .idle)
  | .cleaningUp connection (batch :: batches) =>
    (s.unsubscribeBatch connection .greeks batch answer delivered).map fun s =>
      s.setCaller id (if answer = .returns then .cleaningUp connection batches else .idle)
  | .pulling => some (s.setCaller id .idle)
  | .unsubscribing connection symbols (batch :: quotes) greeks =>
    (s.unsubscribeBatch connection .quote batch answer delivered).map fun s =>
      s.setCaller id (match answer with
        | .returns => .unsubscribing connection symbols quotes greeks
        | .raises => .unsubscribing connection symbols [] greeks
        | .cancelled => .idle)
  | .unsubscribing connection symbols [] (batch :: greeks) =>
    (s.unsubscribeBatch connection .greeks batch answer delivered).map fun s =>
      s.setCaller id (match answer with
        | .returns => .unsubscribing connection symbols [] greeks
        | .raises => .unsubscribing connection symbols [] []
        | .cancelled => .idle)
  | .unsubscribing _ symbols [] [] =>
    some ({ s with tracked := fun feed => (s.tracked feed).filter (· ∉ symbols) }.setCaller id .idle)
  | .cancelling =>
    if ∃ feed, s.listener feed ≠ .idle then none
    else match s.streamer with
      | none => some (s.setCaller id .idle)
      | some connection => some { s.setCaller id .closing with alive := Function.update s.alive connection false }
  | .closing =>
    some (if answer = .cancelled then s.setCaller id .idle else { s.setCaller id .idle with streamer := none })

def call (s : TastyTradeSource) (id : ℕ) (begun : TastyTradeSource) : Option TastyTradeSource :=
  if s.caller id = .idle then some begun else none

def step (s : TastyTradeSource) : Event → Option TastyTradeSource
  | .authenticate => some { s with session := true }
  | .subscribe id feed symbols =>
    let newSymbols := symbols.dedup.filter (· ∉ s.tracked feed)
    s.call id ((s.setTracked feed (s.tracked feed ++ newSymbols)).setCaller id
      (.ensuring (.subscribe feed newSymbols)))
  | .snapshotGreeks id symbols => s.call id (s.setCaller id (.ensuring (.snapshotGreeks symbols)))
  | .requestCandles id => s.call id (s.setCaller id (.ensuring .requestCandles))
  | .unsubscribe id symbols =>
    s.call id (match s.streamer with
      | none => { s with tracked := fun feed => (s.tracked feed).filter (· ∉ symbols) }
      | some connection => s.setCaller id (.unsubscribing connection symbols
          (chunked (symbols.dedup.filter (· ∈ s.tracked .quote)) SUBSCRIBE_BATCH_SIZE)
          (chunked (symbols.dedup.filter (· ∈ s.tracked .greeks)) SUBSCRIBE_BATCH_SIZE)))
  | .close id => s.call id ({ s with closed := true }.setCaller id .cancelling)
  | .drop connection => some { s with alive := Function.update s.alive connection false }
  | .rehash feed order => if order.Perm (s.tracked feed) then some (s.setTracked feed order) else none
  | .resumeListener feed answer delivered => s.stepListener feed answer delivered
  | .resumeCaller id answer delivered => s.stepCaller id answer delivered

end TastyTradeSource

end OptionsModel
