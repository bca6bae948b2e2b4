import OptionsData.Sources.EventQueue
import OptionsData.Sources.WithTimeout

namespace OptionsModel

/-- What the installed `tastytrade` package offers: the parameter names of `subscribe_candle`, if there is one. -/
structure CandleApi where
  subscribeCandle : Option (List String)
  unsubscribeCandle : Bool
deriving DecidableEq, Repr

def CandleApi.recognized (api : CandleApi) : Bool :=
  match api.subscribeCandle with
  | none => false
  | some params => ["symbols", "symbol"].any (· ∈ params) && ["interval", "candle_type", "period"].any (· ∈ params) &&
      ["start_time", "from_time"].any (· ∈ params)

structure CandleKey where
  symbol : String
  period : String
deriving DecidableEq, Repr

def CandleKey.wire (key : CandleKey) (via : SubscribedVia) : String := wireSymbol key.symbol key.period via

inductive Message where
  | add (wire : String)
  | remove (wire : String)
deriving DecidableEq, Repr

def Message.wire : Message → String
  | add wire | remove wire => wire

def Message.apply (subscribed : Finset String) : Message → Finset String
  | add wire => insert wire subscribed
  | remove wire => subscribed.erase wire

/-- The operations that `request_candles` awaits through `with_timeout`. -/
inductive CandleStep where
  | subscribeCandle
  | subscribe
  | unsubscribe (via : SubscribedVia)
deriving DecidableEq, Repr

/-- Where a call of `request_candles` is; `sent` tells whether the message of the awaited operation has gone out. -/
inductive CandleCall where
  | idle
  | awaiting (key : CandleKey) (step : CandleStep) (call : WithTimeout Unit Unit) (sent : Bool)
  | collecting (key : CandleKey) (via : SubscribedVia)
deriving DecidableEq

/-- The candle subscriptions of a connection, the calls on it, and the messages of operations that were cancelled and
that nobody awaits. -/
structure CandleFeed where
  subscribed : Finset String := ∅
  call : ℕ → CandleCall := fun _ => .idle
  abandoned : List Message := []

namespace CandleFeed

inductive Event where
  | request (id : ℕ) (key : CandleKey) (time : ℚ) (cancelling : ℕ)
  | deliver (id : ℕ)
  | signal (id : ℕ) (time : ℚ) (signal : WithTimeout.Signal Unit Unit)
  /-- `collect_events` returns, which it does also when its caller is cancelled. -/
  | collected (id : ℕ) (time : ℚ) (cancelling : ℕ)
  | late (i : ℕ)
deriving DecidableEq

def message (api : CandleApi) (key : CandleKey) : CandleStep → Message
  | .subscribeCandle => .add (key.wire .subscribeCandle)
  | .subscribe => .add (key.wire .subscribeFallback)
  | .unsubscribe .subscribeCandle =>
    .remove (key.wire (if api.unsubscribeCandle then .subscribeCandle else .subscribeFallback))
  | .unsubscribe .subscribeFallback => .remove (key.wire .subscribeFallback)

def setCall (s : CandleFeed) (id : ℕ) (call : CandleCall) : CandleFeed :=
  { s with call := Function.update s.call id call }

/-- The operation is awaited for ten seconds. -/
def start (key : CandleKey) (step : CandleStep) (time : ℚ) (cancelling : ℕ) : CandleCall :=
  .awaiting key step (.start 10 2 time cancelling) false

def goOn (key : CandleKey) (time : ℚ) (cancelling : ℕ) : CandleStep → WithTimeout.Answer Unit Unit → CandleCall
  | .subscribeCandle, .returned _ => .collecting key .subscribeCandle
  | .subscribeCandle, .cancelledError => .idle
  -- any other failure is an `Exception`, and the symbol is subscribed to in the generic way
  | .subscribeCandle, _ => start key .subscribe time cancelling
  | .subscribe, .returned _ => .collecting key .subscribeFallback
  | .subscribe, _ => .idle
  | .unsubscribe _, _ => .idle

def isCancel : WithTimeout.Signal Unit Unit → Bool
  | .cancel => true
  | _ => false

def step (api : CandleApi) (s : CandleFeed) : Event → Option CandleFeed
  | .request id key time cancelling => match s.call id with
    | .idle =>
      some (s.setCall id (start key (if api.recognized then .subscribeCandle else .subscribe) time cancelling))
    | _ => none
  | .deliver id => match s.call id with
    | .awaiting key step call false => some { s.setCall id (.awaiting key step call true) with
        subscribed := (message api key step).apply s.subscribed }
    | _ => none
  | .signal id time signal => match s.call id with
    | .awaiting key step call sent =>
      -- an operation returns once its message is out
      if signal = .ends (.returned ()) ∧ sent = false then none
      else (call.step (time, signal)).map fun call => match call.phase with
        | .done answer =>
          { s.setCall id (goOn key call.now call.cancelling step answer) with
            abandoned :=
              if isCancel signal ∧ sent = false then s.abandoned ++ [message api key step] else s.abandoned }
        | _ => s.setCall id (.awaiting key step call sent)
    | _ => none
  | .collected id time cancelling => match s.call id with
    | .collecting key via => some (s.setCall id (start key (.unsubscribe via) time cancelling))
    | _ => none
  | .late i => s.abandoned[i]?.map fun message =>
      { s with subscribed := message.apply s.subscribed, abandoned := s.abandoned.eraseIdx i }

end CandleFeed

end OptionsModel

namespace OptionsProof.CandleSubscriptions

open Kit OptionsModel OptionsModel.CandleFeed

def keyOf : CandleCall → Option CandleKey
  | .idle => none
  | .awaiting key _ _ _ | .collecting key _ => some key

def owed : CandleCall → Option String
  | .idle => none
  | .awaiting key .subscribeCandle _ _ => some (key.wire .subscribeCandle)
  | .awaiting key .subscribe _ _ => some (key.wire .subscribeFallback)
  | .awaiting key (.unsubscribe via) _ _ | .collecting key via => some (key.wire via)

/-- Every subscription on the connection is that of a call which is still to end it. -/
def Answered (s : CandleFeed) : Prop := ∀ wire ∈ s.subscribed, ∃ id, owed (s.call id) = some wire

/-- A symbol is requested once at a time, and not again once a request for it was cancelled in the middle. -/
def Apart (s : CandleFeed) : Event → Prop
  | .request _ key _ _ =>
    (∀ id other, keyOf (s.call id) = some other → ∀ via via', key.wire via ≠ other.wire via') ∧
      ∀ message ∈ s.abandoned, ∀ via, message.wire ≠ key.wire via
  | _ => True

def Matches (api : CandleApi) (via : SubscribedVia) : Prop :=
  via = .subscribeFallback ∨ api.unsubscribeCandle = true

/-- A subscription that is out is confirmed in time, and one that ends is ended by a message that is out and fits. -/
def Settled (api : CandleApi) (step : CandleStep) (sent : Bool) (answer : WithTimeout.Answer Unit Unit) : Prop :=
  match step with
  | .unsubscribe via => sent = true ∧ Matches api via
  | _ => sent = true → answer = .returned ()

def Tidy (api : CandleApi) (s : CandleFeed) : Event → Prop
  | .signal id time signal => match s.call id with
    | .awaiting _ step call sent => ∀ after answer, call.step (time, signal) = some after →
        after.phase = .done answer → Settled api step sent answer
    | _ => True
  | .late i => ∀ wire, s.abandoned[i]? ≠ some (.add wire)
  | _ => True

def Stands (api : CandleApi) (subscribed : Finset String) : CandleCall → Prop
  | .idle => True
  | .awaiting key .subscribeCandle _ sent => key.wire .subscribeCandle ∈ subscribed ↔ sent = true
  | .awaiting key .subscribe _ sent => key.wire .subscribeFallback ∈ subscribed ↔ sent = true
  | .awaiting key (.unsubscribe via) _ sent => key.wire via ∈ subscribed ↔ ¬ (sent = true ∧ Matches api via)
  | .collecting key via => key.wire via ∈ subscribed

structure Inside (api : CandleApi) (s : CandleFeed) : Prop where
  apart : ∀ id other key key', id ≠ other → keyOf (s.call id) = some key → keyOf (s.call other) = some key' →
    ∀ via via', key.wire via ≠ key'.wire via'
  abandoned : ∀ message ∈ s.abandoned, ∀ id key, keyOf (s.call id) = some key → ∀ via, message.wire ≠ key.wire via
  stands : ∀ id, Stands api s.subscribed (s.call id)

variable {api : CandleApi} {s t : CandleFeed} {id : ℕ} {key : CandleKey}

theorem wire_ne (key : CandleKey) : key.wire .subscribeCandle ≠ key.wire .subscribeFallback := by
  intro same
  have lengths := congrArg String.length same
  simp only [CandleKey.wire, wireSymbol, String.length_append] at lengths
  have long : ",tho=true\x7d".length = 10 := by decide
  have short : "\x7d".length = 1 := by decide
  omega

theorem keyOf_of_owed {call : CandleCall} {wire : String} (owes : owed call = some wire) :
    ∃ key via, keyOf call = some key ∧ wire = key.wire via := by
  unfold owed at owes
  split at owes <;> cases owes
  · exact ⟨_, _, rfl, rfl⟩
  · exact ⟨_, _, rfl, rfl⟩
  · exact ⟨_, _, rfl, rfl⟩
  · exact ⟨_, _, rfl, rfl⟩

theorem message_wire (api : CandleApi) (key : CandleKey) (step : CandleStep) :
    ∃ via, (message api key step).wire = key.wire via := by
  cases step with
  | unsubscribe via => cases via <;> exact ⟨_, rfl⟩
  | _ => exact ⟨_, rfl⟩

theorem mem_apply {subscribed : Finset String} {message : Message} {wire : String} (differs : message.wire ≠ wire) :
    wire ∈ message.apply subscribed ↔ wire ∈ subscribed := by
  cases message with
  | add other => exact (Finset.mem_insert).trans (or_iff_right (Ne.symm differs))
  | remove other => exact (Finset.mem_erase).trans (and_iff_right (Ne.symm differs))

theorem apply_cases {subscribed : Finset String} {message : Message} {wire : String}
    (member : wire ∈ message.apply subscribed) : wire ∈ subscribed ∨ message = .add wire := by
  cases message with
  | add other =>
    rcases Finset.mem_insert.mp member with rfl | before
    · exact .inr rfl
    · exact .inl before
  | remove other => exact .inl (Finset.mem_of_mem_erase member)

theorem Stands.apply {subscribed : Finset String} {call : CandleCall} {message : Message}
    (stands : Stands api subscribed call)
    (foreign : ∀ key, keyOf call = some key → ∀ via, message.wire ≠ key.wire via) :
    Stands api (message.apply subscribed) call := by
  cases call with
  | idle => trivial
  | collecting key via => exact (mem_apply (foreign key rfl via)).mpr stands
  | awaiting key step call sent =>
    cases step with
    | subscribeCandle => exact (mem_apply (foreign key rfl _)).trans stands
    | subscribe => exact (mem_apply (foreign key rfl _)).trans stands
    | unsubscribe via => exact (mem_apply (foreign key rfl via)).trans stands

theorem update_cases (call : ℕ → CandleCall) (id : ℕ) (next : CandleCall) (other : ℕ) :
    other = id ∧ Function.update call id next other = next ∨
      other ≠ id ∧ Function.update call id next other = call other := by
  by_cases same : other = id
  · subst same
    exact .inl ⟨rfl, Function.update_self ..⟩
  · exact .inr ⟨same, Function.update_of_ne same ..⟩

theorem key_cases {call : ℕ → CandleCall} {next : CandleCall} {other : ℕ}
    (mine : keyOf (Function.update call id next other) = some key) :
    other = id ∧ keyOf next = some key ∨ other ≠ id ∧ keyOf (call other) = some key := by
  rcases update_cases call id next other with ⟨same, moved⟩ | ⟨away, stays⟩
  · exact .inl ⟨same, moved ▸ mine⟩
  · exact .inr ⟨away, stays ▸ mine⟩

theorem Inside.moves {next : CandleCall} (subscribed : Finset String) {abandoned : List Message}
    (inside : Inside api s) (same : ∀ key, keyOf next = some key → keyOf (s.call id) = some key)
    (others : ∀ other ≠ id, Stands api subscribed (s.call other)) (own : Stands api subscribed next)
    (left : ∀ message ∈ abandoned, message ∈ s.abandoned ∨
      keyOf next = none ∧ ∃ key via, keyOf (s.call id) = some key ∧ message.wire = key.wire via) :
    Inside api { s.setCall id next with subscribed := subscribed, abandoned := abandoned } := by
  have before {other : ℕ} {key : CandleKey} (mine : keyOf (Function.update s.call id next other) = some key) :
      keyOf (s.call other) = some key := by
    rcases key_cases mine with ⟨rfl, moved⟩ | ⟨-, stays⟩
    · exact same key moved
    · exact stays
  constructor
  · intro one other key key' differs mine yours
    exact inside.apart one other key key' differs (before mine) (before yours)
  · intro message member other key mine via
    rcases left message member with earlier | ⟨ended, key', via', there, about⟩
    · exact inside.abandoned message earlier other key (before mine) via
    · rcases key_cases mine with ⟨-, moved⟩ | ⟨away, stays⟩
      · cases ended.symm.trans moved
      · rw [about]
        exact inside.apart id other key' key (Ne.symm away) there stays via' via
  · intro other
    show Stands api subscribed (Function.update s.call id next other)
    rcases update_cases s.call id next other with ⟨-, moved⟩ | ⟨away, stays⟩
    · rw [moved]
      exact own
    · rw [stays]
      exact others other away

theorem Inside.owner {other : ℕ} {via : SubscribedVia} (inside : Inside api s) (mine : keyOf (s.call id) = some key)
    (owes : owed (s.call other) = some (key.wire via)) : other = id := by
  obtain ⟨key', via', yours, same⟩ := keyOf_of_owed owes
  by_contra away
  exact inside.apart id other key key' (Ne.symm away) mine yours via via' same

theorem Inside.answered_iff {next : CandleCall} {via : SubscribedVia} {abandoned : List Message}
    (inside : Inside api s) (answered : Answered s) (mine : keyOf (s.call id) = some key)
    (owes : owed (s.call id) = some (key.wire via)) (given : owed next ≠ some (key.wire via)) :
    Answered { s.setCall id next with abandoned := abandoned } ↔ key.wire via ∉ s.subscribed := by
  constructor
  · intro after member
    obtain ⟨other, still⟩ := after _ member
    have still : owed (Function.update s.call id next other) = some (key.wire via) := still
    rcases update_cases s.call id next other with ⟨-, moved⟩ | ⟨away, stays⟩
    · exact given (moved ▸ still)
    · exact away (inside.owner mine (stays ▸ still))
  · intro gone wire member
    obtain ⟨other, owner⟩ := answered wire member
    refine ⟨other, ?_⟩
    show owed (Function.update s.call id next other) = some wire
    rcases update_cases s.call id next other with ⟨rfl, -⟩ | ⟨-, stays⟩
    · rw [owes] at owner
      cases owner
      exact absurd member gone
    · rw [stays, owner]

theorem Answered.moves {next : CandleCall} (answered : Answered s) (abandoned : List Message)
    (same : owed next = owed (s.call id)) : Answered { s.setCall id next with abandoned := abandoned } := by
  intro wire member
  obtain ⟨other, owner⟩ := answered wire member
  refine ⟨other, ?_⟩
  show owed (Function.update s.call id next other) = some wire
  rcases update_cases s.call id next other with ⟨rfl, moved⟩ | ⟨-, stays⟩
  · rw [moved, same, owner]
  · rw [stays, owner]

theorem Inside.absent {via : SubscribedVia} (inside : Inside api s) (answered : Answered s)
    (mine : keyOf (s.call id) = some key) (owes : owed (s.call id) ≠ some (key.wire via)) :
    key.wire via ∉ s.subscribed := by
  intro member
  obtain ⟨other, owner⟩ := answered _ member
  obtain rfl := inside.owner mine owner
  exact owes owner

theorem Inside.request (step : CandleStep) (call : WithTimeout Unit Unit) {time : ℚ} {cancelling : ℕ}
    (inside : Inside api s) (answered : Answered s) (idle : s.call id = .idle)
    (apart : Apart s (.request id key time cancelling)) (first : step = .subscribeCandle ∨ step = .subscribe) :
    Inside api (s.setCall id (.awaiting key step call false)) ∧
      Answered (s.setCall id (.awaiting key step call false)) := by
  have new (via : SubscribedVia) : key.wire via ∉ s.subscribed := by
    intro member
    obtain ⟨other, owner⟩ := answered _ member
    obtain ⟨key', via', yours, same⟩ := keyOf_of_owed owner
    exact apart.1 other key' yours via via' same
  refine ⟨⟨?_, ?_, ?_⟩, ?_⟩
  · intro one other key' key'' differs mine yours via via'
    rcases key_cases mine with ⟨rfl, fresh⟩ | ⟨-, before⟩
    · cases fresh
      rcases key_cases yours with ⟨rfl, -⟩ | ⟨-, held⟩
      · exact absurd rfl differs
      · exact apart.1 other key'' held via via'
    · rcases key_cases yours with ⟨rfl, fresh⟩ | ⟨-, held⟩
      · cases fresh
        exact Ne.symm (apart.1 one key' before via' via)
      · exact inside.apart one other key' key'' differs before held via via'
  · intro message member other key' mine via
    rcases key_cases mine with ⟨-, fresh⟩ | ⟨-, before⟩
    · cases fresh
      exact apart.2 message member via
    · exact inside.abandoned message member other key' before via
  · intro other
    show Stands api s.subscribed (Function.update s.call id _ other)
    rcases update_cases s.call id (.awaiting key step call false) other with ⟨-, moved⟩ | ⟨-, stays⟩
    · rw [moved]
      rcases first with rfl | rfl
      · exact iff_of_false (new _) Bool.false_ne_true
      · exact iff_of_false (new _) Bool.false_ne_true
    · rw [stays]
      exact inside.stands other
  · intro wire member
    obtain ⟨other, owner⟩ := answered wire member
    refine ⟨other, ?_⟩
    show owed (Function.update s.call id _ other) = some wire
    rcases update_cases s.call id (.awaiting key step call false) other with ⟨rfl, -⟩ | ⟨-, stays⟩
    · rw [idle] at owner
      cases owner
    · rw [stays, owner]

theorem Inside.deliver {step : CandleStep} {call : WithTimeout Unit Unit} (inside : Inside api s)
    (answered : Answered s) (there : s.call id = .awaiting key step call false) :
    let t : CandleFeed := { s.setCall id (.awaiting key step call true) with
      subscribed := (message api key step).apply s.subscribed }
    Inside api t ∧ Answered t := by
  have mine : keyOf (s.call id) = some key := by rw [there]; rfl
  have own := inside.stands id
  rw [there] at own
  obtain ⟨via, about⟩ := message_wire api key step
  have others (other : ℕ) (away : other ≠ id) :
      Stands api ((message api key step).apply s.subscribed) (s.call other) :=
    (inside.stands other).apply fun key' yours via' => by
      rw [about]
      exact inside.apart id other key key' (Ne.symm away) mine yours via via'
  have stays : Answered (s.setCall id (.awaiting key step call true)) :=
    answered.moves s.abandoned (by rw [there]; cases step <;> rfl)
  refine ⟨inside.moves _ (fun key' yours => by rw [mine]; exact yours) others ?_ fun message member =>
    .inl member, ?_⟩
  · cases step with
    | subscribeCandle => exact iff_of_true (Finset.mem_insert_self _ _) rfl
    | subscribe => exact iff_of_true (Finset.mem_insert_self _ _) rfl
    | unsubscribe via =>
      have on : key.wire via ∈ s.subscribed := own.mpr fun premise => Bool.false_ne_true premise.1
      cases via with
      | subscribeFallback =>
        exact iff_of_false (Finset.notMem_erase _ _) (not_not_intro ⟨rfl, .inl rfl⟩)
      | subscribeCandle =>
        cases offered : api.unsubscribeCandle with
        | true =>
          simp only [Stands, message, offered, if_true]
          exact iff_of_false (Finset.notMem_erase _ _) (not_not_intro ⟨trivial, .inr offered⟩)
        | false =>
          simp only [Stands, message, offered, Bool.false_eq_true, if_false]
          refine iff_of_true (Finset.mem_erase.mpr ⟨wire_ne key, on⟩) fun matched => ?_
          rcases matched.2 with generic | unsubscribes
          · cases generic
          · cases offered.symm.trans unsubscribes
  · intro wire member
    rcases apply_cases member with before | adds
    · exact stays wire before
    · refine ⟨id, ?_⟩
      show owed (Function.update s.call id _ id) = some wire
      rw [Function.update_self]
      cases step with
      | unsubscribe via => cases via <;> cases adds
      | _ =>
        cases adds
        rfl

theorem answer_cases {call after : WithTimeout Unit Unit} {time : ℚ} {signal : WithTimeout.Signal Unit Unit}
    {answer : WithTimeout.Answer Unit Unit} (taken : call.step (time, signal) = some after)
    (ended : after.phase = .done answer) :
    (answer = .returned () → signal = .ends (.returned ())) ∧
      (isCancel signal = true → answer = .cancelledError) := by
  obtain ⟨-, -, received⟩ := WithTimeout.step_some taken
  cases signal with
  | ends outcome =>
    refine ⟨fun returned => ?_, fun cancels => absurd cancels Bool.false_ne_true⟩
    subst returned
    simp only [WithTimeout.receive] at received
    split at received
    · cases received
      cases outcome with
      | returned => rfl
      | cancelled =>
        simp only [WithTimeout.answer, WithTimeout.Phase.done.injEq] at ended
        split at ended <;> cases ended
      | _ => cases ended
    · cases received
      cases ended
    · cases received
      cases ended
    · cases received
  | timer =>
    simp only [WithTimeout.receive] at received
    split at received <;> cases received <;> cases ended
  | cancel =>
    have cancelled : answer = .cancelledError := by
      simp only [WithTimeout.receive] at received
      split at received
      · cases received
        cases ended
        rfl
      · next there =>
        cases received
        cases there.symm.trans ended
      · next there =>
        cases received
        cases there.symm.trans ended
      · cases received
    refine ⟨fun returned => ?_, fun _ => cancelled⟩
    cases cancelled.symm.trans returned

def leaves (api : CandleApi) (s : CandleFeed) (key : CandleKey) (step : CandleStep) (sent : Bool)
    (signal : WithTimeout.Signal Unit Unit) : List Message :=
  if isCancel signal ∧ sent = false then s.abandoned ++ [message api key step] else s.abandoned

theorem goOn_cancelled (key : CandleKey) (time : ℚ) (cancelling : ℕ) (step : CandleStep) :
    goOn key time cancelling step .cancelledError = .idle := by
  cases step <;> rfl

theorem keyOf_goOn {time : ℚ} {cancelling : ℕ} {step : CandleStep} {answer : WithTimeout.Answer Unit Unit}
    {other : CandleKey} (mine : keyOf (goOn key time cancelling step answer) = some other) : other = key := by
  cases step with
  | subscribeCandle => cases answer <;> cases mine <;> rfl
  | subscribe =>
    cases answer <;> cases mine
    rfl
  | unsubscribe => cases mine

theorem Inside.goesOn {step : CandleStep} {sent : Bool} {call after : WithTimeout Unit Unit} {time : ℚ}
    {signal : WithTimeout.Signal Unit Unit} {answer : WithTimeout.Answer Unit Unit} (inside : Inside api s)
    (there : s.call id = .awaiting key step call sent) (taken : call.step (time, signal) = some after)
    (ended : after.phase = .done answer)
    (own : Stands api s.subscribed (goOn key after.now after.cancelling step answer)) :
    Inside api { s.setCall id (goOn key after.now after.cancelling step answer) with
      abandoned := leaves api s key step sent signal } := by
  have mine : keyOf (s.call id) = some key := by rw [there]; rfl
  refine inside.moves s.subscribed (fun other goesOn => ?_) (fun other _ => inside.stands other) own
    fun message member => ?_
  · rw [keyOf_goOn goesOn, mine]
  · unfold leaves at member
    split at member
    · next left =>
      rcases List.mem_append.mp member with before | last
      · exact .inl before
      · obtain ⟨via, about⟩ := message_wire api key step
        refine .inr ⟨?_, key, via, mine, by rw [List.mem_singleton.mp last, about]⟩
        rw [(answer_cases taken ended).2 left.1, goOn_cancelled]
        rfl
    · exact .inl member

theorem Inside.signal {step : CandleStep} {sent : Bool} {call after : WithTimeout Unit Unit} {time : ℚ}
    {signal : WithTimeout.Signal Unit Unit} {answer : WithTimeout.Answer Unit Unit} (inside : Inside api s)
    (answered : Answered s) (there : s.call id = .awaiting key step call sent)
    (confirmed : ¬ (signal = .ends (.returned ()) ∧ sent = false)) (taken : call.step (time, signal) = some after)
    (ended : after.phase = .done answer) :
    let t : CandleFeed := { s.setCall id (goOn key after.now after.cancelling step answer) with
      abandoned := leaves api s key step sent signal }
    (Answered t ↔ Settled api step sent answer) ∧ (Answered t → Inside api t) := by
  have mine : keyOf (s.call id) = some key := by rw [there]; rfl
  have own := inside.stands id
  rw [there] at own
  have out (returned : answer = .returned ()) : sent = true := by
    by_contra unsent
    exact confirmed ⟨(answer_cases taken ended).1 returned, Bool.eq_false_of_not_eq_true unsent⟩
  have goesOn := inside.goesOn there taken ended
  have given {via : SubscribedVia} (next : CandleCall) (owes : owed (s.call id) = some (key.wire via))
      (gives : owed next ≠ some (key.wire via)) :
      Answered { s.setCall id next with abandoned := leaves api s key step sent signal } ↔
        key.wire via ∉ s.subscribed :=
    inside.answered_iff answered mine owes gives
  have failed {via : SubscribedVia} (stands : key.wire via ∈ s.subscribed ↔ sent = true)
      (notReturned : answer ≠ .returned ()) :
      key.wire via ∉ s.subscribed ↔ (sent = true → answer = .returned ()) := by
    rw [stands]
    exact ⟨fun unsent out => absurd out unsent, fun settled out => notReturned (settled out)⟩
  cases step with
  | subscribeCandle =>
    have owes : owed (s.call id) = some (key.wire .subscribeCandle) := by rw [there]; rfl
    have new : key.wire .subscribeFallback ∉ s.subscribed :=
      inside.absent answered mine (by rw [owes]; exact fun same => wire_ne key (Option.some.inj same))
    have again (cancelling : ℕ) :
        owed (start key .subscribe after.now cancelling) ≠ some (key.wire .subscribeCandle) :=
      fun same => wire_ne key (Option.some.inj same).symm
    cases answer with
    | returned =>
      exact ⟨iff_of_true (answered.moves _ (by rw [owes]; rfl)) fun _ => rfl, fun _ => goesOn (own.mpr (out rfl))⟩
    | cancelledError => exact ⟨(given .idle owes nofun).trans (failed own nofun), fun _ => goesOn trivial⟩
    | _ =>
      exact ⟨(given _ owes (again _)).trans (failed own nofun), fun _ => goesOn (iff_of_false new Bool.false_ne_true)⟩
  | subscribe =>
    have owes : owed (s.call id) = some (key.wire .subscribeFallback) := by rw [there]; rfl
    cases answer with
    | returned =>
      exact ⟨iff_of_true (answered.moves _ (by rw [owes]; rfl)) fun _ => rfl, fun _ => goesOn (own.mpr (out rfl))⟩
    | _ => exact ⟨(given .idle owes nofun).trans (failed own nofun), fun _ => goesOn trivial⟩
  | unsubscribe via =>
    have owes : owed (s.call id) = some (key.wire via) := by rw [there]; rfl
    exact ⟨(given .idle owes nofun).trans ((not_congr own).trans not_not), fun _ => goesOn trivial⟩

theorem Inside.step {e : Event} (inside : Inside api s) (answered : Answered s) (apart : Apart s e)
    (taken : CandleFeed.step api s e = some t) : (Answered t ↔ Tidy api s e) ∧ (Answered t → Inside api t) := by
  cases e with
  | request id key time cancelling =>
    simp only [CandleFeed.step] at taken
    split at taken
    · next idle =>
      cases taken
      obtain ⟨kept, still⟩ := inside.request (if api.recognized then .subscribeCandle else .subscribe)
        (.start 10 2 time cancelling) answered idle apart (by split <;> simp)
      exact ⟨iff_of_true still trivial, fun _ => kept⟩
    · cases taken
  | deliver id =>
    simp only [CandleFeed.step] at taken
    split at taken
    · next key step call there =>
      cases taken
      obtain ⟨kept, still⟩ := inside.deliver answered there
      exact ⟨iff_of_true still trivial, fun _ => kept⟩
    · cases taken
  | collected id time cancelling =>
    simp only [CandleFeed.step] at taken
    split at taken
    · next key via there =>
      cases taken
      have own := inside.stands id
      rw [there] at own
      refine ⟨iff_of_true (answered.moves s.abandoned (by rw [there]; rfl)) trivial, fun _ => ?_⟩
      refine inside.moves s.subscribed (fun other mine => ?_) (fun other _ => inside.stands other) ?_
        fun message member => .inl member
      · rw [there]
        exact mine
      · exact iff_of_true own fun premise => Bool.false_ne_true premise.1
    · cases taken
  | signal id time signal =>
    simp only [CandleFeed.step] at taken
    split at taken
    · next key step call sent there =>
      split at taken
      · cases taken
      · next confirmed =>
        obtain ⟨after, received, rfl⟩ := Option.map_eq_some_iff.mp taken
        simp only [Tidy, there]
        cases ended : after.phase with
        | done answer =>
          obtain ⟨tidy, kept⟩ := inside.signal answered there confirmed received ended
          refine ⟨tidy.trans ⟨fun settled other answer' received' ended' => ?_, fun all => ?_⟩, kept⟩
          case refine_2 => exact all after answer received ended
          obtain rfl := Option.some.inj (received.symm.trans received')
          obtain rfl : answer = answer' := by simpa [ended] using ended'
          exact settled
        | _ =>
          have own := inside.stands id
          rw [there] at own
          refine ⟨iff_of_true (answered.moves s.abandoned (by rw [there]; cases step <;> rfl)) ?_, fun _ => ?_⟩
          · intro other answer received' ended'
            obtain rfl := Option.some.inj (received.symm.trans received')
            cases ended.symm.trans ended'
          · refine inside.moves s.subscribed (fun other mine => ?_) (fun other _ => inside.stands other) ?_
              fun message member => .inl member
            · rw [there]
              exact mine
            · cases step <;> exact own
    · cases taken
  | late i =>
    simp only [CandleFeed.step] at taken
    obtain ⟨message, left, rfl⟩ := Option.map_eq_some_iff.mp taken
    have foreign := inside.abandoned message (List.mem_of_getElem? left)
    cases message with
    | add wire =>
      have unanswered : ¬ Answered { s with
          subscribed := (Message.add wire).apply s.subscribed, abandoned := s.abandoned.eraseIdx i } := by
        intro answered
        obtain ⟨id, owner⟩ := answered wire (Finset.mem_insert_self _ _)
        obtain ⟨key, via, mine, same⟩ := keyOf_of_owed owner
        exact foreign id key mine via same
      exact ⟨iff_of_false unanswered fun tidy => tidy wire left, fun answered => absurd answered unanswered⟩
    | remove wire =>
      refine ⟨iff_of_true (fun other member => answered other (Finset.mem_of_mem_erase member)) ?_, fun _ =>
        ⟨inside.apart, ?_, ?_⟩⟩
      · intro other adds
        cases left.symm.trans adds
      · exact fun message member => inside.abandoned message (List.mem_of_mem_eraseIdx member)
      · exact fun id => (inside.stands id).apply (foreign id)

/-- Candle subscriptions never outlive the calls that made them exactly if every subscription that goes out is
confirmed in time and every one made is ended by a message that goes out and fits it. -/
theorem subscriptions_answered_iff {events : List Event} (apart : Guarded (step api) Apart {} events)
    (reached : run (step api) {} events = some s) :
    ((∀ past rest u, events = past ++ rest → run (step api) {} past = some u → Answered u) ↔
      Guarded (step api) (Tidy api) {} events) ∧
        (Guarded (step api) (Tidy api) {} events → (∀ id, s.call id = .idle) → s.subscribed = ∅) := by
  have start : Inside api {} := ⟨nofun, nofun, fun _ => trivial⟩
  have criterion : (∀ past rest u, events = past ++ rest → run (step api) {} past = some u → Answered u) ↔
      Guarded (step api) (Tidy api) {} events :=
    run_always_guarded_iff (fun _ _ _ inside answered apart taken => inside.step answered apart taken) start nofun
      apart reached
  refine ⟨criterion, fun tidy idle => Finset.eq_empty_of_forall_notMem fun wire member => ?_⟩
  obtain ⟨id, owner⟩ := criterion.mpr tidy events [] s (List.append_nil _).symm reached wire member
  rw [idle id] at owner
  cases owner

def installed : CandleApi := ⟨some ["symbols", "interval", "start_time"], true⟩

/-- `subscribe_candle` is confirmed only after its ten seconds, when the call has already asked to cancel it. -/
def confirmedLate : List Event :=
  [.request 0 ⟨"SPX", "1m"⟩ 0 0, .deliver 0, .signal 0 10 .timer, .signal 0 11 (.ends (.returned ())), .deliver 0,
    .signal 0 12 (.ends (.returned ())), .collected 0 20 0, .deliver 0, .signal 0 21 (.ends (.returned ()))]

theorem subscriptions_answered_iff_late : ∃ s, run (step installed) {} confirmedLate = some s ∧
    s.subscribed = {"SPX\x7b=1m,tho=true\x7d"} ∧
      ((∀ past rest u, confirmedLate = past ++ rest → run (step installed) {} past = some u → Answered u) ↔
        Guarded (step installed) (Tidy installed) {} confirmedLate) := by
  have apart : Guarded (step installed) Apart {} confirmedLate := by
    refine .cons ⟨nofun, nofun⟩ rfl (guarded_of_forall (fun e member s => ?_) _)
    cases e with
    | request => simp at member
    | _ => trivial
  have ends : (run (step installed) {} confirmedLate).map CandleFeed.subscribed =
      some {"SPX\x7b=1m,tho=true\x7d"} := by
    decide +kernel
  obtain ⟨s, reached, left⟩ := Option.map_eq_some_iff.mp ends
  exact ⟨s, reached, left, (subscriptions_answered_iff apart reached).1⟩

end OptionsProof.CandleSubscriptions
