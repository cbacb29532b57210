import OulaServer.EventLoop.Basic
import OulaServer.Lib.Run
import OulaServer.TcpConnection.Spec

/-!
# A connection on its loop

One `TcpConnection` with its `EventLoop`, the timers of `forceCloseWithDelay`, the user code on the loop's
thread and the calls from other threads. The loop's thread runs one function of the connection after the
other: the callbacks of `HandleEvent`, the callback of a timer, or a functor. Where a function calls user
code, `rest` holds what is left of it, and user code may call into the connection before it goes on.

A call from another thread is two steps: its check and set of the state, and the push of its functor.
`log` records what the connection did, for the statements about runs.
-/

namespace OulaServer

namespace ConnLoop

open TcpConnection

/-- What stands in `activeChanels_`: the connection's channel with its received events, the channel of the
loop's timers, or another one. -/
inductive Active where
  | channel (revents : Events)
  | timerfd
  | other
  deriving DecidableEq, Repr

def Active.isChannel : Active → Bool
  | channel _ => true
  | timerfd | other => false

inductive Entry where
  -- `send` accepted a message
  | sent (data : Int) (len : Nat)
  | effect (e : Effect)
  | user (r : Rest)
  deriving DecidableEq, Repr

structure State where
  conn : TcpConnection
  loop : EventLoop Active ConnFunctor
  /-- The rest of the `HandleEvent` that runs on the connection's channel. -/
  callbacks : List EventCallback
  /-- The rest of the function of the connection that runs. -/
  rest : List Rest
  /-- The number of timers that wait to call `forceCloseInLoop`. -/
  timers : Nat
  /-- Functors that other threads have yet to push. -/
  inflight : List ConnFunctor
  log : List Entry

inductive Event where
  | enterLoop
  | poll (active : List Active)
  | handleEvent
  | handleCallback (r : Option (List UInt8)) (w : WriteResult)
  -- the callback of an expired timer
  | timerCallback
  | swapFunctors
  | callFunctor (mem : Memory) (w : WriteResult)
  | endFunctors
  -- the next of `rest`
  | userCode
  -- a call by user code on the loop's thread
  | call (c : Call) (mem : Memory) (w : WriteResult)
  -- user code takes bytes out of `inputBuffer_`
  | retrieve (len : Nat)
  -- `ConnectEstablished` called directly on the loop's thread
  | establish
  | otherCall (c : Call)
  | otherPush (i : Nat)

/-- A new connection; its owner is about to hand `ConnectEstablished` to the loop. -/
def init (c : TcpConnection) : State := ⟨c, EventLoop.new, [], [], 0, [.connectEstablished], []⟩

def perform (s : State) (e : Effect) : State :=
  let s := { s with log := s.log ++ [.effect e] }
  match e with
  | .queueInLoop f => { s with loop := s.loop.queueInLoop true f }
  | .addTimer => { s with timers := s.timers + 1 }
  | .update | .write _ | .shutdownWrite => s

/-- A function of the connection returned up to its first call of user code. -/
def finish (s : State) (o : Outcome) : State :=
  o.effects.foldl perform { s with conn := o.conn, rest := o.rest ++ s.rest }

/-- The log entry of a call that was not turned down. -/
def accept : Call → List Entry
  | .send data len => [.sent data len]
  | .shutdown | .forceClose | .forceCloseWithDelay => []

def step (s : State) : Event → Except Abort State
  | .enterLoop => .ok { s with loop := s.loop.enterPoll }
  | .poll active => .ok { s with loop := s.loop.dispatch active }
  | .handleEvent =>
      match s.loop.phase with
      | .dispatching (.channel revents :: active) =>
          .ok { s with loop := s.loop.dispatch active, callbacks := handleEvent revents }
      | .dispatching (.timerfd :: active) | .dispatching (.other :: active) =>
          .ok { s with loop := s.loop.dispatch active }
      | _ => .ok s
  | .handleCallback r w =>
      match s.callbacks with
      | cb :: callbacks => do
          let o ← s.conn.handleCallback true r w cb
          return finish { s with callbacks } o
      | [] => .ok s
  | .timerCallback => do
      let o ← s.conn.forceCloseInLoop true
      return finish { s with timers := s.timers - 1 } o
  | .swapFunctors => .ok { s with loop := s.loop.swapFunctors }
  | .callFunctor mem w =>
      match s.loop.phase with
      | .calling (f :: functors) => do
          let o ← s.conn.runFunctor true mem w f
          return finish { s with loop := s.loop.callRest functors } o
      | _ => .ok s
  | .endFunctors => .ok { s with loop := s.loop.endFunctors }
  | .userCode =>
      match s.rest with
      | .closeCallback :: rest =>
          -- the owner of the connection will have it destroyed
          .ok { s with
            rest
            log := s.log ++ [.user .closeCallback]
            inflight := s.inflight ++ [.connectDestoryed] }
      | r :: rest => .ok { s with rest, log := s.log ++ [.user r] }
      | [] => .ok s
  | .call c mem w =>
      match s.conn.call c with
      | (conn, some (.runInLoop f)) => do
          let o ← conn.runFunctor true mem w f
          return finish { s with log := s.log ++ accept c } o
      | (conn, some (.queueInLoop f)) => .ok { s with conn, loop := s.loop.queueInLoop true f }
      | (conn, none) => .ok { s with conn }
  | .retrieve len => do
      let inputBuffer ← s.conn.inputBuffer.retrieve len
      return { s with conn := { s.conn with inputBuffer } }
  | .establish => do
      let o ← s.conn.connectEstablished true
      return finish { s with inflight := s.inflight.erase .connectEstablished } o
  | .otherCall c =>
      match s.conn.call c with
      | (conn, some (.runInLoop f)) | (conn, some (.queueInLoop f)) =>
          .ok { s with conn, inflight := s.inflight ++ [f], log := s.log ++ accept c }
      | (conn, none) => .ok { s with conn }
  | .otherPush i =>
      match s.inflight[i]? with
      | some f => .ok { s with loop := s.loop.queueInLoop false f, inflight := s.inflight.eraseIdx i }
      | none => .ok s

/-- What `poll` can report for the connection's interest. -/
def Reported (interest : Events) : Active → Prop
  | .channel revents => interest ≠ kNoneEvent ∧ Reportable interest revents
  | .timerfd | .other => True

instance (interest : Events) : (a : Active) → Decidable (Reported interest a)
  | .channel _ => inferInstanceAs (Decidable (_ ∧ _))
  | .timerfd | .other => .isTrue trivial

/-- When each step can be taken. User code of the loop's thread runs whenever it does not poll. -/
def Enabled (s : State) : Event → Prop
  | .enterLoop => s.loop.phase = .beforeLoop
  | .poll active => s.loop.phase = .polling ∧ (active.filter Active.isChannel).length ≤ 1 ∧
      ∀ a ∈ active, Reported s.conn.channel.events a
  | .handleEvent => s.rest = [] ∧ s.callbacks = [] ∧ s.loop.phase.nextChannel ≠ none
  | .handleCallback _ _ => s.rest = [] ∧ s.callbacks ≠ []
  | .timerCallback => s.rest = [] ∧ s.callbacks = [] ∧ 0 < s.timers ∧
      s.loop.phase.nextChannel = some .timerfd
  | .swapFunctors => s.rest = [] ∧ s.callbacks = [] ∧ s.loop.phase = .dispatching []
  | .callFunctor _ _ => s.rest = [] ∧ s.loop.phase.nextFunctor ≠ none
  | .endFunctors => s.rest = [] ∧ s.loop.phase = .calling []
  | .userCode => s.rest ≠ []
  | .call _ _ _ => s.loop.phase ≠ .polling
  | .retrieve len => s.loop.phase ≠ .polling ∧ len ≤ s.conn.inputBuffer.readableBytes
  | .establish => s.rest = [] ∧ s.loop.phase ≠ .polling ∧ .connectEstablished ∈ s.inflight
  | .otherCall _ => True
  | .otherPush i => i < s.inflight.length

instance (s : State) : (e : Event) → Decidable (Enabled s e)
  | .enterLoop => inferInstanceAs (Decidable (_ = _))
  | .userCode | .call _ _ _ => inferInstanceAs (Decidable (_ ≠ _))
  | .otherPush _ => inferInstanceAs (Decidable (_ < _))
  | .otherCall _ => .isTrue trivial
  | .poll active => inferInstanceAs (Decidable (_ ∧ _ ∧ ∀ a ∈ active, Reported s.conn.channel.events a))
  | .handleEvent | .swapFunctors | .establish => inferInstanceAs (Decidable (_ ∧ _ ∧ _))
  | .timerCallback => inferInstanceAs (Decidable (_ ∧ _ ∧ _ ∧ _))
  | .handleCallback _ _ | .callFunctor _ _ | .endFunctors | .retrieve _ => inferInstanceAs (Decidable (_ ∧ _))

/-- The functors on their way, in the order in which the loop will call those that are queued. -/
def pending (s : State) : List ConnFunctor := s.loop.queued ++ s.inflight

/-! ### `finish` -/

theorem foldl_perform (effects : List Effect) (s : State) :
    (effects.foldl perform s).conn = s.conn ∧ (effects.foldl perform s).rest = s.rest ∧
      (effects.foldl perform s).callbacks = s.callbacks ∧
      (effects.foldl perform s).inflight = s.inflight ∧
      (effects.foldl perform s).loop.phase = s.loop.phase ∧
      (effects.foldl perform s).loop.queued = s.loop.queued ++ functors effects ∧
      (effects.foldl perform s).log = s.log ++ effects.map .effect := by
  induction effects generalizing s with
  | nil => simp
  | cons e effects ih =>
      obtain ⟨hconn, hrest, hcb, hin, hphase, hqueued, hlog⟩ := ih (perform s e)
      rw [List.foldl_cons, hconn, hrest, hcb, hin, hphase, hqueued, hlog]
      cases e <;> simp [perform, functors_cons, Effect.functor]

variable {s : State} {o : Outcome}

@[simp] theorem finish_conn : (finish s o).conn = o.conn := (foldl_perform _ _).1

@[simp] theorem finish_rest : (finish s o).rest = o.rest ++ s.rest := (foldl_perform _ _).2.1

@[simp] theorem finish_callbacks : (finish s o).callbacks = s.callbacks := (foldl_perform _ _).2.2.1

@[simp] theorem finish_inflight : (finish s o).inflight = s.inflight := (foldl_perform _ _).2.2.2.1

@[simp] theorem finish_phase : (finish s o).loop.phase = s.loop.phase := (foldl_perform _ _).2.2.2.2.1

@[simp] theorem finish_queued : (finish s o).loop.queued = s.loop.queued ++ functors o.effects :=
  (foldl_perform _ _).2.2.2.2.2.1

@[simp] theorem finish_log : (finish s o).log = s.log ++ o.effects.map .effect :=
  (foldl_perform _ _).2.2.2.2.2.2

end ConnLoop

end OulaServer
