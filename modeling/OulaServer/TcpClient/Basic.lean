import OulaServer.Connector.Basic
import OulaServer.EventLoop.Basic
import OulaServer.Lib.Run
import OulaServer.Poller.Epoll
import OulaServer.TcpConnection.Basic

/-!
# `TcpClient`

A client on its loop (`net/TcpClient.cpp`) with its `Connector` and its connections. A connection is named by
`nextConnId_`, which stands for its `TcpConnectionPtr`; the connector's channels are named as in
`OulaServer.Connector.Loop`. All of the client's functions but `connect` are called on the loop's thread.

`refs` counts the references to a connection. A functor of the batch that `handlePendingFunctors` runs lives
until the batch ends, and a timer until `handelRead` does, so that those that were called still count.
-/

namespace OulaServer

namespace TcpClient

/-- Who owns a channel of the loop. -/
inductive Owner where
  | connector (name : Nat)
  | conn (id : Nat)
  deriving DecidableEq, Repr

inductive Functor where
  | conn (id : Nat) (f : ConnFunctor)
  | connector (f : Connector.Functor)
  deriving DecidableEq, Repr

/-- What a timer of the loop calls: `startInLoop` of `Connector::retry`, or `forceCloseInLoop` of
`forceCloseWithDelay`. Both hold a reference to their object. -/
inductive Timer where
  | startInLoop
  | forceCloseInLoop (id : Nat)
  deriving DecidableEq, Repr

inductive Active where
  | channel (owner : Owner) (revents : Events)
  | timerfd
  | other
  deriving DecidableEq, Repr

def Active.owner? : Active → Option Owner
  | channel owner _ => some owner
  | timerfd | other => none

/-- `closeCallback_`: `TcpClient::removeConnection`, or `details::removeConnection` of a destroyed client. -/
inductive CloseCallback where
  | client
  | details
  deriving DecidableEq, Repr

structure Connection where
  tcp : TcpConnection
  closeCallback : CloseCallback
  deriving DecidableEq, Repr

structure World where
  retry : Bool
  enableConnect : Bool
  nextConnId : Nat
  connection : Option Nat
  /-- Whether `writeCompleteCallback_` is set. -/
  writeCompleteCallback : Bool
  connector : Connector
  /-- Whether the client was destroyed. -/
  destroyed : Bool
  conn : Nat → Connection
  loop : EventLoop Active Functor
  poller : EpollPoller Owner
  /-- The rest of the `HandleEvent` that runs. -/
  callbacks : List (Owner × EventCallback)
  /-- The rest of the function of a connection that runs. -/
  rest : List (Nat × Rest)
  timers : List Timer
  /-- Functors that other threads have yet to push. -/
  inflight : List Functor
  /-- The number of sockets that the connector has made. -/
  sockets : Nat
  /-- The functors of the running batch that were called, and the timers of the running `handelRead`. -/
  called : List Functor
  expired : List Timer
  /-- The references that user code holds. -/
  copies : Nat → Nat

inductive Event where
  | enterLoop
  | poll (active : List Active)
  | handleEvent
  -- a callback of a channel: what the socket answers to `readv` and `::write`, its `SO_ERROR` and whether it is
  -- connected to itself
  | handleCallback (r : Option (List UInt8)) (wr : WriteResult) (err : Nat) (isSelfConnect : Bool)
  | timerCallback (i : Nat) (a : Connector.Connect)
  | swapFunctors
  | callFunctor (mem : Memory) (wr : WriteResult) (a : Connector.Connect)
  | endFunctors
  | userCode (a : Connector.Connect)
  -- calls by user code on the loop's thread
  | connect (a : Connector.Connect)
  | disconnect
  | enableRetry
  | call (id : Nat) (c : TcpConnection.Call) (mem : Memory) (wr : WriteResult)
  | retrieve (id : Nat) (len : Nat)
  | destroy
  -- calls on other threads
  | otherConnect
  | otherCall (id : Nat) (c : TcpConnection.Call)
  | otherPush (i : Nat)
  -- user code copies a reference, and drops one
  | copy (id : Nat)
  | drop (id : Nat)

/-- The functor holds a reference to the connection. -/
def Functor.holds (id : Nat) : Functor → Bool
  | conn id' f => id' == id && f.isShared
  | connector _ => false

namespace World

/-- The references to a connection but those of user code. -/
def owners (w : World) (id : Nat) : Nat :=
  (if w.connection = some id then 1 else 0) + (w.loop.queued ++ w.called ++ w.inflight).countP (Functor.holds id) +
    (w.timers ++ w.expired).count (.forceCloseInLoop id)

def refs (w : World) (id : Nat) : Nat := w.owners id + w.copies id

/-- The references to the connector: `connector_`, and the timers of `retry`. -/
def connectorRefs (w : World) : Nat :=
  (if w.destroyed then 0 else 1) + (w.timers ++ w.expired).count .startInLoop

/-- The channel of an owner, if it exists. -/
def channel (w : World) : Owner → Option Channel
  | .connector name => w.connector.channel.bind fun c => if c.1 = name then some c.2 else none
  | .conn id => some (w.conn id).tcp.channel

def setTcp (w : World) (id : Nat) (tcp : TcpConnection) : World :=
  { w with conn := Function.update w.conn id { w.conn id with tcp } }

def queueInLoop (w : World) (isInLoopThread : Bool) (f : Functor) : World :=
  { w with loop := w.loop.queueInLoop isInLoopThread f }

/-! ### The connections -/

/-- An effect of the connection `id`. -/
def perform (id : Nat) (w : World) : Effect → Except Abort World
  | .update => do
      let (poller, channel) ← w.poller.updateChannel (.conn id) (w.conn id).tcp.channel
      return { w with poller }.setTcp id { (w.conn id).tcp with channel }
  | .queueInLoop f => .ok (w.queueInLoop true (.conn id f))
  | .addTimer => .ok { w with timers := w.timers ++ [.forceCloseInLoop id] }
  | .write _ | .shutdownWrite => .ok w

/-- A function of the connection `id` returned, up to its first call of user code. -/
def finish (w : World) (id : Nat) (o : Outcome) : Except Abort World := do
  let w ← o.effects.foldlM (perform id) (w.setTcp id o.conn)
  return { w with rest := o.rest.map (id, ·) ++ w.rest }

def runConn (w : World) (id : Nat) (mem : Memory) (wr : WriteResult) (f : ConnFunctor) : Except Abort World := do
  let o ← (w.conn id).tcp.runFunctor true mem wr f
  w.finish id o

/-- A call of a connection's function on the loop's thread. -/
def call (w : World) (id : Nat) (c : TcpConnection.Call) (mem : Memory) (wr : WriteResult) : Except Abort World :=
  match (w.conn id).tcp.call c with
  | (tcp, some (.runInLoop f)) => (w.setTcp id tcp).runConn id mem wr f
  | (tcp, some (.queueInLoop f)) => .ok ((w.setTcp id tcp).queueInLoop true (.conn id f))
  | (tcp, none) => .ok (w.setTcp id tcp)

/-- `newConnection`, the callback of the connector. -/
def newConnection (w : World) (sockfd : Int) : Except Abort World := do
  check (w.destroyed = false) .clientFreed
  let id := w.nextConnId + 1
  -- no callback is set for the high-water mark
  let tcp := TcpConnection.new sockfd 0 w.writeCompleteCallback false
  let w := { w with
    nextConnId := id
    conn := Function.update w.conn id ⟨tcp, .client⟩
    connection := some id }
  let o ← tcp.connectEstablished true
  w.finish id o

/-! ### The connector -/

/-- `channel_->update()` or `channel_->remove()` of the connector. -/
def onPoller (w : World) (f : EpollPoller Owner → Owner → Channel → Except Abort (EpollPoller Owner × Channel)) :
    Except Abort World :=
  match w.connector.channel with
  | some (name, channel) => do
      let (poller, channel) ← f w.poller (.connector name) channel
      return { w with poller, connector := { w.connector with channel := some (name, channel) } }
  | none => .error .channelNull

/-- An effect of the connector; the descriptors that it opens and closes are those of
`OulaServer.Connector.Loop`. -/
def performConnector (w : World) : Connector.Effect → Except Abort World
  | .socket name _ => .ok { w with sockets := name + 1 }
  | .update => w.onPoller EpollPoller.updateChannel
  | .remove => w.onPoller EpollPoller.removeChannel
  | .close _ => .ok w
  | .queueInLoop f => .ok (w.queueInLoop true (.connector f))
  | .runAfter _ => .ok { w with timers := w.timers ++ [.startInLoop] }
  | .newConnectionCallback sockfd => w.newConnection sockfd

/-- A function of the connector returned. -/
def finishConnector (w : World) (o : Connector.Outcome) : Except Abort World :=
  o.effects.foldlM performConnector { w with connector := o.connector }

/-- `startInLoop` on the loop's thread. -/
def startInLoop (w : World) (a : Connector.Connect) : Except Abort World := do
  let o ← w.connector.startInLoop true w.sockets a
  w.finishConnector o

/-- `restart`, which the close callback calls. -/
def restart (w : World) (a : Connector.Connect) : Except Abort World := do
  let o ← w.connector.restart true w.sockets a
  w.finishConnector o

/-- References to the connector were dropped; `~Connector` runs with the last one. -/
def releaseConnector (w : World) : Except Abort World := do
  check (0 < w.connectorRefs ∨ w.connector.channel = none) .connectorDtor
  return w

/-! ### The client -/

/-- `removeConnection`. -/
def removeConnection (w : World) (id : Nat) (a : Connector.Connect) : Except Abort World := do
  check (w.destroyed = false) .clientFreed
  check (w.connection = some id) .removeConnection
  let w := { w with connection := none }.queueInLoop true (.conn id .connectDestoryed)
  if w.retry && w.enableConnect then w.restart a else return w

/-- `closeCallback_` of a connection. -/
def close (w : World) (id : Nat) (a : Connector.Connect) : Except Abort World :=
  match (w.conn id).closeCallback with
  | .client => w.removeConnection id a
  | .details => .ok (w.queueInLoop true (.conn id .connectDestoryed))

def connect (w : World) (a : Connector.Connect) : Except Abort World :=
  { w with enableConnect := true, connector := w.connector.start.1 }.startInLoop a

def disconnect (w : World) : Except Abort World :=
  let w := { w with enableConnect := false }
  match w.connection with
  | some id => w.call id .shutdown (fun _ => 0) (.ok 0)
  | none => .ok w

/-- The body of `~TcpClient` with a connection. -/
def abandon (w : World) (id : Nat) : Except Abort World :=
  let isUnique : Bool := w.refs id = 1
  let w := { w with conn := Function.update w.conn id { w.conn id with closeCallback := .details } }
  if isUnique then w.call id .forceClose (fun _ => 0) (.ok 0) else .ok w

/-- The body of `~TcpClient`. -/
def dtor (w : World) : Except Abort World :=
  match w.connection with
  | some id => w.abandon id
  | none => .ok ({ w with connector := w.connector.stop.1 }.queueInLoop true (.connector w.connector.stop.2))

/-- `~TcpClient`, and the destructors of its members. -/
def destroy (w : World) : Except Abort World := do
  let w ← w.dtor
  { w with connection := none, destroyed := true }.releaseConnector

/-! ### What the loop's thread runs -/

/-- The next of what is left of a function. -/
def runRest (w : World) (id : Nat) (a : Connector.Connect) : Rest → Except Abort World
  | .connectionUp | .connectionDown | .messageCallback => .ok w
  | .closeCallback => w.close id a
  | .remove => do
      let (poller, channel) ← w.poller.removeChannel (.conn id) (w.conn id).tcp.channel
      return { w with poller }.setTcp id { (w.conn id).tcp with channel }

def runFunctor (w : World) (mem : Memory) (wr : WriteResult) (a : Connector.Connect) : Functor → Except Abort World
  | .conn id f => w.runConn id mem wr f
  | .connector f => do
      check (0 < w.connectorRefs) .connectorFreed
      let o ← w.connector.runFunctor true w.sockets a f
      w.finishConnector o

def runTimer (w : World) (a : Connector.Connect) : Timer → Except Abort World
  | .startInLoop => w.startInLoop a
  | .forceCloseInLoop id => do
      let o ← (w.conn id).tcp.forceCloseInLoop true
      w.finish id o

def runCallback (w : World) (r : Option (List UInt8)) (wr : WriteResult) (err : Nat) (isSelfConnect : Bool)
    (cb : EventCallback) : Owner → Except Abort World
  | .conn id => do
      let o ← (w.conn id).tcp.handleCallback true r wr cb
      w.finish id o
  | .connector _ => do
      let o ← w.connector.handleCallback err isSelfConnect cb
      w.finishConnector o

end World

open World in
def step (w : World) : Event → Except Abort World
  | .enterLoop => .ok { w with loop := w.loop.enterPoll }
  | .poll active => .ok { w with loop := w.loop.dispatch active }
  | .handleEvent =>
      match w.loop.phase with
      | .dispatching (.channel owner revents :: active) => do
          check ((w.channel owner).isSome) .channelFreed
          return { w with
            loop := w.loop.dispatch active
            callbacks := (handleEvent revents).map (owner, ·) }
      | .dispatching (.timerfd :: active) => { w with loop := w.loop.dispatch active, expired := [] }.releaseConnector
      | .dispatching (.other :: active) => .ok { w with loop := w.loop.dispatch active }
      | _ => .ok w
  | .handleCallback r wr err isSelfConnect =>
      match w.callbacks with
      | (owner, cb) :: callbacks => { w with callbacks }.runCallback r wr err isSelfConnect cb owner
      | [] => .ok w
  | .timerCallback i a =>
      match w.timers[i]? with
      | some t => { w with timers := w.timers.eraseIdx i, expired := w.expired ++ [t] }.runTimer a t
      | none => .ok w
  | .swapFunctors => .ok { w with loop := w.loop.swapFunctors }
  | .callFunctor mem wr a =>
      match w.loop.phase with
      | .calling (f :: functors) =>
          { w with loop := w.loop.callRest functors, called := w.called ++ [f] }.runFunctor mem wr a f
      | _ => .ok w
  | .endFunctors => .ok { w with loop := w.loop.endFunctors, called := [] }
  | .userCode a =>
      match w.rest with
      | (id, r) :: rest => { w with rest }.runRest id a r
      | [] => .ok w
  | .connect a => w.connect a
  | .disconnect => w.disconnect
  | .enableRetry => .ok { w with retry := true }
  | .call id c mem wr => w.call id c mem wr
  | .retrieve id len => do
      let inputBuffer ← (w.conn id).tcp.inputBuffer.retrieve len
      return w.setTcp id { (w.conn id).tcp with inputBuffer }
  | .destroy => w.destroy
  | .otherConnect => .ok { w with
      enableConnect := true
      connector := w.connector.start.1
      inflight := w.inflight ++ [.connector w.connector.start.2] }
  | .otherCall id c =>
      match (w.conn id).tcp.call c with
      | (tcp, some t) => .ok { w.setTcp id tcp with inflight := w.inflight ++ [.conn id t.functor] }
      | (tcp, none) => .ok (w.setTcp id tcp)
  | .otherPush i =>
      match w.inflight[i]? with
      | some f => .ok { w.queueInLoop false f with inflight := w.inflight.eraseIdx i }
      | none => .ok w
  | .copy id => .ok { w with copies := Function.update w.copies id (w.copies id + 1) }
  | .drop id => .ok { w with copies := Function.update w.copies id (w.copies id - 1) }

/-- What `poll` can report for the kernel's set. -/
def Reported (w : World) : Active → Prop
  | .channel owner revents => ∃ c ∈ w.channel owner, ∃ event ∈ w.poller.epollSet c.fd, event.2 = owner ∧
      Reportable event.1 revents
  | .timerfd | .other => True

instance (w : World) : (a : Active) → Decidable (Reported w a)
  | .channel owner revents => inferInstanceAs (Decidable (∃ c ∈ w.channel owner,
      ∃ event ∈ w.poller.epollSet c.fd, event.2 = owner ∧ Reportable event.1 revents))
  | .timerfd | .other => .isTrue trivial

/-- The connection was made. -/
def Made (w : World) (id : Nat) : Prop := 0 < id ∧ id ≤ w.nextConnId

instance (w : World) (id : Nat) : Decidable (Made w id) := inferInstanceAs (Decidable (_ ∧ _))

/-- When each step can be taken. User code of the loop's thread runs whenever it does not poll; the client is
destroyed between callbacks. Who calls a function of a connection holds a reference to it. -/
def Enabled (w : World) : Event → Prop
  | .enterLoop => w.loop.phase = .beforeLoop
  | .poll active => w.loop.phase = .polling ∧ (active.filterMap Active.owner?).Nodup ∧ ∀ a ∈ active, Reported w a
  | .handleEvent => w.rest = [] ∧ w.callbacks = [] ∧ w.loop.phase.nextChannel ≠ none
  | .handleCallback _ _ _ _ => w.rest = [] ∧ w.callbacks ≠ []
  | .timerCallback i _ => w.rest = [] ∧ w.callbacks = [] ∧ i < w.timers.length ∧
      w.loop.phase.nextChannel = some .timerfd
  | .swapFunctors => w.rest = [] ∧ w.callbacks = [] ∧ w.loop.phase = .dispatching []
  | .callFunctor _ _ _ => w.rest = [] ∧ w.loop.phase.nextFunctor ≠ none
  | .endFunctors => w.rest = [] ∧ w.loop.phase = .calling []
  | .userCode _ => w.rest ≠ []
  | .connect _ | .disconnect | .enableRetry => w.destroyed = false ∧ w.loop.phase ≠ .polling
  | .call id _ _ _ => Made w id ∧ 0 < w.refs id ∧ w.loop.phase ≠ .polling
  | .retrieve id len => Made w id ∧ 0 < w.refs id ∧ w.loop.phase ≠ .polling ∧
      len ≤ (w.conn id).tcp.inputBuffer.readableBytes
  | .destroy => w.destroyed = false ∧ w.rest = [] ∧ w.callbacks = [] ∧ w.loop.phase ≠ .polling
  | .otherConnect => w.destroyed = false
  | .otherCall id _ => Made w id ∧ 0 < w.copies id
  | .otherPush i => i < w.inflight.length
  | .copy id => Made w id ∧ 0 < w.refs id
  | .drop id => 0 < w.copies id

instance (w : World) : (e : Event) → Decidable (Enabled w e)
  | .enterLoop => inferInstanceAs (Decidable (_ = _))
  | .poll active => inferInstanceAs (Decidable (_ ∧ _ ∧ ∀ a ∈ active, Reported w a))
  | .handleEvent | .swapFunctors | .call _ _ _ _ => inferInstanceAs (Decidable (_ ∧ _ ∧ _))
  | .handleCallback _ _ _ _ | .callFunctor _ _ _ | .endFunctors | .connect _ | .disconnect | .enableRetry
  | .otherCall _ _ | .copy _ => inferInstanceAs (Decidable (_ ∧ _))
  | .timerCallback _ _ | .retrieve _ _ | .destroy => inferInstanceAs (Decidable (_ ∧ _ ∧ _ ∧ _))
  | .userCode _ => inferInstanceAs (Decidable (_ ≠ _))
  | .otherConnect => inferInstanceAs (Decidable (_ = _))
  | .otherPush _ | .drop _ => inferInstanceAs (Decidable (_ < _))

/-- A new client. -/
def init (retry writeComplete : Bool) : World where
  retry := retry
  enableConnect := true
  nextConnId := 0
  connection := none
  writeCompleteCallback := writeComplete
  connector := Connector.new true
  destroyed := false
  conn _ := ⟨TcpConnection.new 0 0 writeComplete false, .client⟩
  loop := EventLoop.new
  poller := EpollPoller.new
  callbacks := []
  rest := []
  timers := []
  inflight := []
  sockets := 0
  called := []
  expired := []
  copies _ := 0

end TcpClient

end OulaServer
