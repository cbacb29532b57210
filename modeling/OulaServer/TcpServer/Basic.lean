import OulaServer.EventLoop.Basic
import OulaServer.Lib.Run
import OulaServer.Poller.Epoll
import OulaServer.TcpConnection.Basic

/-!
# `TcpServer`

The loops of a server and its connections (`net/TcpServer.cpp`, with `Acceptor::HandleRead` and
`EventLoopThreadPool::getNextLoop`). Loop `0` is the acceptor's loop; the loops `1` to `ioLoops` are those of
the thread pool. A connection is named by the order in which it was accepted, which stands for its
`TcpConnectionPtr`.

Each loop's thread takes one step after the other, as in `OulaServer.TcpConnection.Loop`, and the steps of
the loops interleave. A function of a connection runs on the thread of some loop; it asserts that this is
the connection's own. The wakeup, the acceptor's and the timers' channels stand on descriptors of their
own and are left out of the pollers.
-/

namespace OulaServer

namespace TcpServer

/-- What is queued into a loop of the server. -/
inductive Functor where
  | conn (id : Nat) (f : ConnFunctor)
  | removeConnectionInLoop (id : Nat)
  deriving DecidableEq, Repr

inductive Active where
  | channel (id : Nat) (revents : Events)
  | acceptor
  | timerfd
  | other
  deriving DecidableEq, Repr

structure Connection where
  tcp : TcpConnection
  name : String
  /-- `getLoop()`. -/
  loop : Nat

/-- A loop, its poller, and what its thread is at. -/
structure LoopState where
  loop : EventLoop Active Functor
  poller : EpollPoller Nat
  /-- The rest of the `HandleEvent` that runs, with its connection. -/
  callbacks : List (Nat × EventCallback)
  /-- The rest of the function of a connection that runs. -/
  rest : List (Nat × Rest)
  /-- The connections whose timers wait to call `forceCloseInLoop`. -/
  timers : List Nat

/-- What happens to a connection, for the statements about runs. -/
inductive Life where
  | accepted
  -- `ConnectEstablished` and `ConnectDestoryed`, with the loop whose thread ran it
  | established (l : Nat)
  | closed
  | removed
  | destroyed (l : Nat)
  -- `channel_->remove()`
  | unregistered
  deriving DecidableEq, Repr

structure World where
  ioLoops : Nat
  loops : Nat → LoopState
  nextLoopIdx : Nat
  nextConnId : Nat
  connections : String → Option Nat
  conn : Nat → Connection
  highWaterMark : Nat
  /-- Whether `writeCompleteCallback_` and `highWaterMarkCallback_` are set. -/
  writeCompleteCallback : Bool
  highWaterMarkCallback : Bool
  /-- Functors that user code has yet to push, with their loop. -/
  inflight : List (Nat × Functor)
  log : List (Nat × Life)

inductive Event where
  | enterLoop (l : Nat)
  | poll (l : Nat) (active : List Active)
  | handleEvent (l : Nat)
  -- `Acceptor::HandleRead` with the answer of `accept`
  | acceptor (sockfd : Option Int)
  | handleCallback (l : Nat) (r : Option (List UInt8)) (w : WriteResult)
  | timerCallback (l : Nat) (i : Nat)
  | swapFunctors (l : Nat)
  | callFunctor (l : Nat) (mem : Memory) (w : WriteResult)
  | endFunctors (l : Nat)
  | userCode (l : Nat)
  -- a call by user code, on the thread of a loop or on another one
  | call (thread : Option Nat) (id : Nat) (c : TcpConnection.Call) (mem : Memory) (w : WriteResult)
  | retrieve (id : Nat) (len : Nat)
  | push (i : Nat)

namespace World

def onLoop (w : World) (l : Nat) (f : LoopState → LoopState) : World :=
  { w with loops := Function.update w.loops l (f (w.loops l)) }

def setTcp (w : World) (id : Nat) (tcp : TcpConnection) : World :=
  { w with conn := Function.update w.conn id { w.conn id with tcp } }

def record (w : World) (id : Nat) (lives : List Life) : World :=
  { w with log := w.log ++ lives.map (id, ·) }

/-- `queueInLoop` of the loop `l`. -/
def queueInLoop (w : World) (l : Nat) (isInLoopThread : Bool) (f : Functor) : World :=
  w.onLoop l fun s => { s with loop := s.loop.queueInLoop isInLoopThread f }

/-- A new poller entry and channel of a connection. -/
def setPoller (w : World) (id : Nat) (p : EpollPoller Nat) (c : Channel) : World :=
  (w.onLoop (w.conn id).loop fun s => { s with poller := p }).setTcp id { (w.conn id).tcp with channel := c }

/-- An effect of the connection `id`, on the thread of loop `l`. -/
def perform (l id : Nat) (w : World) (e : Effect) : Except Abort World :=
  let c := w.conn id
  match e with
  | .update => do
      check (l = c.loop) .assertInLoopThread
      let (p, channel) ← (w.loops c.loop).poller.updateChannel id c.tcp.channel
      return w.setPoller id p channel
  | .queueInLoop f => .ok (w.queueInLoop c.loop (l = c.loop) (.conn id f))
  | .addTimer => .ok (w.onLoop c.loop fun s => { s with timers := s.timers ++ [id] })
  | .write _ | .shutdownWrite => .ok w

/-- That a function ran `handleClose`. -/
def closedBy (o : Outcome) : List Life := if .closeCallback ∈ o.rest then [.closed] else []

/-- A function of the connection `id` returned, up to its first call of user code. -/
def finish (w : World) (l id : Nat) (o : Outcome) : Except Abort World := do
  let w ← o.effects.foldlM (perform l id) (w.setTcp id o.conn)
  return (w.onLoop l fun s => { s with rest := o.rest.map (id, ·) ++ s.rest }).record id (closedBy o)

def removeConnectionInLoop (w : World) (l id : Nat) : Except Abort World := do
  check (l = 0) .assertInLoopThread
  let c := w.conn id
  check ((w.connections c.name).isSome) .removeConnectionInLoop
  let w := { w with connections := Function.update w.connections c.name none }
  return (w.record id [.removed]).queueInLoop c.loop (l = c.loop) (.conn id .connectDestoryed)

/-- `removeConnection`, the close callback of the server's connections. -/
def removeConnection (w : World) (l id : Nat) : Except Abort World :=
  if l = 0 then w.removeConnectionInLoop l id
  else .ok (w.queueInLoop 0 false (.removeConnectionInLoop id))

/-- The functor of a connection whose run the log records. -/
def ranLife (l : Nat) : ConnFunctor → List Life
  | .connectEstablished => [.established l]
  | .connectDestoryed => [.destroyed l]
  | _ => []

def runFunctor (w : World) (l : Nat) (mem : Memory) (wr : WriteResult) : Functor → Except Abort World
  | .conn id f => do
      let c := w.conn id
      let o ← c.tcp.runFunctor (l = c.loop) mem wr f
      (w.record id (ranLife l f)).finish l id o
  | .removeConnectionInLoop id => w.removeConnectionInLoop l id

/-- `getNextLoop`, the next of the pool's loops, or the base loop if there are none. -/
def getNextLoop (w : World) (l : Nat) : Except Abort (Nat × World) := do
  check (l = 0) .assertInLoopThread
  if w.ioLoops = 0 then
    return (0, w)
  else
    return (w.nextLoopIdx + 1, { w with nextLoopIdx := (w.nextLoopIdx + 1) % w.ioLoops })

def newConnection (w : World) (l : Nat) (sockfd : Int) : Except Abort World := do
  check (l = 0) .assertInLoopThread
  let (ioLoop, w) ← w.getNextLoop l
  let id := w.nextConnId
  let conn : Connection :=
    { tcp := TcpConnection.new sockfd w.highWaterMark w.writeCompleteCallback w.highWaterMarkCallback
      name := toString w.nextConnId
      loop := ioLoop }
  let w := { w with
    connections := Function.update w.connections conn.name (some id)
    conn := Function.update w.conn id conn
    nextConnId := w.nextConnId + 1 }
  let w := w.record id [.accepted]
  if l = ioLoop then
    w.runFunctor l (fun _ => 0) (.ok 0) (.conn id .connectEstablished)
  else
    return w.queueInLoop ioLoop false (.conn id .connectEstablished)

/-- The next of what is left of a function on the thread of loop `l`. -/
def runRest (w : World) (l id : Nat) : Rest → Except Abort World
  | .connectionUp | .connectionDown | .messageCallback => .ok w
  | .closeCallback => w.removeConnection l id
  | .remove => do
      let c := w.conn id
      check (l = c.loop) .assertInLoopThread
      let (p, channel) ← (w.loops c.loop).poller.removeChannel id c.tcp.channel
      return (w.setPoller id p channel).record id [.unregistered]

end World

open World in
def step (w : World) : Event → Except Abort World
  | .enterLoop l => .ok (w.onLoop l fun s => { s with loop := s.loop.enterPoll })
  | .poll l active => .ok (w.onLoop l fun s => { s with loop := s.loop.dispatch active })
  | .handleEvent l =>
      match (w.loops l).loop.phase with
      | .dispatching (.channel id revents :: active) => .ok (w.onLoop l fun s => { s with
          loop := s.loop.dispatch active
          callbacks := (handleEvent revents).map (id, ·) })
      | .dispatching (_ :: active) => .ok (w.onLoop l fun s => { s with loop := s.loop.dispatch active })
      | _ => .ok w
  | .acceptor sockfd =>
      match (w.loops 0).loop.phase, sockfd with
      | .dispatching (.acceptor :: active), some sockfd =>
          (w.onLoop 0 fun s => { s with loop := s.loop.dispatch active }).newConnection 0 sockfd
      | .dispatching (.acceptor :: active), none =>
          .ok (w.onLoop 0 fun s => { s with loop := s.loop.dispatch active })
      | _, _ => .ok w
  | .handleCallback l r wr =>
      match (w.loops l).callbacks with
      | (id, cb) :: callbacks => do
          let c := w.conn id
          let o ← c.tcp.handleCallback (l = c.loop) r wr cb
          (w.onLoop l fun s => { s with callbacks }).finish l id o
      | [] => .ok w
  | .timerCallback l i =>
      match (w.loops l).timers[i]? with
      | some id => do
          let c := w.conn id
          let o ← c.tcp.forceCloseInLoop (l = c.loop)
          (w.onLoop l fun s => { s with timers := s.timers.eraseIdx i }).finish l id o
      | none => .ok w
  | .swapFunctors l => .ok (w.onLoop l fun s => { s with loop := s.loop.swapFunctors })
  | .callFunctor l mem wr =>
      match (w.loops l).loop.phase with
      | .calling (f :: functors) =>
          (w.onLoop l fun s => { s with loop := s.loop.callRest functors }).runFunctor l mem wr f
      | _ => .ok w
  | .endFunctors l => .ok (w.onLoop l fun s => { s with loop := s.loop.endFunctors })
  | .userCode l =>
      match (w.loops l).rest with
      | (id, r) :: rest => (w.onLoop l fun s => { s with rest }).runRest l id r
      | [] => .ok w
  | .call thread id c mem wr =>
      let loop := (w.conn id).loop
      match (w.conn id).tcp.call c with
      | (tcp, some t) =>
          if thread = some loop then
            match t with
            | .runInLoop f => (w.setTcp id tcp).runFunctor loop mem wr (.conn id f)
            | .queueInLoop f => .ok ((w.setTcp id tcp).queueInLoop loop true (.conn id f))
          else
            .ok { w.setTcp id tcp with inflight := w.inflight ++ [(loop, .conn id t.functor)] }
      | (tcp, none) => .ok (w.setTcp id tcp)
  | .retrieve id len => do
      let inputBuffer ← (w.conn id).tcp.inputBuffer.retrieve len
      return w.setTcp id { (w.conn id).tcp with inputBuffer }
  | .push i =>
      match w.inflight[i]? with
      | some (l, f) => .ok { w.queueInLoop l false f with inflight := w.inflight.eraseIdx i }
      | none => .ok w

namespace World

/-- What happened to a connection so far. -/
def life (w : World) (id : Nat) : List Life := w.log.filterMap fun e => if e.1 = id then some e.2 else none

/-- The connections that were accepted. -/
def Accepted (w : World) (id : Nat) : Prop := .accepted ∈ w.life id

instance (w : World) (id : Nat) : Decidable (w.Accepted id) := inferInstanceAs (Decidable (_ ∈ w.life id))

end World

/-- What `poll` can report for the kernel's set of a loop. -/
def Reported (w : World) (l : Nat) : Active → Prop
  | .channel id revents => ∃ mask, (w.loops l).poller.epollSet (w.conn id).tcp.channel.fd = some (mask, id) ∧
      Reportable mask revents
  | .acceptor => l = 0
  | .timerfd | .other => True

instance (w : World) (l : Nat) : (a : Active) → Decidable (Reported w l a)
  | .channel id revents =>
      match h : (w.loops l).poller.epollSet (w.conn id).tcp.channel.fd with
      | none => .isFalse fun ⟨_, hset, _⟩ => nomatch h.symm.trans hset
      | some (mask, id') =>
          decidable_of_iff (id' = id ∧ Reportable mask revents)
            ⟨fun hr => ⟨mask, h.trans (congrArg (fun i => some (mask, i)) hr.1), hr.2⟩,
              fun ⟨_, hset, hr⟩ => by cases h.symm.trans hset; exact ⟨rfl, hr⟩⟩
  | .acceptor => inferInstanceAs (Decidable (_ = _))
  | .timerfd | .other => .isTrue trivial

/-- The channels of connections in a batch. -/
def Active.channel? : Active → Option Nat
  | channel id _ => some id
  | acceptor | timerfd | other => none

/-- When each step can be taken. A socket's descriptor is not used again before the channel of its connection
was removed, and `nextConnId_` stays an `int`. -/
def Enabled (w : World) : Event → Prop
  | .enterLoop l => l ≤ w.ioLoops ∧ (w.loops l).loop.phase = .beforeLoop
  | .poll l active => (w.loops l).loop.phase = .polling ∧ (active.filterMap Active.channel?).Nodup ∧
      ∀ a ∈ active, Reported w l a
  | .handleEvent l => (w.loops l).rest = [] ∧ (w.loops l).callbacks = [] ∧
      (w.loops l).loop.phase.nextChannel ≠ none
  | .acceptor sockfd => (w.loops 0).rest = [] ∧ (w.loops 0).callbacks = [] ∧
      (w.loops 0).loop.phase.nextChannel = some .acceptor ∧ w.nextConnId < 2 ^ 31 - 1 ∧
      ∀ fd, sockfd = some fd → ∀ id < w.nextConnId,
        w.Accepted id → .unregistered ∉ w.life id → (w.conn id).tcp.channel.fd ≠ fd
  | .handleCallback l _ _ => (w.loops l).rest = [] ∧ (w.loops l).callbacks ≠ []
  | .timerCallback l i => (w.loops l).rest = [] ∧ (w.loops l).callbacks = [] ∧
      i < (w.loops l).timers.length ∧ (w.loops l).loop.phase.nextChannel = some .timerfd
  | .swapFunctors l => (w.loops l).rest = [] ∧ (w.loops l).callbacks = [] ∧
      (w.loops l).loop.phase = .dispatching []
  | .callFunctor l _ _ => (w.loops l).rest = [] ∧ (w.loops l).loop.phase.nextFunctor ≠ none
  | .endFunctors l => (w.loops l).rest = [] ∧ (w.loops l).loop.phase = .calling []
  | .userCode l => (w.loops l).rest ≠ []
  | .call thread id _ _ _ => w.Accepted id ∧ ∀ l, thread = some l → (w.loops l).loop.phase ≠ .polling
  | .retrieve id len => w.Accepted id ∧ (w.loops (w.conn id).loop).loop.phase ≠ .polling ∧
      len ≤ (w.conn id).tcp.inputBuffer.readableBytes
  | .push i => i < w.inflight.length

instance (w : World) : (e : Event) → Decidable (Enabled w e)
  | .enterLoop _ | .handleCallback _ _ _ | .callFunctor _ _ _ | .endFunctors _ =>
      inferInstanceAs (Decidable (_ ∧ _))
  | .poll l active => inferInstanceAs (Decidable (_ ∧ _ ∧ ∀ a ∈ active, Reported w l a))
  | .handleEvent _ | .swapFunctors _ | .retrieve _ _ => inferInstanceAs (Decidable (_ ∧ _ ∧ _))
  | .acceptor none => decidable_of_iff ((w.loops 0).rest = [] ∧ (w.loops 0).callbacks = [] ∧
      (w.loops 0).loop.phase.nextChannel = some .acceptor ∧ w.nextConnId < 2 ^ 31 - 1)
      ⟨fun h => ⟨h.1, h.2.1, h.2.2.1, h.2.2.2, nofun⟩, fun h => ⟨h.1, h.2.1, h.2.2.1, h.2.2.2.1⟩⟩
  | .acceptor (some sockfd) => decidable_of_iff ((w.loops 0).rest = [] ∧ (w.loops 0).callbacks = [] ∧
      (w.loops 0).loop.phase.nextChannel = some .acceptor ∧ w.nextConnId < 2 ^ 31 - 1 ∧ ∀ id < w.nextConnId,
        w.Accepted id → .unregistered ∉ w.life id → (w.conn id).tcp.channel.fd ≠ sockfd)
      ⟨fun h => ⟨h.1, h.2.1, h.2.2.1, h.2.2.2.1, fun _ hfd => Option.some.inj hfd ▸ h.2.2.2.2⟩,
        fun h => ⟨h.1, h.2.1, h.2.2.1, h.2.2.2.1, h.2.2.2.2 _ rfl⟩⟩
  | .timerCallback _ _ => inferInstanceAs (Decidable (_ ∧ _ ∧ _ ∧ _))
  | .userCode _ => inferInstanceAs (Decidable (_ ≠ _))
  | .call none id _ _ _ => decidable_of_iff (w.Accepted id) ⟨fun h => ⟨h, nofun⟩, And.left⟩
  | .call (some l) id _ _ _ => decidable_of_iff (w.Accepted id ∧ (w.loops l).loop.phase ≠ .polling)
      ⟨fun h => ⟨h.1, fun _ hl => Option.some.inj hl ▸ h.2⟩, fun h => ⟨h.1, h.2 _ rfl⟩⟩
  | .push _ => inferInstanceAs (Decidable (_ < _))

/-- The loops of a server that was started, before any of them runs. -/
def init (ioLoops highWaterMark : Nat) (writeComplete highWater : Bool) : World where
  ioLoops := ioLoops
  loops _ := ⟨EventLoop.new, EpollPoller.new, [], [], []⟩
  nextLoopIdx := 0
  nextConnId := 1
  connections _ := none
  conn _ := ⟨TcpConnection.new 0 highWaterMark writeComplete highWater, "", 0⟩
  highWaterMark := highWaterMark
  writeCompleteCallback := writeComplete
  highWaterMarkCallback := highWater
  inflight := []
  log := []

end TcpServer

end OulaServer
