import OulaServer.Connector.Basic
import OulaServer.EventLoop.Basic
import OulaServer.Lib.Run
import OulaServer.Poller.Epoll

/-!
# A connector on its loop

One `Connector` with its `EventLoop`, the poller, its retry timers, the descriptors of the process, and the
calls of `start` and `stop` from other threads, each in two steps: the flag is set, and the functor is
pushed. What `newConnectionCallback_` does comes as steps of its own; the loop's other channels stand on
descriptors of their own and are left out of the poller.

The sockets that the connector makes are numbered. The kernel answers `::socket` with any descriptor that is
not open, so that the number of a closed descriptor comes back. `log` records what became of each socket.
-/

namespace OulaServer

namespace ConnectorLoop

open Connector

/-- What stands in `activeChanels_`: the connector's channel with its received events, the channel of the
loop's timers, or another one. -/
inductive Active where
  | channel (name : Nat) (revents : Events)
  | timerfd
  | other
  deriving DecidableEq, Repr

def Active.isChannel : Active → Bool
  | channel _ _ => true
  | timerfd | other => false

/-- What became of a socket, with whether its descriptor was registered with the poller at that moment. -/
inductive Entry where
  | closed (name : Nat) (registered : Bool)
  -- handed to `newConnectionCallback_`, with `enableConnect_`
  | handed (name : Nat) (registered enableConnect : Bool)
  -- `::close` of a descriptor that is not open
  | badClose (fd : Int)
  deriving DecidableEq, Repr

structure State where
  connector : Connector
  loop : EventLoop Active Functor
  poller : EpollPoller Nat
  /-- The number of timers that wait to call `startInLoop`. -/
  timers : Nat
  /-- Functors that other threads have yet to push. -/
  inflight : List Functor
  /-- The open descriptors, with the sockets of the connector. -/
  fds : Int → Option Nat
  /-- The number of sockets made so far. -/
  sockets : Nat
  log : List Entry

inductive Event where
  | enterLoop
  | poll (active : List Active)
  -- `HandleEvent`, with the `SO_ERROR` of the socket and whether it is connected to itself
  | handleEvent (err : Nat) (isSelfConnect : Bool)
  -- the callback of an expired timer
  | timerCallback (a : Connect)
  | swapFunctors
  | callFunctor (a : Connect)
  | endFunctors
  -- calls on the loop's thread
  | start (a : Connect)
  | stop
  | restart (a : Connect)
  | otherStart
  | otherStop
  | otherPush (i : Nat)
  -- the owner of a socket that was handed over closes it
  | release (fd : Int)

def init : State :=
  ⟨Connector.new true, EventLoop.new, EpollPoller.new, 0, [], fun _ => none, 0, []⟩

/-- The descriptor is known to the poller or to the kernel's set. -/
def registered (s : State) (fd : Int) : Bool := (s.poller.channels fd).isSome || (s.poller.epollSet fd).isSome

/-- `::close`. -/
def close (s : State) (fd : Int) : State :=
  match s.fds fd with
  | some name => { s with
      fds := Function.update s.fds fd none
      log := s.log ++ [.closed name (registered s fd)] }
  | none => { s with log := s.log ++ [.badClose fd] }

/-- The socket of `fd` goes to `newConnectionCallback_`. -/
def handOver (s : State) (fd : Int) : State :=
  match s.fds fd with
  | some name => { s with log := s.log ++ [.handed name (registered s fd) s.connector.enableConnect] }
  | none => s

/-- `channel_->update()` or `channel_->remove()`. -/
def onPoller (s : State) (f : EpollPoller Nat → Nat → Channel → Except Abort (EpollPoller Nat × Channel)) :
    Except Abort State :=
  match s.connector.channel with
  | some (name, channel) => do
      let (poller, channel) ← f s.poller name channel
      return { s with poller, connector := { s.connector with channel := some (name, channel) } }
  | none => .error .channelNull

def perform (s : State) : Effect → Except Abort State
  | .socket name fd => .ok { s with fds := Function.update s.fds fd (some name), sockets := name + 1 }
  | .update => onPoller s EpollPoller.updateChannel
  | .remove => onPoller s EpollPoller.removeChannel
  | .close fd => .ok (close s fd)
  | .queueInLoop f => .ok { s with loop := s.loop.queueInLoop true f }
  | .runAfter _ => .ok { s with timers := s.timers + 1 }
  | .newConnectionCallback fd => .ok (handOver s fd)

/-- A function of the connector returned. -/
def finish (s : State) (o : Outcome) : Except Abort State :=
  o.effects.foldlM perform { s with connector := o.connector }

def step (s : State) : Event → Except Abort State
  | .enterLoop => .ok { s with loop := s.loop.enterPoll }
  | .poll active => .ok { s with loop := s.loop.dispatch active }
  | .handleEvent err isSelfConnect =>
      match s.loop.phase with
      | .dispatching (.channel name revents :: active) => do
          check (s.connector.channel.map Prod.fst = some name) .channelFreed
          let s := { s with loop := s.loop.dispatch active }
          (handleEvent revents).foldlM (fun s cb => do
            let o ← s.connector.handleCallback err isSelfConnect cb
            finish s o) s
      | .dispatching (.timerfd :: active) | .dispatching (.other :: active) =>
          .ok { s with loop := s.loop.dispatch active }
      | _ => .ok s
  | .timerCallback a => do
      let o ← s.connector.startInLoop true s.sockets a
      finish { s with timers := s.timers - 1 } o
  | .swapFunctors => .ok { s with loop := s.loop.swapFunctors }
  | .callFunctor a =>
      match s.loop.phase with
      | .calling (f :: functors) => do
          let o ← s.connector.runFunctor true s.sockets a f
          finish { s with loop := s.loop.callRest functors } o
      | _ => .ok s
  | .endFunctors => .ok { s with loop := s.loop.endFunctors }
  | .start a => do
      let (connector, f) := s.connector.start
      let o ← connector.runFunctor true s.sockets a f
      finish s o
  | .stop =>
      let (connector, f) := s.connector.stop
      .ok { s with connector, loop := s.loop.queueInLoop true f }
  | .restart a => do
      let o ← s.connector.restart true s.sockets a
      finish s o
  | .otherStart =>
      let (connector, f) := s.connector.start
      .ok { s with connector, inflight := s.inflight ++ [f] }
  | .otherStop =>
      let (connector, f) := s.connector.stop
      .ok { s with connector, inflight := s.inflight ++ [f] }
  | .otherPush i =>
      match s.inflight[i]? with
      | some f => .ok { s with loop := s.loop.queueInLoop false f, inflight := s.inflight.eraseIdx i }
      | none => .ok s
  | .release fd => .ok { s with fds := Function.update s.fds fd none }

/-- What `poll` can report for the kernel's set. -/
def Reported (s : State) : Active → Prop
  | .channel name revents => ∃ c ∈ s.connector.channel, c.1 = name ∧
      ∃ event ∈ s.poller.epollSet c.2.fd, event.2 = name ∧ Reportable event.1 revents
  | .timerfd | .other => True

instance (s : State) : (a : Active) → Decidable (Reported s a)
  | .channel name revents => inferInstanceAs (Decidable (∃ c ∈ s.connector.channel, c.1 = name ∧
      ∃ event ∈ s.poller.epollSet c.2.fd, event.2 = name ∧ Reportable event.1 revents))
  | .timerfd | .other => .isTrue trivial

/-- When each step can be taken. User code of the loop's thread runs whenever it does not poll; it calls
`restart` for a connection that was made. A new socket gets a descriptor that is not open, and only the owner
of a socket that was handed over closes it. -/
def Enabled (s : State) : Event → Prop
  | .enterLoop => s.loop.phase = .beforeLoop
  | .poll active => s.loop.phase = .polling ∧ (active.filter Active.isChannel).length ≤ 1 ∧
      ∀ a ∈ active, Reported s a
  | .handleEvent _ _ => s.loop.phase.nextChannel ≠ none
  | .timerCallback a => 0 < s.timers ∧ s.loop.phase.nextChannel = some .timerfd ∧ s.fds a.sockfd = none
  | .swapFunctors => s.loop.phase = .dispatching []
  | .callFunctor a => s.loop.phase.nextFunctor ≠ none ∧ s.fds a.sockfd = none
  | .endFunctors => s.loop.phase = .calling []
  | .start a => s.loop.phase ≠ .polling ∧ s.fds a.sockfd = none
  | .stop => s.loop.phase ≠ .polling
  | .restart a => s.loop.phase ≠ .polling ∧ s.connector.state = .kConnected ∧ s.fds a.sockfd = none
  | .otherStart | .otherStop => True
  | .otherPush i => i < s.inflight.length
  | .release fd => ∃ name ∈ s.fds fd, ∃ e ∈ s.log, ∃ r on, e = .handed name r on

instance (s : State) : (e : Event) → Decidable (Enabled s e)
  | .enterLoop | .swapFunctors | .endFunctors => inferInstanceAs (Decidable (_ = _))
  | .poll active => inferInstanceAs (Decidable (_ ∧ _ ∧ ∀ a ∈ active, Reported s a))
  | .handleEvent _ _ | .stop => inferInstanceAs (Decidable (_ ≠ _))
  | .timerCallback _ | .restart _ => inferInstanceAs (Decidable (_ ∧ _ ∧ _))
  | .callFunctor _ | .start _ => inferInstanceAs (Decidable (_ ∧ _))
  | .otherStart | .otherStop => .isTrue trivial
  | .otherPush _ => inferInstanceAs (Decidable (_ < _))
  | .release fd => inferInstanceAs (Decidable (∃ name ∈ s.fds fd, ∃ e ∈ s.log, ∃ r on, e = .handed name r on))

/-- The functors on their way, in the order in which the loop will call those that are queued. -/
def pending (s : State) : List Functor := s.loop.queued ++ s.inflight

end ConnectorLoop

end OulaServer
