import Mathlib.Tactic

/-!
# Failed assertions

The modelled functions return `Except Abort`: an error is the failed assertion that stops the
program, named by the function it stands in. `check` is `assert` (and `assertInLoopThread`, which
calls `exit`).
-/

namespace OulaServer

/-- The assertions of the modelled functions, named by the function they stand in and by what they
look at. -/
inductive Abort where
  -- `Buffer`; `begin` dereferences the first element of the vector
  | bufferBegin
  | hasWritten
  | ensureWritableBytes
  | makeSpaceReader
  | makeSpaceReadable
  | retrieve
  | retrieveAsString
  -- `updateChannel` and `RemoveChannel` of the two pollers
  | updateChannelFound
  | updateChannelSame
  | updateChannelIdx
  | updateChannelFd
  | pollfdsBounds
  | removeChannelFound
  | removeChannelSame
  | removeChannelNoneEvent
  | removeChannelStatus
  | removeChannelIdx
  | removeChannelFd
  | fillActiveChannels
  -- `EventLoop` and `TcpConnection`
  | assertInLoopThread
  | connectEstablished
  | handleClose
  | sendInLoop
  | removeConnectionInLoop
  -- `TimerQueue`; `timerFreed` is the use of a timer that was deleted
  | timersSize
  | insertTimer
  | insertActiveTimer
  | cancelInLoop
  | getExpiredEnd
  | getExpiredActive
  | timerFreed
  -- `threadFunc`; the front of an empty `m_taskQueue`
  | taskQueueFront
  -- `Connector`; `channelNull` is the use of an empty `channel_`, `channelFreed` that of a destroyed `Channel`
  | startInLoop
  | connecting
  | connectorHandleWrite
  | channelNull
  | channelFreed
  -- `TcpServer`; `serverFreed` is a call on a destroyed server
  | serverFreed
  -- `TcpClient`; `clientFreed` and `connectorFreed` are calls on a destroyed client and a destroyed connector,
  -- `connectorDtor` is the assertion of `~Connector`
  | removeConnection
  | clientFreed
  | connectorFreed
  | connectorDtor
  deriving DecidableEq, Repr

/-- `assert(p)`. -/
def check (p : Prop) [Decidable p] (a : Abort) : Except Abort Unit := if p then .ok () else .error a

variable {p : Prop} [Decidable p] {a : Abort}

theorem check_pos (h : p) : check p a = .ok () := if_pos h

theorem check_neg (h : ¬ p) : check p a = .error a := if_neg h

theorem check_eq_ok {u : Unit} : check p a = .ok u ↔ p := by
  unfold check
  split_ifs with h <;> simp [h]

/-! ### Sequencing -/

variable {α β ε : Type}

@[simp] theorem ok_bind (x : α) (f : α → Except ε β) : (Except.ok x >>= f) = f x := rfl

@[simp] theorem error_bind (e : ε) (f : α → Except ε β) : (Except.error e >>= f) = .error e := rfl

theorem bind_eq_ok {x : Except ε α} {f : α → Except ε β} {b : β} :
    (x >>= f) = .ok b ↔ ∃ y, x = .ok y ∧ f y = .ok b := by
  cases x with
  | error e => simp
  | ok y => simp

theorem map_eq_ok {x : Except ε α} {f : α → β} {b : β} : x.map f = .ok b ↔ ∃ y, x = .ok y ∧ f y = b := by
  cases x with
  | error e => simp [Except.map]
  | ok y => simp [Except.map]

end OulaServer
