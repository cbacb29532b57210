import OulaServer.Buffer.Basic
import OulaServer.Channel

/-!
# `TcpConnection`

The functions of `net/TcpConnection.cpp` that run on the connection's loop, and the check-and-set part
of the ones that any thread may call. A function returns an `Outcome`: the connection, the effects it
has on the poller, the loop and the socket, in order, and what is left of it from its first call of
user code on. Every change of the connection's fields comes before that, so that user code sees the
connection of the outcome.
-/

namespace OulaServer

inductive StateE where
  | kConnecting
  | kConnected
  | kDisconnecting
  | kDisconnected
  deriving DecidableEq, Repr

namespace StateE

def toNat : StateE → Nat
  | kConnecting => 0
  | kConnected => 1
  | kDisconnecting => 2
  | kDisconnected => 3

instance : LE StateE := ⟨fun s t => s.toNat ≤ t.toNat⟩

instance (s t : StateE) : Decidable (s ≤ t) := inferInstanceAs (Decidable (s.toNat ≤ t.toNat))

theorem le_refl (s : StateE) : s ≤ s := Nat.le_refl _

theorem kConnecting_le (s : StateE) : kConnecting ≤ s := Nat.zero_le _

theorem le_kDisconnected (s : StateE) : s ≤ kDisconnected := by cases s <;> decide

end StateE

/-- The bytes of the process, by address. -/
abbrev Memory := Int → UInt8

/-- `len` bytes from `p` on. -/
def bytesAt (mem : Memory) (p : Int) (len : Nat) : List UInt8 := (List.range len).map fun i : Nat => mem (p + i)

def EPIPE : Nat := 32
def ECONNRESET : Nat := 104
def EWOULDBLOCK : Nat := 11

/-- The answer of `::write`: the bytes the kernel takes, of at most those offered, or `-1` and an `errno`. -/
inductive WriteResult where
  | ok (n : Nat)
  | error (errno : Nat)
  deriving DecidableEq, Repr

namespace WriteResult

/-- The `ssize_t` that `::write` returns for `len` offered bytes. -/
def count (w : WriteResult) (len : Nat) : Int :=
  match w with
  | ok n => (min n len : Nat)
  | error _ => -1

/-- All or some of the bytes were taken. -/
def isOk : WriteResult → Bool
  | ok _ => true
  | error _ => false

/-- `errno` is `EPIPE` or `ECONNRESET`. -/
def peerClosed : WriteResult → Bool
  | ok _ => false
  | error errno => errno != EWOULDBLOCK && (errno == EPIPE || errno == ECONNRESET)

end WriteResult

/-- What a connection hands to its loop. -/
inductive ConnFunctor where
  | connectEstablished
  | connectDestoryed
  | sendInLoop (data : Int) (len : Nat)
  | shutdownInLoop
  | forceCloseInLoop
  -- `addTimerInLoop` of the timer that `forceCloseWithDelay` makes
  | addTimerInLoop
  | writeCompleteCallback
  | highWaterMarkCallback (len : Nat)
  deriving DecidableEq, Repr

/-- The functors that open or close the connection. -/
def ConnFunctor.IsLifecycle : ConnFunctor → Prop
  | .connectEstablished | .connectDestoryed | .forceCloseInLoop => True
  | _ => False

theorem ConnFunctor.isLifecycle_iff {f : ConnFunctor} :
    f.IsLifecycle ↔ f = .connectEstablished ∨ f = .connectDestoryed ∨ f = .forceCloseInLoop := by
  cases f <;> simp [IsLifecycle]

/-- Functors that only run user code. -/
def ConnFunctor.IsUser (f : ConnFunctor) : Prop :=
  f = .writeCompleteCallback ∨ ∃ len, f = .highWaterMarkCallback len

/-- Functors that are bound to the connection's `shared_ptr`; the others are bound to `this`. -/
def ConnFunctor.isShared : ConnFunctor → Bool
  | .sendInLoop _ _ | .shutdownInLoop => false
  | .connectEstablished | .connectDestoryed | .forceCloseInLoop | .addTimerInLoop | .writeCompleteCallback
  | .highWaterMarkCallback _ => true

/-- How a function of a connection acts on what is around it. -/
inductive Effect where
  -- `channel_->update()`
  | update
  | write (bytes : List UInt8)
  | shutdownWrite
  | queueInLoop (f : ConnFunctor)
  | addTimer
  deriving DecidableEq, Repr

namespace Effect

/-- The bytes that the kernel took. -/
def bytes : Effect → List UInt8
  | write bytes => bytes
  | _ => []

/-- A write, or a functor of the user. -/
def Plain : Effect → Prop
  | write _ => True
  | queueInLoop f => f.IsUser
  | update | shutdownWrite | addTimer => False

/-- The functor that is queued. -/
def functor : Effect → Option ConnFunctor
  | queueInLoop f => some f
  | _ => none

end Effect

def written (effects : List Effect) : List UInt8 := effects.flatMap Effect.bytes

@[simp] theorem written_nil : written [] = [] := rfl

@[simp] theorem written_cons (e : Effect) (es : List Effect) : written (e :: es) = e.bytes ++ written es := rfl

@[simp] theorem written_append (es es' : List Effect) : written (es ++ es') = written es ++ written es' :=
  List.flatMap_append

def functors (effects : List Effect) : List ConnFunctor := effects.filterMap Effect.functor

@[simp] theorem functors_nil : functors [] = [] := rfl

theorem functors_cons (e : Effect) (es : List Effect) :
    functors (e :: es) = e.functor.toList ++ functors es := by
  cases e <;> rfl

@[simp] theorem functors_append (es es' : List Effect) : functors (es ++ es') = functors es ++ functors es' :=
  List.filterMap_append

/-- What is left of a function from its first call of user code on. -/
inductive Rest where
  -- `connectionCallback_`, called for an established and for a closed connection
  | connectionUp
  | connectionDown
  | messageCallback
  | closeCallback
  -- `channel_->remove()`
  | remove
  deriving DecidableEq, Repr

structure TcpConnection where
  state : StateE
  channel : Channel
  inputBuffer : Buffer
  outputBuffer : Buffer
  highWaterMark : Nat
  /-- Whether `writeCompleteCallback_` is set. -/
  writeCompleteCallback : Bool
  /-- Whether `highWaterMarkCallback_` is set. -/
  highWaterMarkCallback : Bool
  deriving DecidableEq, Repr

structure Outcome where
  conn : TcpConnection
  effects : List Effect := []
  rest : List Rest := []
  deriving DecidableEq, Repr

namespace TcpConnection

def new (sockfd : Int) (highWaterMark : Nat) (writeComplete highWater : Bool) : TcpConnection where
  state := .kConnecting
  channel := Channel.new sockfd
  inputBuffer := Buffer.new Buffer.kInitSize
  outputBuffer := Buffer.new Buffer.kInitSize
  highWaterMark := highWaterMark
  writeCompleteCallback := writeComplete
  highWaterMarkCallback := highWater

/-- `state_ == KConnected || state_ == KDisconnecting`. -/
def Open (c : TcpConnection) : Prop := c.state = .kConnected ∨ c.state = .kDisconnecting

instance (c : TcpConnection) : Decidable c.Open := inferInstanceAs (Decidable (_ ∨ _))

/-! ### Opening and closing -/

def connectEstablished (c : TcpConnection) (inLoop : Bool) : Except Abort Outcome := do
  check inLoop .assertInLoopThread
  check (c.state = .kConnecting) .connectEstablished
  return {
    conn := { c with state := .kConnected, channel := c.channel.declare .enableReadEvent }
    effects := [.update]
    rest := [.connectionUp] }

def connectDestoryed (c : TcpConnection) (inLoop : Bool) : Except Abort Outcome := do
  check inLoop .assertInLoopThread
  if c.state = .kConnected then
    return {
      conn := { c with state := .kDisconnected, channel := c.channel.declare .disableAllEvent }
      effects := [.update]
      rest := [.connectionDown, .remove] }
  else
    return { conn := c, rest := [.remove] }

def handleClose (c : TcpConnection) (inLoop : Bool) : Except Abort Outcome := do
  check inLoop .assertInLoopThread
  check c.Open .handleClose
  return {
    conn := { c with state := .kDisconnected, channel := c.channel.declare .disableAllEvent }
    effects := [.update]
    rest := [.connectionDown, .closeCallback] }

def forceCloseInLoop (c : TcpConnection) (inLoop : Bool) : Except Abort Outcome := do
  check inLoop .assertInLoopThread
  if c.Open then c.handleClose inLoop else return { conn := c }

/-! ### Reading -/

/-- The conversion of a `ssize_t` to `size_t`. -/
def sizeT (n : Int) : Nat := (n % 2 ^ 64).toNat

/-- `handleRead` with the answer of `readv`, as in `Buffer.readFd`. The source holds the result of
`readFd` in a `size_t`. -/
def handleRead (c : TcpConnection) (inLoop : Bool) (r : Option (List UInt8)) : Except Abort Outcome := do
  let (inputBuffer, n) ← c.inputBuffer.readFd r
  let c := { c with inputBuffer }
  if 0 < sizeT n then
    return { conn := c, rest := [.messageCallback] }
  else if sizeT n = 0 then
    c.handleClose inLoop
  else
    return { conn := c }

/-! ### Writing -/

def shutdownInLoop (c : TcpConnection) (inLoop : Bool) : Except Abort Outcome := do
  check inLoop .assertInLoopThread
  return { conn := c, effects := if c.channel.isEnableWriteEvent then [] else [.shutdownWrite] }

/-- The functor that reports that everything was written, when the callback is set. -/
def completes (c : TcpConnection) : List Effect :=
  if c.writeCompleteCallback then [.queueInLoop .writeCompleteCallback] else []

/-- The functor that reports that the buffered bytes, `oldLen` so far, reach `highWaterMark_`. -/
def highWater (c : TcpConnection) (oldLen remaining : Nat) : List Effect :=
  if (c.highWaterMark ≤ oldLen + remaining ∧ oldLen < c.highWaterMark) ∧ c.highWaterMarkCallback then
    [.queueInLoop (.highWaterMarkCallback (oldLen + remaining))]
  else []

/-- `sendInLoop` writes directly: nothing is buffered and the channel does not wait for the socket. -/
def writesDirect (c : TcpConnection) : Bool :=
  !c.channel.isEnableWriteEvent && c.outputBuffer.readableBytes == 0

/-- `nWrote` of `sendInLoop`. -/
def nWrote (c : TcpConnection) (len : Nat) (w : WriteResult) : Int :=
  if c.writesDirect then w.count len else 0

/-- `remaining` of `sendInLoop`. -/
def remaining (c : TcpConnection) (len : Nat) (w : WriteResult) : Nat := len - (c.nWrote len w).toNat

/-- `errorOccurs` of `sendInLoop`. -/
def errorOccurs (c : TcpConnection) (w : WriteResult) : Bool := c.writesDirect && w.peerClosed

/-- The direct `::write` of `sendInLoop`, and the functor when it took the whole message. -/
def directWrite (c : TcpConnection) (mem : Memory) (data : Int) (len : Nat) (w : WriteResult) :
    List Effect :=
  if c.writesDirect then
    .write (bytesAt mem data (c.nWrote len w).toNat) ::
      if 0 ≤ c.nWrote len w ∧ c.remaining len w = 0 then c.completes else []
  else []

/-- `sendInLoop(data, len)` with the answer of its `::write`, if it makes one. -/
def sendInLoop (c : TcpConnection) (inLoop : Bool) (mem : Memory) (data : Int) (len : Nat)
    (w : WriteResult) : Except Abort Outcome := do
  check inLoop .assertInLoopThread
  if c.state = .kDisconnected then
    return { conn := c }
  else
    let remaining := c.remaining len w
    check (remaining ≤ len) .sendInLoop
    if !c.errorOccurs w && 0 < remaining then
      let oldLen := c.outputBuffer.readableBytes
      -- `data + nWrote`, also where `::write` returned `-1`
      let outputBuffer ← c.outputBuffer.append (bytesAt mem (data + c.nWrote len w) remaining)
      let effects := c.directWrite mem data len w ++ c.highWater oldLen remaining
      if c.channel.isEnableWriteEvent then
        return { conn := { c with outputBuffer }, effects }
      else
        return {
          conn := { c with outputBuffer, channel := c.channel.declare .enableWriteEvent }
          effects := effects ++ [.update] }
    else
      return { conn := c, effects := c.directWrite mem data len w }

/-- `handleWirte` with the answer of its `::write`, if it makes one. -/
def handleWirte (c : TcpConnection) (inLoop : Bool) (w : WriteResult) : Except Abort Outcome := do
  check inLoop .assertInLoopThread
  if c.channel.isEnableWriteEvent then
    c.outputBuffer.begin
    let n := w.count c.outputBuffer.readableBytes
    let written := Effect.write (c.outputBuffer.readable.take n.toNat)
    if 0 < n then
      let outputBuffer ← c.outputBuffer.retrieve n.toNat
      let c := { c with outputBuffer }
      if outputBuffer.readableBytes = 0 then
        let c := { c with channel := c.channel.declare .disableWriteEvent }
        let shut ← if c.state = .kDisconnecting then c.shutdownInLoop inLoop else .ok { conn := c }
        return { conn := c, effects := [written, .update] ++ c.completes ++ shut.effects }
      else
        return { conn := c, effects := [written] }
    else
      return { conn := c, effects := [written] }
  else
    return { conn := c }

/-! ### Calls from any thread -/

/-- How a call reaches the loop: `runInLoop` runs the functor at once on the loop's thread. -/
inductive ToLoop where
  | runInLoop (f : ConnFunctor)
  | queueInLoop (f : ConnFunctor)
  deriving DecidableEq, Repr

def ToLoop.functor : ToLoop → ConnFunctor
  | runInLoop f | queueInLoop f => f

/-- The public functions that act on the connection's state. -/
inductive Call where
  | send (data : Int) (len : Nat)
  | shutdown
  | forceClose
  | forceCloseWithDelay
  deriving DecidableEq, Repr

def send (c : TcpConnection) (data : Int) (len : Nat) : TcpConnection × Option ToLoop :=
  if c.state = .kConnected then (c, some (.runInLoop (.sendInLoop data len))) else (c, none)

def shutdown (c : TcpConnection) : TcpConnection × Option ToLoop :=
  if c.state = .kConnected then ({ c with state := .kDisconnecting }, some (.runInLoop .shutdownInLoop))
  else (c, none)

def forceClose (c : TcpConnection) : TcpConnection × Option ToLoop :=
  if c.Open then ({ c with state := .kDisconnecting }, some (.queueInLoop .forceCloseInLoop))
  else (c, none)

/-- `runAfter` of `forceCloseInLoop`; the timer reaches its loop through `runInLoop`. -/
def forceCloseWithDelay (c : TcpConnection) : TcpConnection × Option ToLoop :=
  if c.Open then ({ c with state := .kDisconnecting }, some (.runInLoop .addTimerInLoop))
  else (c, none)

/-- The check and the set of a call, with what it hands to the loop. -/
def call (c : TcpConnection) : Call → TcpConnection × Option ToLoop
  | .send data len => c.send data len
  | .shutdown => c.shutdown
  | .forceClose => c.forceClose
  | .forceCloseWithDelay => c.forceCloseWithDelay

/-- Running a functor on the loop's thread. The two user callbacks are user code only. -/
def runFunctor (c : TcpConnection) (inLoop : Bool) (mem : Memory) (w : WriteResult) :
    ConnFunctor → Except Abort Outcome
  | .connectEstablished => c.connectEstablished inLoop
  | .connectDestoryed => c.connectDestoryed inLoop
  | .sendInLoop data len => c.sendInLoop inLoop mem data len w
  | .shutdownInLoop => c.shutdownInLoop inLoop
  | .forceCloseInLoop => c.forceCloseInLoop inLoop
  | .addTimerInLoop => .ok { conn := c, effects := [.addTimer] }
  | .writeCompleteCallback => .ok { conn := c }
  | .highWaterMarkCallback _ => .ok { conn := c }

/-- One of the callbacks of `Channel::HandleEvent`. -/
def handleCallback (c : TcpConnection) (inLoop : Bool) (r : Option (List UInt8)) (w : WriteResult) :
    EventCallback → Except Abort Outcome
  | .close => c.handleClose inLoop
  | .read => c.handleRead inLoop r
  | .write => c.handleWirte inLoop w

end TcpConnection

end OulaServer
