import Mathlib.Data.Prod.Lex
import OulaServer.Abort
import OulaServer.Lib.OrderedSet

/-!
# `TimerQueue`

`net/TimerQueue.cpp` with `net/Timer.cpp` and the parts of `net/utils/Timestamp.h` it uses. The heap is a map
from the addresses of the allocated `Timer`s; the use of an address that holds none is an error, as a failed
assertion is. `std::set` is `OrderedSet`, over pairs that are compared lexicographically.

`handelRead` calls user code for each expired timer. It is therefore in parts: `startBatch` up to the first
callback, `run` of a timer, and `endBatch` after the last one.
-/

namespace OulaServer

/-! ### Time -/

/-- `microSecondsSinceEpoch_`. -/
abbrev Timestamp := Int

namespace Timestamp

def kMicroSecondsPerSecond : Int := 1000 * 1000

def getInvalid : Timestamp := 0

def isValid (t : Timestamp) : Bool := 0 < t

end Timestamp

/-- A `double` of seconds, as far as the code looks at it: whether it is positive, and the microseconds that
`addTime` makes of it. -/
structure Interval where
  positive : Bool
  micros : Int
  deriving DecidableEq, Repr

def addTime (t : Timestamp) (seconds : Interval) : Timestamp := t + seconds.micros

/-- `howMuchTimeFromNow`, as seconds and nanoseconds. -/
def howMuchTimeFromNow (expiration now : Timestamp) : Int × Int :=
  let microseconds := if expiration - now < 100 then 100 else expiration - now
  (microseconds.tdiv Timestamp.kMicroSecondsPerSecond, microseconds.tmod Timestamp.kMicroSecondsPerSecond * 1000)

inductive TimeFdState where
  | disarmed
  | armed
  | readable
  deriving DecidableEq, Repr

/-- The timerfd, with the `expiration` of the last `resetTimerFd`. -/
structure TimeFd where
  state : TimeFdState
  expiration : Option Timestamp
  deriving DecidableEq, Repr

namespace TimeFd

/-- `readTimeFd`. -/
def read (fd : TimeFd) : TimeFd := if fd.state = .readable then { fd with state := .disarmed } else fd

/-- `resetTimerFd`. -/
def reset (_ : TimeFd) (expiration now : Timestamp) : TimeFd where
  state := if howMuchTimeFromNow expiration now = (0, 0) then .disarmed else .armed
  expiration := some expiration

end TimeFd

/-! ### Timers -/

/-- The address of a `Timer`. -/
abbrev Addr := Nat

def UINTPTR_MAX : Addr := 2 ^ 64 - 1

structure Timer where
  expiration : Timestamp
  interval : Interval
  seq : Nat
  deriving DecidableEq, Repr

namespace Timer

/-- `repeat_`. -/
def repeats (t : Timer) : Bool := t.interval.positive

def restart (t : Timer) (now : Timestamp) : Timer :=
  if t.repeats then { t with expiration := addTime now t.interval } else { t with expiration := Timestamp.getInvalid }

@[simp] theorem restart_seq (t : Timer) (now : Timestamp) : (t.restart now).seq = t.seq := by
  unfold restart
  split_ifs <;> rfl

@[simp] theorem restart_interval (t : Timer) (now : Timestamp) : (t.restart now).interval = t.interval := by
  unfold restart
  split_ifs <;> rfl

end Timer

structure TimerId where
  timer : Addr
  seq : Nat
  deriving DecidableEq, Repr

abbrev Entry := Timestamp ×ₗ Addr

def Entry.mk (when : Timestamp) (timer : Addr) : Entry := toLex (when, timer)

def Entry.when (e : Entry) : Timestamp := (ofLex e).1

def Entry.timer (e : Entry) : Addr := (ofLex e).2

abbrev ActiveTimer := Addr ×ₗ Nat

def ActiveTimer.mk (timer : Addr) (seq : Nat) : ActiveTimer := toLex (timer, seq)

def ActiveTimer.timer (x : ActiveTimer) : Addr := (ofLex x).1

def ActiveTimer.seq (x : ActiveTimer) : Nat := (ofLex x).2

def TimerId.activeTimer (id : TimerId) : ActiveTimer := ActiveTimer.mk id.timer id.seq

/-! ### The queue -/

structure TimerQueue where
  timers : OrderedSet Entry
  activeTimers : OrderedSet ActiveTimer
  callingExpiredTimers : Bool
  cancelingTimers : OrderedSet ActiveTimer
  timefd : TimeFd
  /-- The allocated timers. -/
  heap : Addr → Option Timer
  /-- `Timer::seqTotal`. -/
  seqTotal : Nat
  /-- What was deleted so far, for the statements about runs. -/
  deleted : List (Addr × Timer)

namespace TimerQueue

def new : TimerQueue := ⟨.empty, .empty, false, .empty, ⟨.disarmed, none⟩, fun _ => none, 0, []⟩

/-- `new Timer(cb, when, interval)` at a free address, whose `seqTotal++` read `seq`. -/
def construct (q : TimerQueue) (a : Addr) (seq : Nat) (when : Timestamp) (interval : Interval) : TimerQueue :=
  { q with heap := Function.update q.heap a (some ⟨when, interval, seq⟩), seqTotal := seq + 1 }

/-- `new Timer(cb, when, interval)` while no other thread constructs a timer. `seqTotal` is a plain static that
all queues share, and `addTimer` reads `sequence()` for the id only after it has passed the timer on; both are in
`OulaServer.TimerQueue.Threads`. -/
def newTimer (q : TimerQueue) (a : Addr) (when : Timestamp) (interval : Interval) : TimerQueue :=
  q.construct a q.seqTotal when interval

/-- The timer that a pointer points to. -/
def deref (q : TimerQueue) (a : Addr) : Except Abort Timer :=
  match q.heap a with
  | some t => .ok t
  | none => .error .timerFreed

def delete (q : TimerQueue) (a : Addr) : Except Abort TimerQueue := do
  let t ← q.deref a
  return { q with heap := Function.update q.heap a none, deleted := q.deleted ++ [(a, t)] }

def resetTimerFd (q : TimerQueue) (expiration clock : Timestamp) : TimerQueue :=
  { q with timefd := q.timefd.reset expiration clock }

/-- `timers_.size() == activeTimers_.size()`. -/
def SameSize (q : TimerQueue) : Prop := q.timers.size = q.activeTimers.size

instance (q : TimerQueue) : Decidable q.SameSize := inferInstanceAs (Decidable (_ = _))

/-- `insert`, and whether the earliest expiration changed. -/
def insert (q : TimerQueue) (inLoop : Bool) (timer : Addr) : Except Abort (TimerQueue × Bool) := do
  check inLoop .assertInLoopThread
  check q.SameSize .timersSize
  let t ← q.deref timer
  let earliestChanged := match q.timers.first with
    | none => true
    | some e => decide (t.expiration < e.when)
  let (timers, isNew) := q.timers.insert (.mk t.expiration timer)
  check isNew .insertTimer
  let (activeTimers, isNew) := q.activeTimers.insert (.mk timer t.seq)
  check isNew .insertActiveTimer
  let q := { q with timers, activeTimers }
  check q.SameSize .timersSize
  return (q, earliestChanged)

/-- `addTimerInLoop`, with the clock that `resetTimerFd` reads. -/
def addTimerInLoop (q : TimerQueue) (inLoop : Bool) (timer : Addr) (clock : Timestamp) : Except Abort TimerQueue := do
  check inLoop .assertInLoopThread
  let (q, earliestChanged) ← q.insert inLoop timer
  if earliestChanged then
    let t ← q.deref timer
    return q.resetTimerFd t.expiration clock
  else
    return q

def cancelInLoop (q : TimerQueue) (inLoop : Bool) (id : TimerId) : Except Abort TimerQueue := do
  check inLoop .assertInLoopThread
  check q.SameSize .timersSize
  let q ← if id.activeTimer ∈ q.activeTimers then do
      let t ← q.deref id.timer
      let (timers, n) := q.timers.erase (.mk t.expiration id.timer)
      check (n = 1) .cancelInLoop
      let q ← { q with timers }.delete id.timer
      pure { q with activeTimers := (q.activeTimers.erase id.activeTimer).1 }
    else if q.callingExpiredTimers then
      pure { q with cancelingTimers := (q.cancelingTimers.insert id.activeTimer).1 }
    else
      pure q
  check q.SameSize .timersSize
  return q

/-! ### Expired timers -/

/-- One expired timer leaves `activeTimers_`. -/
def eraseActive (q : TimerQueue) (e : Entry) : Except Abort TimerQueue := do
  let t ← q.deref e.timer
  let (activeTimers, n) := q.activeTimers.erase (.mk e.timer t.seq)
  check (n = 1) .getExpiredActive
  return { q with activeTimers }

def getExpired (q : TimerQueue) (now : Timestamp) : Except Abort (TimerQueue × List Entry) := do
  check q.SameSize .timersSize
  let nowEntry := Entry.mk now UINTPTR_MAX
  let left := q.timers.eraseBefore nowEntry
  check (∀ e, left.first = some e → now < e.when) .getExpiredEnd
  let expired := q.timers.before nowEntry
  let q ← expired.foldlM eraseActive { q with timers := left }
  check q.SameSize .timersSize
  return (q, expired)

/-- `handelRead` up to its first callback, with the clock's `now`. -/
def startBatch (q : TimerQueue) (inLoop : Bool) (now : Timestamp) : Except Abort (TimerQueue × List Entry) := do
  check inLoop .assertInLoopThread
  let (q, expired) ← { q with timefd := q.timefd.read }.getExpired now
  return ({ q with callingExpiredTimers := true, cancelingTimers := .empty }, expired)

/-- `it.second->run()`, before the callback. -/
def run (q : TimerQueue) (e : Entry) : Except Abort TimerId := do
  let t ← q.deref e.timer
  return ⟨e.timer, t.seq⟩

/-- One expired timer in `reset`: it is inserted again or deleted. -/
def resetTimer (now : Timestamp) (q : TimerQueue) (e : Entry) : Except Abort TimerQueue := do
  let t ← q.deref e.timer
  if t.repeats ∧ ActiveTimer.mk e.timer t.seq ∉ q.cancelingTimers then
    let q := { q with heap := Function.update q.heap e.timer (some (t.restart now)) }
    let (q, _) ← q.insert true e.timer
    return q
  else
    q.delete e.timer

/-- `nextExpire` of `reset`. -/
def nextExpire (q : TimerQueue) : Except Abort Timestamp :=
  match q.timers.first with
  | some e => (q.deref e.timer).map Timer.expiration
  | none => .ok Timestamp.getInvalid

/-- `reset`, with the clock that `resetTimerFd` reads. -/
def reset (q : TimerQueue) (expired : List Entry) (now clock : Timestamp) : Except Abort TimerQueue := do
  let q ← expired.foldlM (resetTimer now) q
  let nextExpire ← q.nextExpire
  if nextExpire.isValid then return q.resetTimerFd nextExpire clock else return q

/-- `handelRead` after its last callback. -/
def endBatch (q : TimerQueue) (expired : List Entry) (now clock : Timestamp) : Except Abort TimerQueue :=
  { q with callingExpiredTimers := false }.reset expired now clock

end TimerQueue

end OulaServer
