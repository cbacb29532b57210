import OulaServer.Abort

/-!
# `Channel`

The event masks of `poll(2)`, the interest a channel declares and the callbacks that
`Channel::HandleEvent` invokes. `Channel::update` and `Channel::remove` go through the loop to its
poller (`OulaServer.Poller`).
-/

namespace OulaServer

/-- An `int` of event bits. -/
abbrev Events := BitVec 32

def pollIn : Events := 0x1
def pollPri : Events := 0x2
def pollOut : Events := 0x4
def pollErr : Events := 0x8
def pollHup : Events := 0x10
def pollNval : Events := 0x20
def pollRdHup : Events := 0x2000

def kReadEvent : Events := pollIn ||| pollPri
def kWriteEvent : Events := pollOut
def kNoneEvent : Events := 0

inductive ChannelInPollerStatus where
  | kInit
  | kAdded
  | kDeleted
  deriving DecidableEq, Repr

structure Channel where
  fd : Int
  events : Events
  inPollerStatus : ChannelInPollerStatus
  deriving DecidableEq, Repr

namespace Channel

def new (fd : Int) : Channel := ⟨fd, kNoneEvent, .kInit⟩

def isNoneEvent (c : Channel) : Bool := c.events == kNoneEvent

def isEnableReadEvent (c : Channel) : Bool := c.events &&& kReadEvent != 0

def isEnableWriteEvent (c : Channel) : Bool := c.events &&& kWriteEvent != 0

end Channel

/-! ### Changing the interest -/

/-- The operations on the interest, each followed by `update()`. -/
inductive ChannelOp where
  | enableReadEvent
  | disableReadEvent
  | enableWriteEvent
  | disableWriteEvent
  | disableAllEvent
  deriving DecidableEq, Repr

namespace ChannelOp

/-- What the operation makes of `events_`. -/
def apply (e : Events) : ChannelOp → Events
  | .enableReadEvent => e ||| kReadEvent
  | .disableReadEvent => e &&& ~~~kReadEvent
  | .enableWriteEvent => e ||| kWriteEvent
  | .disableWriteEvent => e &&& ~~~kWriteEvent
  | .disableAllEvent => kNoneEvent

def isDisable : ChannelOp → Bool
  | .enableReadEvent | .enableWriteEvent => false
  | .disableReadEvent | .disableWriteEvent | .disableAllEvent => true

end ChannelOp

/-- The field change of an operation; `update()` follows it. -/
def Channel.declare (c : Channel) (op : ChannelOp) : Channel := { c with events := op.apply c.events }

/-- An operation on a channel of a poller: a change of its interest, or `Channel::remove`. -/
inductive PollerOp (ι : Type) where
  | update (ch : ι) (op : ChannelOp)
  | remove (ch : ι)

/-- The interests that the operations reach: reading and writing, each on or off. -/
def Interest (e : Events) : Prop :=
  e = kNoneEvent ∨ e = kReadEvent ∨ e = kWriteEvent ∨ e = kReadEvent ||| kWriteEvent

theorem Interest.none : Interest kNoneEvent := Or.inl rfl

theorem Interest.apply {e : Events} (h : Interest e) (op : ChannelOp) : Interest (op.apply e) := by
  rcases h with rfl | rfl | rfl | rfl <;> cases op <;> unfold Interest <;> decide

theorem apply_enable_ne_none {e : Events} (h : Interest e) {op : ChannelOp} (hop : op.isDisable = false) :
    op.apply e ≠ kNoneEvent := by
  rcases h with rfl | rfl | rfl | rfl <;> cases op <;> revert hop <;> decide

theorem apply_disable_none {op : ChannelOp} (hop : op.isDisable = true) :
    op.apply kNoneEvent = kNoneEvent := by
  cases op <;> revert hop <;> decide

/-- The interest fits a `short`, which is what `struct pollfd` holds. -/
theorem Interest.signExtend {e : Events} (h : Interest e) : (e.setWidth 16).signExtend 32 = e := by
  rcases h with rfl | rfl | rfl | rfl <;> decide

/-! ### Dispatching received events -/

inductive EventCallback where
  | close
  | read
  | write
  deriving DecidableEq, Repr

/-- `(rEvents_ & POLLHUP) && !(rEvents_ & POLLIN)`. -/
def isHangUp (r : Events) : Bool := r &&& pollHup != 0 && r &&& pollIn == 0

/-- `rEvents_ & (POLLIN | POLLPRI | POLLRDHUP)`. -/
def isReadable (r : Events) : Bool := r &&& (pollIn ||| pollPri ||| pollRdHup) != 0

/-- `rEvents_ & POLLOUT`. -/
def isWritable (r : Events) : Bool := r &&& pollOut != 0

/-- `Channel::HandleEvent`: the callbacks it invokes for the received events, in this order. -/
def handleEvent (r : Events) : List EventCallback :=
  (if isHangUp r then [.close] else []) ++ (if isReadable r then [.read] else []) ++
    if isWritable r then [.write] else []

theorem handleEvent_write {r : Events} (hhup : isHangUp r = false) (hread : isReadable r = false) :
    ∀ cb ∈ handleEvent r, cb = .write := by
  unfold handleEvent
  rw [hhup, hread]
  cases isWritable r <;> simp

/-- A hang-up or a readable event comes first; with only one of them the rest is writing. -/
theorem handleEvent_tail {r : Events} (h : ¬ (isHangUp r = true ∧ isReadable r = true)) :
    ∀ cb ∈ (handleEvent r).tail, cb = .write := by
  unfold handleEvent
  cases hhup : isHangUp r <;> cases hread : isReadable r <;> cases isWritable r <;> simp_all

/-- The bits that `poll` can report for an interest: those asked for, and the three it always may. -/
def Reportable (interest r : Events) : Prop :=
  r ≠ 0 ∧ r &&& ~~~(interest ||| pollErr ||| pollHup ||| pollNval) = 0

instance (interest r : Events) : Decidable (Reportable interest r) :=
  inferInstanceAs (Decidable (_ ∧ _))

end OulaServer
