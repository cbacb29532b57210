import OulaServer.Abort

/-!
# `EventLoop`

The part of `net/Eventloop.cpp` that orders the work of a loop's thread: `loop()` alternates between
`poller_->poll`, the dispatch of the active channels and `handlePendingFunctors`, which swaps the
pending functors out and calls them one by one. `queueInLoop` appends a functor from any thread and
wakes the loop up through `wakeupFd_`.

The type `A` is what stands in `activeChanels_` and `F` the type of functors; each system built on a
loop chooses its own. Every operation here is one step of the loop's thread or of a caller.
-/

namespace OulaServer

/-- Where the loop's thread stands: `loop()` is not entered yet, it waits in `poll`, it dispatches the
rest of `activeChanels_`, or it calls the rest of the functors that were swapped out. -/
inductive Phase (A F : Type) where
  | beforeLoop
  | polling
  | dispatching (active : List A)
  | calling (functors : List F)
  deriving DecidableEq, Repr

namespace Phase

variable {A F : Type}

/-- The channel that `HandleEvent` is called on next. -/
def nextChannel : Phase A F → Option A
  | dispatching (a :: _) => some a
  | _ => none

/-- The functor that is called next. -/
def nextFunctor : Phase A F → Option F
  | calling (f :: _) => some f
  | _ => none

theorem nextChannel_eq_some {p : Phase A F} {a : A} :
    p.nextChannel = some a ↔ ∃ active, p = .dispatching (a :: active) := by
  constructor
  · intro h
    unfold nextChannel at h
    split at h
    · cases h
      exact ⟨_, rfl⟩
    · cases h
  · rintro ⟨active, rfl⟩
    rfl

theorem nextFunctor_eq_some {p : Phase A F} {f : F} :
    p.nextFunctor = some f ↔ ∃ functors, p = .calling (f :: functors) := by
  constructor
  · intro h
    unfold nextFunctor at h
    split at h
    · cases h
      exact ⟨_, rfl⟩
    · cases h
  · rintro ⟨functors, rfl⟩
    rfl

end Phase

structure EventLoop (A F : Type) where
  phase : Phase A F
  pendingFunctors : List F
  isCallingPendingFunctors : Bool
  /-- The counter of the eventfd `wakeupFd_`. -/
  wakeupFd : Nat
  deriving DecidableEq, Repr

namespace EventLoop

variable {A F : Type}

def new : EventLoop A F := ⟨.beforeLoop, [], false, 0⟩

/-- The locked part of `queueInLoop`. -/
def push (l : EventLoop A F) (cb : F) : EventLoop A F :=
  { l with pendingFunctors := l.pendingFunctors ++ [cb] }

def wakeupToHandlePendingFunctors (l : EventLoop A F) : EventLoop A F :=
  { l with wakeupFd := l.wakeupFd + 1 }

/-- `queueInLoop`, called on the loop's thread or on another one. -/
def queueInLoop (l : EventLoop A F) (isInLoopThread : Bool) (cb : F) : EventLoop A F :=
  let l := l.push cb
  if !isInLoopThread || l.isCallingPendingFunctors then l.wakeupToHandlePendingFunctors else l

/-- `handleWakeupChannelRaad`: the read resets the counter. -/
def handleWakeupChannelRaad (l : EventLoop A F) : EventLoop A F := { l with wakeupFd := 0 }

def enterPoll (l : EventLoop A F) : EventLoop A F := { l with phase := .polling }

/-- `poll` filled `activeChanels_`. -/
def dispatch (l : EventLoop A F) (active : List A) : EventLoop A F := { l with phase := .dispatching active }

/-- The flag and the swap at the start of `handlePendingFunctors`. -/
def swapFunctors (l : EventLoop A F) : EventLoop A F :=
  { l with phase := .calling l.pendingFunctors, pendingFunctors := [], isCallingPendingFunctors := true }

/-- The rest of the functors after the next one was taken. -/
def callRest (l : EventLoop A F) (functors : List F) : EventLoop A F := { l with phase := .calling functors }

/-- The end of `handlePendingFunctors`, after which `loop()` polls again: the flag's reset, the destruction of the
functors that were swapped out, and the entry into `poll`, in one step. A functor whose destructor queues another one
on the loop's thread, without a wakeup, is not covered. -/
def endFunctors (l : EventLoop A F) : EventLoop A F :=
  { l with phase := .polling, isCallingPendingFunctors := false }

/-- The functors that are queued and not called yet, in the order in which they will be called. -/
def queued (l : EventLoop A F) : List F :=
  match l.phase with
  | .calling functors => functors ++ l.pendingFunctors
  | _ => l.pendingFunctors

variable {l : EventLoop A F} {cb : F} {inLoop : Bool}

@[simp] theorem queueInLoop_phase : (l.queueInLoop inLoop cb).phase = l.phase := by
  simp only [queueInLoop]
  split_ifs <;> rfl

@[simp] theorem queueInLoop_pending :
    (l.queueInLoop inLoop cb).pendingFunctors = l.pendingFunctors ++ [cb] := by
  simp only [queueInLoop]
  split_ifs <;> rfl

@[simp] theorem queueInLoop_isCalling :
    (l.queueInLoop inLoop cb).isCallingPendingFunctors = l.isCallingPendingFunctors := by
  simp only [queueInLoop]
  split_ifs <;> rfl

/-- On the loop's thread the wakeup is elided unless functors are being called. -/
theorem queueInLoop_wakeupFd : (l.queueInLoop true cb).wakeupFd =
    if l.isCallingPendingFunctors then l.wakeupFd + 1 else l.wakeupFd := by
  simp only [queueInLoop, Bool.not_true, Bool.false_or, push]
  split_ifs <;> rfl

@[simp] theorem queued_queueInLoop : (l.queueInLoop inLoop cb).queued = l.queued ++ [cb] := by
  unfold queued
  rw [queueInLoop_phase, queueInLoop_pending]
  cases l.phase <;> simp

/-! ### The queue in each phase -/

variable {active : List A} {functors : List F}

@[simp] theorem queued_enterPoll : l.enterPoll.queued = l.pendingFunctors := rfl

@[simp] theorem queued_dispatch : (l.dispatch active).queued = l.pendingFunctors := rfl

@[simp] theorem queued_swapFunctors : l.swapFunctors.queued = l.pendingFunctors := by
  simp [queued, swapFunctors]

@[simp] theorem queued_callRest : (l.callRest functors).queued = functors ++ l.pendingFunctors := rfl

@[simp] theorem queued_endFunctors : l.endFunctors.queued = l.pendingFunctors := rfl

theorem queued_calling (h : l.phase = .calling functors) : l.queued = functors ++ l.pendingFunctors := by
  simp only [queued, h]

theorem queued_beforeLoop (h : l.phase = .beforeLoop) : l.queued = l.pendingFunctors := by
  simp only [queued, h]

theorem queued_polling (h : l.phase = .polling) : l.queued = l.pendingFunctors := by
  simp only [queued, h]

theorem queued_dispatching (h : l.phase = .dispatching active) : l.queued = l.pendingFunctors := by
  simp only [queued, h]

end EventLoop

end OulaServer
