import OulaServer.EventLoop.Basic
import OulaServer.Lib.Run

/-!
# No sleep with work pending

A loop and the threads that queue functors into it. On another thread `queueInLoop` is two steps, the
push under the lock and the write to the eventfd; on the loop's own thread nothing comes between
them. The eventfd is read when the wakeup channel is dispatched.

`Awake` says of a state in which the loop's thread polls that functors are pending only when
the eventfd is readable or another thread has yet to write it. While the loop runs, `Covered` keeps it:
a functor queued by the loop's thread during the dispatch is swapped out before the next `poll`, and
one queued while functors are called comes with a write. Before `loop()` is entered neither holds, so
`awake_iff` has a condition: when `loop()` is entered, a functor queued by the loop's own thread is not
alone.
-/

namespace OulaServer

namespace Wakeup

open Run EventLoop

/-- Who called `queueInLoop`. -/
inductive Caller (T : Type) where
  | loopThread
  | other (t : T)
  deriving DecidableEq, Repr

/-- What stands in `activeChanels_`: the wakeup channel or another one. -/
inductive Active where
  | wakeupChannel
  | channel
  deriving DecidableEq, Repr

/-- A loop, the threads between the push and the write of their `queueInLoop`, and the callers of
`queueInLoop` so far. -/
structure State (T F : Type) where
  loop : EventLoop Active F
  pushed : T → Bool
  callers : List (Caller T)

inductive Event (T F : Type) where
  | enterLoop
  | pollReturns (active : List Active)
  | handleEvent
  | swapFunctors
  | callFunctor
  | endFunctors
  | loopQueues (cb : F)
  | otherPushes (t : T) (cb : F)
  | otherWrites (t : T)

variable {T F : Type} [DecidableEq T]

def init : State T F := ⟨EventLoop.new, fun _ => false, []⟩

def step (s : State T F) : Event T F → Except Abort (State T F)
  | .enterLoop => .ok { s with loop := s.loop.enterPoll }
  | .pollReturns active => .ok { s with loop := s.loop.dispatch active }
  | .handleEvent =>
      match s.loop.phase with
      | .dispatching (.wakeupChannel :: rest) =>
          .ok { s with loop := s.loop.handleWakeupChannelRaad.dispatch rest }
      | .dispatching (.channel :: rest) => .ok { s with loop := s.loop.dispatch rest }
      | _ => .ok s
  | .swapFunctors => .ok { s with loop := s.loop.swapFunctors }
  | .callFunctor =>
      match s.loop.phase with
      | .calling (_ :: rest) => .ok { s with loop := s.loop.callRest rest }
      | _ => .ok s
  | .endFunctors => .ok { s with loop := s.loop.endFunctors }
  | .loopQueues cb =>
      .ok { s with loop := s.loop.queueInLoop true cb, callers := s.callers ++ [.loopThread] }
  | .otherPushes t cb =>
      .ok { s with
        loop := s.loop.push cb
        pushed := Function.update s.pushed t true
        callers := s.callers ++ [.other t] }
  | .otherWrites t =>
      .ok { s with
        loop := s.loop.wakeupToHandlePendingFunctors
        pushed := Function.update s.pushed t false }

/-- When each step can be taken. User code of the loop's thread runs in callbacks and in functors, and before
`loop()`; the destructors of the functors that were called are part of `endFunctors`, and taken to queue none. -/
def Enabled (s : State T F) : Event T F → Prop
  | .enterLoop => s.loop.phase = .beforeLoop
  | .pollReturns _ => s.loop.phase = .polling
  | .handleEvent => ∃ a rest, s.loop.phase = .dispatching (a :: rest)
  | .swapFunctors => s.loop.phase = .dispatching []
  | .callFunctor => ∃ cb rest, s.loop.phase = .calling (cb :: rest)
  | .endFunctors => s.loop.phase = .calling []
  | .loopQueues _ => s.loop.phase ≠ .polling
  | .otherPushes t _ => s.pushed t = false
  | .otherWrites t => s.pushed t = true

/-- When `loop()` is entered, a functor queued by the loop's own thread is not alone: another thread
queued one as well. -/
def NotAlone (s : State T F) : Event T F → Prop
  | .enterLoop => Caller.loopThread ∈ s.callers → ∃ c ∈ s.callers, c ≠ Caller.loopThread
  | _ => True

instance (s : State T F) : (e : Event T F) → Decidable (NotAlone s e)
  | .enterLoop => inferInstanceAs (Decidable (_ → ∃ c ∈ s.callers, c ≠ Caller.loopThread))
  | .pollReturns _ | .handleEvent | .swapFunctors | .callFunctor | .endFunctors | .loopQueues _
  | .otherPushes _ _ | .otherWrites _ => .isTrue trivial

/-- A wakeup is there or on its way. -/
def Covered (s : State T F) : Prop := 0 < s.loop.wakeupFd ∨ ∃ t, s.pushed t = true

/-- While the loop's thread polls, functors are pending only if a wakeup is there or on its way. -/
def Awake (_ : State T F) (_ : Event T F) (s : State T F) : Prop :=
  s.loop.phase = .polling → s.loop.pendingFunctors ≠ [] → Covered s

/-- What holds of the pending functors, by the phase of the loop. -/
structure Inv (s : State T F) : Prop where
  before : s.loop.phase = .beforeLoop → s.loop.isCallingPendingFunctors = false ∧
    (s.loop.pendingFunctors = [] ↔ s.callers = []) ∧ (Covered s ↔ ∃ c ∈ s.callers, c ≠ Caller.loopThread)
  polling : s.loop.phase = .polling → s.loop.pendingFunctors ≠ [] → Covered s
  calling : ∀ rest, s.loop.phase = .calling rest →
    s.loop.isCallingPendingFunctors = true ∧ (s.loop.pendingFunctors ≠ [] → Covered s)

omit [DecidableEq T] in
theorem init_inv : Inv (init : State T F) := by
  refine ⟨fun _ => ⟨rfl, ?_, ?_⟩, fun h => ?_, fun rest h => ?_⟩
  · simp [init, EventLoop.new]
  · simp [Covered, init, EventLoop.new]
  · cases h
  · cases h

theorem covered_push {s : State T F} {t : T} {cb : F} {callers : List (Caller T)} :
    Covered { s with loop := s.loop.push cb, pushed := Function.update s.pushed t true, callers } :=
  Or.inr ⟨t, by simp⟩

omit [DecidableEq T] in
theorem covered_write {s : State T F} {pushed : T → Bool} :
    Covered { s with loop := s.loop.wakeupToHandlePendingFunctors, pushed } :=
  Or.inl (Nat.succ_pos _)

theorem step_inv (s : State T F) (e : Event T F) (h : Inv s) (hen : Enabled s e) (hgood : NotAlone s e) :
    StepHolds step noError (fun s e t => Awake s e t ∧ Inv t) s e := by
  suffices hs : ∃ t, step s e = .ok t ∧ Inv t by
    obtain ⟨t, ht, hinv⟩ := hs
    exact StepHolds.of_ok ht ⟨hinv.polling, hinv⟩
  cases e with
  | enterLoop =>
      obtain ⟨_, hpend, hcov⟩ := h.before hen
      refine ⟨_, rfl, fun hp => (by cases hp), fun _ hne => ?_, fun _ hp => (by cases hp)⟩
      -- some thread queued the pending functor; if only the loop's did, the condition fails
      have hcallers : s.callers ≠ [] := fun hnil => hne (hpend.mpr hnil)
      obtain ⟨c, hc⟩ := List.exists_mem_of_ne_nil _ hcallers
      refine hcov.mpr ?_
      cases c with
      | loopThread => exact hgood hc
      | other t => exact ⟨_, hc, nofun⟩
  | pollReturns active =>
      exact ⟨_, rfl, fun hp => (by cases hp), fun hp => (by cases hp), fun _ hp => (by cases hp)⟩
  | handleEvent =>
      obtain ⟨a, rest, hphase⟩ := hen
      cases a with
      | wakeupChannel =>
          refine ⟨{ s with loop := s.loop.handleWakeupChannelRaad.dispatch rest }, ?_,
            fun hp => (by cases hp), fun hp => (by cases hp), fun _ hp => (by cases hp)⟩
          simp only [step, hphase]
      | channel =>
          refine ⟨{ s with loop := s.loop.dispatch rest }, ?_,
            fun hp => (by cases hp), fun hp => (by cases hp), fun _ hp => (by cases hp)⟩
          simp only [step, hphase]
  | swapFunctors =>
      refine ⟨_, rfl, fun hp => (by cases hp), fun hp => (by cases hp), fun rest _ => ⟨rfl, fun hne => ?_⟩⟩
      exact absurd rfl hne
  | callFunctor =>
      obtain ⟨cb, rest, hphase⟩ := hen
      refine ⟨{ s with loop := s.loop.callRest rest }, by simp only [step, hphase],
        fun hp => (by cases hp), fun hp => (by cases hp), fun rest' _ => ?_⟩
      exact h.calling _ hphase
  | endFunctors =>
      refine ⟨_, rfl, fun hp => (by cases hp), fun _ hne => ?_, fun _ hp => (by cases hp)⟩
      exact (h.calling _ hen).2 hne
  | loopQueues cb =>
      refine ⟨_, rfl, fun hp => ?_, fun hp => ?_, fun rest hp => ?_⟩
      · rw [queueInLoop_phase] at hp
        obtain ⟨hcalling, _, hcov⟩ := h.before hp
        refine ⟨by simpa using hcalling, by simp, ?_⟩
        simpa [Covered, queueInLoop_wakeupFd, hcalling] using hcov
      · rw [queueInLoop_phase] at hp
        exact absurd hp hen
      · rw [queueInLoop_phase] at hp
        have hcalling := (h.calling rest hp).1
        refine ⟨by simpa using hcalling, fun _ => Or.inl ?_⟩
        simp [queueInLoop_wakeupFd, hcalling]
  | otherPushes t cb =>
      refine ⟨_, rfl, fun hp => ?_, fun _ _ => covered_push, fun rest hp => ?_⟩
      · refine ⟨(h.before hp).1, by simp [EventLoop.push], iff_of_true covered_push ⟨.other t, by simp, nofun⟩⟩
      · exact ⟨(h.calling rest hp).1, fun _ => covered_push⟩
  | otherWrites t =>
      have hcov : Covered s := Or.inr ⟨t, hen⟩
      refine ⟨_, rfl, fun hp => ?_, fun _ _ => covered_write, fun rest hp => ?_⟩
      · obtain ⟨hcalling, hpend, hiff⟩ := h.before hp
        exact ⟨hcalling, hpend, iff_of_true covered_write (hiff.mp hcov)⟩
      · exact ⟨(h.calling rest hp).1, fun _ => covered_write⟩

/-- Entering the loop with a functor that only the loop's own thread queued: it polls, and nothing will
wake it. -/
theorem enterLoop_bad (s : State T F) (e : Event T F) (h : Inv s) (hen : Enabled s e)
    (hbad : ¬ NotAlone s e) : ¬ StepHolds step noError Awake s e := by
  intro hold
  cases e with
  | enterLoop =>
      simp only [NotAlone, Classical.not_imp] at hbad
      obtain ⟨hloop, hother⟩ := hbad
      obtain ⟨_, hpend, hcov⟩ := h.before hen
      have hne : s.loop.pendingFunctors ≠ [] := fun hnil => by
        rw [hpend.mp hnil] at hloop
        cases hloop
      exact hother (hcov.mp (hold.2 { s with loop := s.loop.enterPoll } rfl rfl hne))
  | _ => exact hbad trivial

/-- **When the loop never sleeps on pending functors.** In every interleaving of a loop with the calls
of `queueInLoop` from its own thread and from any others: whenever it polls with functors pending, the
eventfd is readable or another thread has pushed its functor and not written it yet, if and only if
`loop()` was not entered with functors that only the loop's own thread had queued. -/
theorem awake_iff (es : List (Event T F)) (hes : Along step Enabled init es) :
    Holds step noError Awake (init : State T F) es ↔ Along step NotAlone init es :=
  holds_iff_along (fun s e h hen hgood => step_inv s e h hen hgood)
    (fun s e h hen hbad => enterLoop_bad s e h hen hbad) init_inv hes

/-- Two functors queued before `loop()`, one of them by another thread, and one queued while those two
are called. -/
theorem awake_iff_run : Holds step noError Awake (init : State Unit Bool)
    [.loopQueues false, .otherPushes () true, .enterLoop, .otherWrites (),
      .pollReturns [.wakeupChannel], .handleEvent, .swapFunctors, .callFunctor, .loopQueues false,
      .callFunctor, .endFunctors] := by
  refine (awake_iff _ ?_).mpr ?_
  · refine ⟨nofun, fun _ h => ?_⟩; cases h
    refine ⟨rfl, fun _ h => ?_⟩; cases h
    refine ⟨rfl, fun _ h => ?_⟩; cases h
    refine ⟨rfl, fun _ h => ?_⟩; cases h
    refine ⟨rfl, fun _ h => ?_⟩; cases h
    refine ⟨⟨_, _, rfl⟩, fun _ h => ?_⟩; cases h
    refine ⟨rfl, fun _ h => ?_⟩; cases h
    refine ⟨⟨_, _, rfl⟩, fun _ h => ?_⟩; cases h
    refine ⟨nofun, fun _ h => ?_⟩; cases h
    refine ⟨⟨_, _, rfl⟩, fun _ h => ?_⟩; cases h
    exact ⟨rfl, fun _ _ => trivial⟩
  · decide

/-- A functor that the loop's own thread queues before `loop()`: the loop goes to sleep on it. -/
theorem queued_before_loop : Along step Enabled (init : State Unit Unit) [.loopQueues (), .enterLoop] ∧
    ¬ Holds step noError Awake (init : State Unit Unit) [.loopQueues (), .enterLoop] := by
  refine ⟨⟨nofun, fun _ h => ?_⟩, fun h => ?_⟩
  · cases h
    exact ⟨rfl, fun _ _ => trivial⟩
  · have hawake := ((h.2 _ rfl).2.2 _ rfl).1
    rcases hawake rfl nofun with hfd | ⟨t, ht⟩
    · exact absurd hfd (by decide)
    · cases ht

end Wakeup

end OulaServer
