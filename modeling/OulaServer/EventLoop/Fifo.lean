import OulaServer.EventLoop.Wakeup

/-!
# Functors run once and in order

The system of `OulaServer.EventLoop.Wakeup` with its history: the functors that were pushed into
`pendingFunctors_`, in the order in which the lock was taken, those that `handlePendingFunctors` called, and
the same since the swap of its last call. A functor that queues others does it in steps between the start of
its own call and the next one.

What was called, then what is queued, is what was pushed (`History.queued`); and while functors are called,
those called since the swap, then the rest, are the ones that the swap took, and those pushed since are
pending. Each step keeps it: a push appends at the end of both, and a call moves the first of the rest.
-/

namespace OulaServer

namespace Fifo

open Run EventLoop

structure State (T F : Type) where
  sys : Wakeup.State T F
  /-- The insertions into `pendingFunctors_`. -/
  inserted : List F
  /-- The functors that were called. -/
  executed : List F
  /-- The functors present at the last swap, those called since, and those inserted since. -/
  present : List F
  called : List F
  since : List F

variable {T F : Type} [DecidableEq T]

def init : State T F := ⟨Wakeup.init, [], [], [], [], []⟩

/-- What the history records of a step. -/
def record (s : State T F) : Wakeup.Event T F → State T F
  | .loopQueues cb | .otherPushes _ cb => { s with inserted := s.inserted ++ [cb], since := s.since ++ [cb] }
  | .swapFunctors => { s with present := s.sys.loop.pendingFunctors, called := [], since := [] }
  | .callFunctor =>
      match s.sys.loop.phase.nextFunctor with
      | some cb => { s with executed := s.executed ++ [cb], called := s.called ++ [cb] }
      | none => s
  | .enterLoop | .pollReturns _ | .handleEvent | .endFunctors | .otherWrites _ => s

def step (s : State T F) (e : Wakeup.Event T F) : Except Abort (State T F) :=
  (Wakeup.step s.sys e).map fun sys => { record s e with sys }

def Enabled (s : State T F) (e : Wakeup.Event T F) : Prop := Wakeup.Enabled s.sys e

/-- The functors called are the first of those inserted. While a call of `handlePendingFunctors` lasts, it has
called the first of those present at its swap, the rest of them are left to it, and those inserted since are
left to a later call; when it ends it has called them all. -/
structure InOrder (_ : State T F) (e : Wakeup.Event T F) (s : State T F) : Prop where
  executed : s.executed <+: s.inserted
  called : ∀ rest, s.sys.loop.phase = .calling rest → s.called ++ rest = s.present
  later : ∀ rest, s.sys.loop.phase = .calling rest → s.sys.loop.pendingFunctors = s.since
  ended : e = .endFunctors → s.called = s.present

/-! ### The invariant -/

structure History (s : State T F) : Prop where
  queued : s.executed ++ s.sys.loop.queued = s.inserted
  called : ∀ rest, s.sys.loop.phase = .calling rest → s.called ++ rest = s.present
  later : ∀ rest, s.sys.loop.phase = .calling rest → s.sys.loop.pendingFunctors = s.since

variable {s : State T F} {sys : Wakeup.State T F}

omit [DecidableEq T] in
theorem init_history : History (init : State T F) := ⟨rfl, nofun, nofun⟩

omit [DecidableEq T] in
theorem History.elsewhere (h : History s) (hqueued : sys.loop.queued = s.sys.loop.queued)
    (hphase : ∀ rest, sys.loop.phase ≠ .calling rest) : History { s with sys } := by
  refine ⟨?_, fun rest hrest => absurd hrest (hphase rest), fun rest hrest => absurd hrest (hphase rest)⟩
  rw [← h.queued]
  exact congrArg (s.executed ++ ·) hqueued

omit [DecidableEq T] in
theorem History.push (h : History s) {cb : F} (hphase : sys.loop.phase = s.sys.loop.phase)
    (hpending : sys.loop.pendingFunctors = s.sys.loop.pendingFunctors ++ [cb])
    (hqueued : sys.loop.queued = s.sys.loop.queued ++ [cb]) :
    History { s with sys, inserted := s.inserted ++ [cb], since := s.since ++ [cb] } := by
  refine ⟨?_, fun rest hrest => h.called rest (hphase.symm.trans hrest), fun rest hrest => ?_⟩
  · change s.executed ++ sys.loop.queued = s.inserted ++ [cb]
    rw [hqueued, ← List.append_assoc, h.queued]
  · change sys.loop.pendingFunctors = s.since ++ [cb]
    rw [hpending, h.later rest (hphase.symm.trans hrest)]

theorem step_history (s : State T F) (e : Wakeup.Event T F) (h : History s) (hen : Enabled s e) :
    ∃ t, step s e = .ok t ∧ InOrder s e t ∧ History t := by
  suffices hs : ∃ t, step s e = .ok t ∧ History t ∧ (e = .endFunctors → t.called = t.present) by
    obtain ⟨t, ht, hhistory, hended⟩ := hs
    refine ⟨t, ht, ⟨?_, hhistory.called, hhistory.later, hended⟩, hhistory⟩
    rw [← hhistory.queued]
    exact List.prefix_append _ _
  cases e with
  | enterLoop => exact ⟨_, rfl, h.elsewhere (queued_beforeLoop hen).symm nofun, nofun⟩
  | pollReturns active => exact ⟨_, rfl, h.elsewhere (queued_polling hen).symm nofun, nofun⟩
  | handleEvent =>
      obtain ⟨a, rest, hphase⟩ := hen
      have hqueued := (queued_dispatching hphase).symm
      cases a with
      | wakeupChannel =>
          refine ⟨{ s with sys := { s.sys with loop := s.sys.loop.handleWakeupChannelRaad.dispatch rest } }, ?_,
            h.elsewhere hqueued nofun, nofun⟩
          simp only [step, Wakeup.step, hphase]
          rfl
      | channel =>
          refine ⟨{ s with sys := { s.sys with loop := s.sys.loop.dispatch rest } }, ?_,
            h.elsewhere hqueued (fun _ he => by cases he), by simp⟩
          simp only [step, Wakeup.step, hphase]
          rfl
  | swapFunctors =>
      refine ⟨_, rfl, ⟨?_, ?_, fun _ _ => rfl⟩, by simp⟩
      · refine (congrArg (s.executed ++ ·) ?_).trans h.queued
        exact queued_swapFunctors.trans (queued_dispatching hen).symm
      · rintro rest ⟨⟩
        rfl
  | callFunctor =>
      obtain ⟨cb, rest, hphase⟩ := hen
      have hqueued := h.queued
      have hcalled := h.called _ hphase
      have hlater := h.later _ hphase
      rw [queued_calling hphase] at hqueued
      refine ⟨{ s with
        sys := { s.sys with loop := s.sys.loop.callRest rest }
        executed := s.executed ++ [cb]
        called := s.called ++ [cb] }, ?_, ⟨?_, ?_, fun _ _ => hlater⟩, by simp⟩
      · simp only [step, Wakeup.step, hphase, record, Phase.nextFunctor]
        rfl
      · rw [← hqueued]
        exact List.append_assoc _ _ _
      · rintro rest' ⟨⟩
        rw [← hcalled]
        exact List.append_assoc _ _ _
  | endFunctors =>
      refine ⟨_, rfl, h.elsewhere (queued_calling hen).symm (fun _ he => by cases he), fun _ => ?_⟩
      have hcalled := h.called _ hen
      rwa [List.append_nil] at hcalled
  | loopQueues cb =>
      exact ⟨_, rfl, h.push queueInLoop_phase queueInLoop_pending queued_queueInLoop, by simp⟩
  | otherPushes t cb =>
      refine ⟨_, rfl, h.push rfl rfl ?_, by simp⟩
      change (s.sys.loop.push cb).queued = s.sys.loop.queued ++ [cb]
      unfold EventLoop.queued EventLoop.push
      cases s.sys.loop.phase <;> simp
  | otherWrites t =>
      exact ⟨_, rfl, ⟨h.queued, h.called, h.later⟩, by simp⟩

/-- **Functors run exactly once and in order.** In every interleaving of a loop with the calls of
`queueInLoop` from its own thread, functors included, and from any others: the functors that were called are
the first of those that were pushed, and each call of `handlePendingFunctors` calls the functors present at
its swap and leaves those pushed since to a later one. -/
theorem inOrder_of_along (es : List (Wakeup.Event T F)) (hes : Along step Enabled init es) :
    Holds step noError InOrder (init : State T F) es := by
  refine holds_of_along (fun s e h hen => ?_) init_history hes
  obtain ⟨t, hstep, hin, hhistory⟩ := step_history s e h hen
  exact StepHolds.of_ok hstep ⟨hin, hhistory⟩

/-- Two functors are pushed; the first of them queues a third when it is called, which is left to the next
call. -/
theorem inOrder_of_along_run : Holds step noError InOrder (init : State Unit Nat)
    [.otherPushes () 0, .enterLoop, .otherWrites (), .otherPushes () 1, .pollReturns [.wakeupChannel], .handleEvent,
      .swapFunctors, .callFunctor, .loopQueues 2, .callFunctor, .endFunctors] := by
  refine inOrder_of_along _ ?_
  refine ⟨rfl, fun _ h => ?_⟩; cases h
  refine ⟨rfl, fun _ h => ?_⟩; cases h
  refine ⟨rfl, fun _ h => ?_⟩; cases h
  refine ⟨rfl, fun _ h => ?_⟩; cases h
  refine ⟨rfl, fun _ h => ?_⟩; cases h
  refine ⟨⟨_, _, rfl⟩, fun _ h => ?_⟩; cases h
  refine ⟨rfl, fun _ h => ?_⟩; cases h
  refine ⟨⟨_, _, rfl⟩, fun _ h => ?_⟩; cases h
  refine ⟨nofun, fun _ h => ?_⟩; cases h
  refine ⟨⟨_, _, rfl⟩, fun _ h => ?_⟩; cases h
  exact ⟨rfl, fun _ _ => trivial⟩

end Fifo

end OulaServer
