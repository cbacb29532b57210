import OulaServer.EventLoop.Basic
import OulaServer.TimerQueue.Ownership

/-!
# Cancellation across threads

A loop with its timer queue, and other threads that add and cancel timers. On the loop's thread `addTimer` and
`cancle` act at once, on another thread they queue a functor; `addTimer` returns the id after that. The loop's
thread calls user code whenever it does not poll, and the callbacks of a batch are user code.

`NotLost` says that a cancelled timer runs in no later batch. The callbacks and the executions of `cancelInLoop`
are recorded with the number of batches that had started: a timer cancelled after `n` batches runs in no batch
after the `n`-th. A timer that is active when it is cancelled is deleted, and one of the running batch is noted and
deleted when the batch ends (`Doomed`). A timer whose `addTimerInLoop` functor has not run is neither, and that
cancellation is lost.
`Inserted` is the condition that it does not happen. On another thread it cannot: the functors are called in
the order in which they were queued, so the insertion comes before the cancellation (`Tracked`).
-/

namespace OulaServer

namespace TimerSystem

open TimerQueue

/-! ### What becomes of a timer -/

namespace State

variable (s : State) (id : TimerId)

/-- The timer issued as `id` lives. -/
def Allocated : Prop := ∃ t ∈ s.queue.heap id.timer, t.seq = id.seq

/-- The timer issued as `id` waits in an `addTimerInLoop` functor. -/
def Waits : Prop := id.timer ∈ s.waiting ∧ s.Allocated id

/-- The timer issued as `id` is of the running batch and was cancelled in it. -/
def Doomed : Prop := id.timer ∈ s.batchTimers ∧ s.Allocated id ∧ id.activeTimer ∈ s.queue.cancelingTimers

instance : Decidable (s.Allocated id) := inferInstanceAs (Decidable (∃ t ∈ s.queue.heap id.timer, t.seq = id.seq))

instance : Decidable (s.Waits id) := inferInstanceAs (Decidable (_ ∧ _))

end State

/-- What a step keeps of the timers there were. -/
structure Carries (s t : State) : Prop where
  freed : ∀ n ∈ s.queue.freed, n ∈ t.queue.freed
  kept : ∀ id, s.Allocated id → t.Allocated id ∨ id.seq ∈ t.queue.freed
  doomed : ∀ id, s.Doomed id → t.Doomed id ∨ id.seq ∈ t.queue.freed
  waiting : ∀ a ∈ t.waiting, a ∈ s.waiting ∧ t.queue.heap a = s.queue.heap a ∨
    a ∉ s.waiting ∧ ∀ u ∈ t.queue.heap a, s.queue.seqTotal ≤ u.seq

variable {s t : State} {a : Addr} {id : TimerId}

theorem Inv.numbered (h : Inv s) (hid : s.Allocated id) : id.seq < s.queue.seqTotal := by
  obtain ⟨t, ht, hseq⟩ := hid
  exact hseq ▸ h.owned.numbered _ t ht

theorem Inv.not_freed (h : Inv s) (hid : s.Allocated id) : id.seq ∉ s.queue.freed := by
  intro hfreed
  obtain ⟨t, ht, hseq⟩ := hid
  exact ((h.owned.mem_freed _).mp hfreed).2 _ t ht hseq

theorem Carries.of_heap (hheap : t.queue.heap = s.queue.heap) (hfreed : t.queue.freed = s.queue.freed)
    (hwaiting : ∀ a ∈ t.waiting, a ∈ s.waiting) (hdoomed : ∀ id, s.Doomed id → t.Doomed id) : Carries s t := by
  refine ⟨fun n hn => hfreed ▸ hn, fun id hid => Or.inl ?_, fun id hid => Or.inl (hdoomed id hid), fun a ha => ?_⟩
  · rwa [State.Allocated, hheap]
  · exact Or.inl ⟨hwaiting a ha, by rw [hheap]⟩

/-- The timers that wait after a step. -/
def waitingAfter (s : State) : Event → List Addr
  | .addTimer a _ _ => a :: s.waiting
  | .addTimerInLoop a _ => s.waiting.erase a
  | .cancelInLoop _ | .handelRead _ | .callback | .reset _ => s.waiting

theorem Inv.waiting_outside (h : Inv s) (ha : a ∈ s.waiting) :
    ∃ t, s.queue.heap a = some t ∧ Entry.mk t.expiration a ∉ s.queue.timers :=
  h.owned.outside a (List.mem_append_right _ ha)

theorem Inv.ne_of_active (h : Inv s) (hactive : id.activeTimer ∈ s.queue.activeTimers) (ha : a ∈ s.held) :
    a ≠ id.timer := by
  rintro rfl
  obtain ⟨t, ht, hout⟩ := h.owned.outside _ ha
  obtain ⟨u, hu, _, hin⟩ := (h.owned.active _).mp hactive
  cases ht.symm.trans hu
  exact hout hin

theorem addTimer_carries (h : Inv s) (hfree : s.queue.heap a = none) (when : Timestamp) (interval : Interval) :
    Carries s { s with queue := s.queue.newTimer a when interval, waiting := a :: s.waiting } := by
  have hother : ∀ b, b ≠ a → (s.queue.newTimer a when interval).heap b = s.queue.heap b := fun b hb =>
    Function.update_of_ne hb _ _
  have hkept : ∀ id, s.Allocated id → ∃ t ∈ (s.queue.newTimer a when interval).heap id.timer, t.seq = id.seq := by
    rintro id ⟨t, ht, hseq⟩
    refine ⟨t, ?_, hseq⟩
    rw [hother]
    · exact ht
    · rintro rfl
      cases hfree.symm.trans ht
  refine ⟨fun _ hn => hn, fun id hid => Or.inl (hkept id hid),
    fun id hid => Or.inl ⟨hid.1, hkept id hid.2.1, hid.2.2⟩, fun b hb => ?_⟩
  have hnew : a ∉ s.waiting := fun ha => by
    obtain ⟨t, ht, _⟩ := h.waiting_outside ha
    cases hfree.symm.trans ht
  rcases List.mem_cons.mp hb with rfl | hwait
  · refine Or.inr ⟨hnew, fun u hu => ?_⟩
    have hself : (s.queue.newTimer b when interval).heap b = some ⟨when, interval, s.queue.seqTotal⟩ :=
      Function.update_self _ _ _
    cases hself.symm.trans hu
    exact le_rfl
  · refine Or.inl ⟨hwait, hother b ?_⟩
    rintro rfl
    exact hnew hwait

theorem cancelInLoop_carries_active (h : Inv s) (hactive : id.activeTimer ∈ s.queue.activeTimers) {u : Timer}
    (hu : s.queue.heap id.timer = some u) :
    Carries s { s with queue := (s.queue.taken id.timer u).without id.timer u, cancelled := id :: s.cancelled } := by
  have hheap : ∀ b, b ≠ id.timer → ((s.queue.taken id.timer u).without id.timer u).heap b = s.queue.heap b :=
    fun b hb => Function.update_of_ne hb _ _
  have hfreed : ((s.queue.taken id.timer u).without id.timer u).freed = s.queue.freed ++ [u.seq] := List.map_append
  refine ⟨fun n hn => hfreed ▸ List.mem_append_left _ hn, fun id' hid => ?_, fun id' hid => Or.inl ?_,
    fun b hb => Or.inl ⟨hb, hheap b (h.ne_of_active hactive (List.mem_append_right _ hb))⟩⟩
  · obtain ⟨t, ht, hseq⟩ := hid
    by_cases hid : id'.timer = id.timer
    · rw [hid] at ht
      cases hu.symm.trans ht
      exact Or.inr (hfreed ▸ List.mem_append_right _ (hseq ▸ List.mem_singleton_self _))
    · exact Or.inl ⟨t, (hheap _ hid).trans ht, hseq⟩
  · obtain ⟨hbatch, ⟨t, ht, hseq⟩, hcanceling⟩ := hid
    have hne := h.ne_of_active hactive (List.mem_append_left _ hbatch)
    exact ⟨hbatch, ⟨t, (hheap _ hne).trans ht, hseq⟩, hcanceling⟩

theorem reset_carries (h : Inv s) {now : Timestamp} {expired : List Entry}
    (hbatch : s.batch = some ⟨now, expired, []⟩) {queue : TimerQueue} {fd : TimeFd}
    (hsettles : Settles now expired { s.queue with callingExpiredTimers := false } queue) :
    Carries s { s with queue := { queue with timefd := fd }, batch := none } := by
  have htimers : s.batchTimers = expired.map Entry.timer := by rw [State.batchTimers, hbatch]
  have hdeleted : ∀ d ∈ queue.deleted, d.2.seq ∈ queue.freed := fun d hd => List.mem_map_of_mem hd
  have hfreed : ∀ n ∈ s.queue.freed, n ∈ queue.freed := by
    intro n hn
    obtain ⟨d, hd, rfl⟩ := List.mem_map.mp hn
    exact hdeleted d ((hsettles.deleted d).mpr (Or.inl hd))
  refine ⟨hfreed, fun id hid => ?_, fun id hid => Or.inr ?_, fun b hb => Or.inl ⟨hb, hsettles.heap b ?_⟩⟩
  · obtain ⟨t, ht, hseq⟩ := hid
    by_cases hin : id.timer ∈ expired.map Entry.timer
    · obtain ⟨e, he, hetimer⟩ := List.mem_map.mp hin
      rw [← hetimer] at ht
      by_cases hagain : s.queue.Again e.timer t
      · refine Or.inl ⟨t.restart now, ?_, by rw [Timer.restart_seq, hseq]⟩
        rw [← hetimer]
        exact (hsettles.again e he t ht hagain).1
      · exact Or.inr (hseq ▸ hdeleted _ (hsettles.done e he t ht hagain).2)
    · exact Or.inl ⟨t, (hsettles.heap _ hin).trans ht, hseq⟩
  · -- what was cancelled in the batch does not run again
    obtain ⟨hin, ⟨t, ht, hseq⟩, hcanceling⟩ := hid
    rw [htimers] at hin
    obtain ⟨e, he, hetimer⟩ := List.mem_map.mp hin
    rw [← hetimer] at ht
    have hnot : ¬ s.queue.Again e.timer t := by
      rintro ⟨_, hnotin⟩
      rw [hseq, hetimer] at hnotin
      exact hnotin hcanceling
    exact hseq ▸ hdeleted _ (hsettles.done e he t ht hnot).2
  · intro hin
    rw [← htimers] at hin
    exact (List.nodup_append.mp h.owned.nodup).2.2 b hin b hb rfl

/-- **What becomes of a timer.** One step keeps every timer or frees it, frees what is doomed when the batch
ends, and lets wait what waited before or is new. -/
theorem step_carries (h : Inv s) (e : Event) (hen : Enabled s e) :
    ∃ t, step s e = .ok t ∧ Inv t ∧ Carries s t ∧ t.waiting = waitingAfter s e := by
  cases e with
  | addTimer a when interval =>
      exact ⟨_, rfl, addTimer_keeps h hen.1 hen.2 when interval, addTimer_carries h hen.1 when interval, rfl⟩
  | addTimerInLoop a clock =>
      obtain ⟨t, _, hstep, hinv⟩ := addTimerInLoop_keeps h hen clock
      exact ⟨_, hstep, hinv, .of_heap rfl rfl (fun b hb => List.mem_of_mem_erase hb) fun _ hid => hid, rfl⟩
  | cancelInLoop id =>
      by_cases hactive : id.activeTimer ∈ s.queue.activeTimers
      · obtain ⟨t, ht, _, hstep, hinv⟩ := cancelInLoop_keeps_active h hactive
        exact ⟨_, hstep, hinv, cancelInLoop_carries_active h hactive ht, rfl⟩
      · obtain ⟨canceling, hstep, hmem, hinv⟩ := cancelInLoop_keeps_inactive h hactive
        refine ⟨_, hstep, hinv, .of_heap rfl rfl (fun _ hb => hb) fun id' hid => ?_, rfl⟩
        exact ⟨hid.1, hid.2.1, (hmem _).mpr (Or.inl hid.2.2)⟩
  | handelRead now =>
      obtain ⟨active, hstep, hinv⟩ := handelRead_keeps h hen now
      refine ⟨_, hstep, hinv, .of_heap rfl rfl (fun _ hb => hb) fun id hid => ?_, rfl⟩
      have hin := hid.1
      rw [State.batchTimers, show s.batch = none from hen] at hin
      exact absurd hin List.not_mem_nil
  | callback =>
      obtain ⟨⟨now, expired, rest⟩, hbatch, hrest⟩ := hen
      obtain ⟨e, rest, rfl⟩ := List.exists_cons_of_ne_nil hrest
      obtain ⟨t, _, hstep, hinv⟩ := callback_keeps h hbatch
      refine ⟨_, hstep, hinv, .of_heap rfl rfl (fun _ hb => hb) fun id hid => ⟨?_, hid.2⟩, rfl⟩
      have hin := hid.1
      rwa [State.batchTimers, Option.mem_def.mp hbatch] at hin
  | reset clock =>
      obtain ⟨⟨now, expired, rest⟩, hbatch, rfl⟩ := hen
      obtain ⟨queue, hstep, hsettles, hinv⟩ := reset_keeps h hbatch clock
      exact ⟨_, hstep, hinv, reset_carries h hbatch hsettles, rfl⟩

/-- A timer that does not wait is freed or doomed when it is cancelled. -/
theorem cancelInLoop_stops (h : Inv s) (hid : s.Allocated id ∨ id.seq ∈ s.queue.freed) (hwaits : ¬ s.Waits id)
    (hstep : step s (.cancelInLoop id) = .ok t) : id.seq ∈ t.queue.freed ∨ t.Doomed id := by
  rcases hid with hid | hfreed
  · obtain ⟨u, hu, hseq⟩ := hid
    rcases h.owned.covered _ u hu with hheld | hin
    · rcases List.mem_append.mp hheld with hbatch | hwait
      · have hactive : id.activeTimer ∉ s.queue.activeTimers := fun hactive =>
          h.ne_of_active hactive (List.mem_append_left _ hbatch) rfl
        obtain ⟨canceling, hstep', hmem, _⟩ := cancelInLoop_keeps_inactive h hactive
        cases hstep'.symm.trans hstep
        refine Or.inr ⟨hbatch, ⟨u, hu, hseq⟩, (hmem _).mpr (Or.inr ⟨rfl, ?_⟩)⟩
        cases hsome : s.batch with
        | none =>
            rw [State.batchTimers, hsome] at hbatch
            cases hbatch
        | some b => rfl
      · exact absurd ⟨hwait, u, hu, hseq⟩ hwaits
    · have hactive : id.activeTimer ∈ s.queue.activeTimers := (h.owned.active _).mpr ⟨u, hu, hseq, hin⟩
      obtain ⟨v, hv, _, hstep', _⟩ := cancelInLoop_keeps_active h hactive
      cases hstep'.symm.trans hstep
      cases Option.some.inj (hu.symm.trans hv)
      refine Or.inl (List.mem_map.mpr ⟨(id.timer, u), List.mem_append_right _ (List.mem_singleton_self _), hseq⟩)
  · obtain ⟨t', hstep', _, hcarries, _⟩ := step_carries h (.cancelInLoop id) trivial
    cases hstep'.symm.trans hstep
    exact Or.inl (hcarries.freed _ hfreed)

end TimerSystem

namespace TimerLoop

open Run EventLoop TimerQueue

/-! ### A loop and its timers -/

/-- What stands in `activeChanels_`. -/
inductive Active where
  | timefdChannel
  | channel
  deriving DecidableEq, Repr

/-- The functors of the timers, and any other. -/
inductive Functor where
  | addTimerInLoop (timer : Addr)
  | cancelInLoop (id : TimerId)
  | functor
  deriving DecidableEq, Repr

structure State where
  timers : TimerSystem.State
  loop : EventLoop Active Functor
  /-- The calls of `addTimer` on other threads that have not queued their functor. -/
  adding : List TimerId
  /-- The ids that `addTimer` returned. -/
  issued : List TimerId
  /-- How many batches have started. -/
  batches : Nat
  /-- The executions of `cancelInLoop`, and how many batches had started. -/
  cancelled : List (TimerId × Nat)
  /-- The callbacks that were called, and the number of the batch. -/
  ran : List (TimerId × Nat)

/-- `addTimer` stands for `runAt`, `runAfter` and `runEvery`, which differ in the expiration and the interval. -/
inductive Event where
  | enterLoop
  | pollReturns (active : List Active)
  | handleEvent (now : Timestamp)
  -- the next callback of the batch, and the end of the batch
  | callback
  | reset (clock : Timestamp)
  | swapFunctors
  | callFunctor (clock : Timestamp)
  | endFunctors
  -- calls on the loop's thread
  | loopAddTimer (timer : Addr) (when : Timestamp) (interval : Interval) (clock : Timestamp)
  | loopCancle (id : TimerId)
  -- another functor
  | queueInLoop (isInLoopThread : Bool)
  -- calls on another thread; `addTimer` queues its functor and returns
  | otherAddTimer (timer : Addr) (when : Timestamp) (interval : Interval)
  | otherPush (id : TimerId)
  | otherCancle (id : TimerId)

def init : State := ⟨TimerSystem.init, EventLoop.new, [], [], 0, [], []⟩

/-- `cancelInLoop`. -/
def cancelInLoop (s : State) (id : TimerId) : Except Abort State := do
  let timers ← TimerSystem.step s.timers (.cancelInLoop id)
  return { s with timers, cancelled := (id, s.batches) :: s.cancelled }

def runFunctor (s : State) (clock : Timestamp) : Functor → Except Abort State
  | .addTimerInLoop timer => do
      let timers ← TimerSystem.step s.timers (.addTimerInLoop timer clock)
      return { s with timers }
  | .cancelInLoop id => cancelInLoop s id
  | .functor => .ok s

def step (s : State) : Event → Except Abort State
  | .enterLoop => .ok { s with loop := s.loop.enterPoll }
  | .pollReturns active => .ok { s with loop := s.loop.dispatch active }
  | .handleEvent now =>
      match s.loop.phase with
      | .dispatching (.timefdChannel :: active) => do
          let timers ← TimerSystem.step s.timers (.handelRead now)
          return { s with timers, loop := s.loop.dispatch active, batches := s.batches + 1 }
      | .dispatching (.channel :: active) => .ok { s with loop := s.loop.dispatch active }
      | _ => .ok s
  | .callback =>
      match s.timers.batch with
      | some ⟨_, _, e :: _⟩ => do
          let id ← s.timers.queue.run e
          let timers ← TimerSystem.step s.timers .callback
          return { s with timers, ran := (id, s.batches) :: s.ran }
      | _ => .ok s
  | .reset clock => do
      let timers ← TimerSystem.step s.timers (.reset clock)
      return { s with timers }
  | .swapFunctors => .ok { s with loop := s.loop.swapFunctors }
  | .callFunctor clock =>
      match s.loop.phase with
      | .calling (f :: functors) => runFunctor { s with loop := s.loop.callRest functors } clock f
      | _ => .ok s
  | .endFunctors => .ok { s with loop := s.loop.endFunctors }
  | .loopAddTimer timer when interval clock => do
      let timers ← TimerSystem.step s.timers (.addTimer timer when interval)
      let timers ← TimerSystem.step timers (.addTimerInLoop timer clock)
      return { s with timers, issued := ⟨timer, s.timers.queue.seqTotal⟩ :: s.issued }
  | .loopCancle id => cancelInLoop s id
  | .queueInLoop isInLoopThread => .ok { s with loop := s.loop.queueInLoop isInLoopThread .functor }
  | .otherAddTimer timer when interval => do
      let timers ← TimerSystem.step s.timers (.addTimer timer when interval)
      return { s with timers, adding := ⟨timer, s.timers.queue.seqTotal⟩ :: s.adding }
  | .otherPush id =>
      .ok { s with
        loop := s.loop.queueInLoop false (.addTimerInLoop id.timer)
        adding := s.adding.erase id
        issued := id :: s.issued }
  | .otherCancle id => .ok { s with loop := s.loop.queueInLoop false (.cancelInLoop id) }

/-- When each step can be taken. `cancle` is called with an id that `addTimer` returned. -/
def Enabled (s : State) : Event → Prop
  | .enterLoop => s.loop.phase = .beforeLoop
  | .pollReturns _ => s.loop.phase = .polling
  | .handleEvent _ => s.timers.batch = none ∧ s.loop.phase.nextChannel ≠ none
  | .callback => TimerSystem.Enabled s.timers .callback
  | .reset clock => TimerSystem.Enabled s.timers (.reset clock)
  | .swapFunctors => s.timers.batch = none ∧ s.loop.phase = .dispatching []
  | .callFunctor _ => s.loop.phase.nextFunctor ≠ none
  | .endFunctors => s.loop.phase = .calling []
  | .loopAddTimer timer _ _ _ => s.loop.phase ≠ .polling ∧ s.timers.queue.heap timer = none ∧ timer < UINTPTR_MAX
  | .loopCancle id => s.loop.phase ≠ .polling ∧ id ∈ s.issued
  | .queueInLoop isInLoopThread => isInLoopThread = true → s.loop.phase ≠ .polling
  | .otherAddTimer timer _ _ => s.timers.queue.heap timer = none ∧ timer < UINTPTR_MAX
  | .otherPush id => id ∈ s.adding
  | .otherCancle id => id ∈ s.issued

instance (s : State) : (e : Event) → Decidable (Enabled s e)
  | .enterLoop | .pollReturns _ | .endFunctors => inferInstanceAs (Decidable (_ = _))
  | .handleEvent _ | .swapFunctors => inferInstanceAs (Decidable (_ ∧ _))
  | .callback => inferInstanceAs (Decidable (TimerSystem.Enabled s.timers .callback))
  | .reset clock => inferInstanceAs (Decidable (TimerSystem.Enabled s.timers (.reset clock)))
  | .callFunctor _ => inferInstanceAs (Decidable (_ ≠ _))
  | .loopAddTimer _ _ _ _ => inferInstanceAs (Decidable (_ ∧ _ ∧ _))
  | .loopCancle id => inferInstanceAs (Decidable (_ ∧ id ∈ s.issued))
  | .queueInLoop _ => inferInstanceAs (Decidable (_ → _))
  | .otherAddTimer _ _ _ => inferInstanceAs (Decidable (_ ∧ _))
  | .otherPush id => inferInstanceAs (Decidable (id ∈ s.adding))
  | .otherCancle id => inferInstanceAs (Decidable (id ∈ s.issued))

/-- A timer that was cancelled when `n` batches had started runs in no later batch. -/
def NotLost (s : State) : Prop := ∀ c ∈ s.cancelled, ∀ r ∈ s.ran, r.1 = c.1 → r.2 ≤ c.2

instance (s : State) : Decidable (NotLost s) :=
  inferInstanceAs (Decidable (∀ c ∈ s.cancelled, ∀ r ∈ s.ran, r.1 = c.1 → r.2 ≤ c.2))

/-- The loop's own thread cancels no timer that another thread added and whose `addTimerInLoop` functor has not
run. -/
def Inserted (s : State) : Event → Prop
  | .loopCancle id => ¬ s.timers.Waits id
  | _ => True

instance (s : State) : (e : Event) → Decidable (Inserted s e)
  | .loopCancle id => inferInstanceAs (Decidable (¬ s.timers.Waits id))
  | .enterLoop | .pollReturns _ | .handleEvent _ | .callback | .reset _ | .swapFunctors | .callFunctor _
  | .endFunctors | .loopAddTimer _ _ _ _ | .queueInLoop _ | .otherAddTimer _ _ _ | .otherPush _
  | .otherCancle _ => .isTrue trivial

/-! ### The functors of the timers that wait -/

namespace Functor

/-- The timer that the functor will add. -/
def added : Functor → Option Addr
  | addTimerInLoop a => some a
  | _ => none

theorem mem_added {fs : List Functor} {a : Addr} : a ∈ fs.filterMap added ↔ .addTimerInLoop a ∈ fs := by
  rw [List.mem_filterMap]
  constructor
  · rintro ⟨f, hf, hadded⟩
    cases f with
    | addTimerInLoop b =>
        cases hadded
        exact hf
    | cancelInLoop id => cases hadded
    | functor => cases hadded
  · exact fun hf => ⟨_, hf, rfl⟩

end Functor

/-- The timers that wait are those of the queued functors and of the calls that have not queued theirs, and no
queued cancellation comes before the insertion of its timer. -/
structure Tracked (timers : TimerSystem.State) (queued : List Functor) (adding issued : List TimerId) : Prop where
  waiting : timers.waiting.Perm (queued.filterMap Functor.added ++ adding.map TimerId.timer)
  allocated : ∀ id ∈ adding, timers.Allocated id
  known : ∀ id ∈ issued, timers.Allocated id ∨ id.seq ∈ timers.queue.freed
  cancels : ∀ id, .cancelInLoop id ∈ queued → id ∈ issued
  pushed : ∀ id ∈ issued, timers.Waits id → .addTimerInLoop id.timer ∈ queued
  ordered : queued.Pairwise fun f g => ∀ id, f = .cancelInLoop id → g = .addTimerInLoop id.timer → ¬ timers.Waits id

namespace Tracked

variable {timers timers' : TimerSystem.State} {queued : List Functor} {adding issued : List TimerId} {id : TimerId}
  {a : Addr}

theorem waits_of_adding (h : Tracked timers queued adding issued) (hid : id ∈ adding) : id.timer ∈ timers.waiting :=
  h.waiting.mem_iff.mpr (List.mem_append_right _ (List.mem_map_of_mem hid))

theorem seq_lt (h : Tracked timers queued adding issued) (hinv : TimerSystem.Inv timers) (hid : id ∈ issued) :
    id.seq < timers.queue.seqTotal := by
  rcases h.known id hid with hid | hid
  · exact hinv.numbered hid
  · exact ((hinv.owned.mem_freed _).mp hid).1

theorem waits_of (h : Tracked timers queued adding issued) (hinv : TimerSystem.Inv timers)
    (hcarries : TimerSystem.Carries timers timers') (hid : id ∈ issued) (hwaits : timers'.Waits id) :
    timers.Waits id := by
  obtain ⟨hin, u, hu, hseq⟩ := hwaits
  rcases hcarries.waiting _ hin with ⟨hin, hheap⟩ | ⟨_, hnew⟩
  · exact ⟨hin, u, by rwa [hheap] at hu, hseq⟩
  · have hle := hnew u hu
    rw [hseq] at hle
    exact absurd (h.seq_lt hinv hid) (not_lt.mpr hle)

theorem known_of (h : Tracked timers queued adding issued) (hcarries : TimerSystem.Carries timers timers')
    (hid : id ∈ issued) : timers'.Allocated id ∨ id.seq ∈ timers'.queue.freed := by
  rcases h.known id hid with hid | hid
  · exact hcarries.kept id hid
  · exact Or.inr (hcarries.freed _ hid)

theorem ordered_of (h : Tracked timers queued adding issued) (hinv : TimerSystem.Inv timers)
    (hcarries : TimerSystem.Carries timers timers') :
    queued.Pairwise fun f g => ∀ id, f = .cancelInLoop id → g = .addTimerInLoop id.timer → ¬ timers'.Waits id := by
  refine h.ordered.imp_of_mem fun {f g} hf _ hfg id hcancel hadd hwaits => ?_
  subst hcancel
  exact hfg id rfl hadd (h.waits_of hinv hcarries (h.cancels id hf) hwaits)

theorem carry (h : Tracked timers queued adding issued) (hinv : TimerSystem.Inv timers)
    (hcarries : TimerSystem.Carries timers timers') (hwaiting : timers'.waiting = timers.waiting) :
    Tracked timers' queued adding issued := by
  refine ⟨hwaiting ▸ h.waiting, fun id hid => ?_, fun id hid => h.known_of hcarries hid, h.cancels,
    fun id hid hwaits => h.pushed id hid (h.waits_of hinv hcarries hid hwaits), h.ordered_of hinv hcarries⟩
  obtain ⟨t, ht, hseq⟩ := h.allocated id hid
  have hin := h.waits_of_adding hid
  rcases hcarries.waiting _ (hwaiting ▸ hin) with ⟨_, hheap⟩ | ⟨hnot, _⟩
  · exact ⟨t, by rw [hheap]; exact ht, hseq⟩
  · exact absurd hin hnot

theorem alloc (h : Tracked timers queued adding issued) (hinv : TimerSystem.Inv timers)
    (hfree : timers.queue.heap a = none) {when : Timestamp} {interval : Interval}
    (hstep : TimerSystem.step timers (.addTimer a when interval) = .ok timers') :
    Tracked timers' queued (⟨a, timers.queue.seqTotal⟩ :: adding) issued := by
  have hcarries := TimerSystem.addTimer_carries hinv hfree when interval
  cases hstep
  refine ⟨(h.waiting.cons a).trans List.perm_middle.symm, fun id hid => ?_, fun id hid => h.known_of hcarries hid,
    h.cancels, fun id hid hwaits => h.pushed id hid (h.waits_of hinv hcarries hid hwaits),
    h.ordered_of hinv hcarries⟩
  rcases List.mem_cons.mp hid with rfl | hid
  · exact ⟨⟨when, interval, timers.queue.seqTotal⟩, Function.update_self _ _ _, rfl⟩
  · obtain ⟨t, ht, hseq⟩ := h.allocated id hid
    refine ⟨t, (Function.update_of_ne ?_ _ _).trans ht, hseq⟩
    rintro rfl
    cases hfree.symm.trans ht

theorem insert (h : Tracked timers (.addTimerInLoop a :: queued) adding issued) (hinv : TimerSystem.Inv timers)
    (hcarries : TimerSystem.Carries timers timers') (hwaiting : timers'.waiting = timers.waiting.erase a) :
    Tracked timers' queued adding issued := by
  have hperm : timers.waiting.Perm (a :: (queued.filterMap Functor.added ++ adding.map TimerId.timer)) := h.waiting
  have hnodup : timers.waiting.Nodup := (List.nodup_append.mp hinv.owned.nodup).2.1
  have hgone : ∀ b ∈ timers'.waiting, b ≠ a := by
    rintro b hb rfl
    rw [hwaiting] at hb
    exact hnodup.not_mem_erase hb
  refine ⟨?_, fun id hid => ?_, fun id hid => h.known_of hcarries hid,
    fun id hid => h.cancels id (List.mem_cons_of_mem _ hid), fun id hid hwaits => ?_,
    (List.pairwise_cons.mp (h.ordered_of hinv hcarries)).2⟩
  · rw [hwaiting]
    refine (hperm.erase a).trans ?_
    rw [List.erase_cons_head]
  · obtain ⟨t, ht, hseq⟩ := h.allocated id hid
    have hin : id.timer ∈ timers'.waiting := by
      rw [hwaiting]
      refine (List.mem_erase_of_ne ?_).mpr (h.waits_of_adding hid)
      intro heq
      have hnodup' := (List.nodup_cons.mp (hperm.nodup_iff.mp hnodup)).1
      exact hnodup' (List.mem_append_right _ (heq ▸ List.mem_map_of_mem hid))
    rcases hcarries.waiting _ hin with ⟨_, hheap⟩ | ⟨hnot, _⟩
    · exact ⟨t, by rw [hheap]; exact ht, hseq⟩
    · exact absurd (h.waits_of_adding hid) hnot
  · refine (List.mem_cons.mp (h.pushed id hid (h.waits_of hinv hcarries hid hwaits))).resolve_left fun heq => ?_
    cases heq
    exact hgone _ hwaits.1 rfl

theorem push (h : Tracked timers queued adding issued) (hinv : TimerSystem.Inv timers) (hid : id ∈ adding) :
    Tracked timers (queued ++ [.addTimerInLoop id.timer]) (adding.erase id) (id :: issued) := by
  have hperm := List.perm_cons_erase hid
  have hnotin : id.timer ∉ queued.filterMap Functor.added := by
    intro hin
    have hnodup := h.waiting.nodup_iff.mp (List.nodup_append.mp hinv.owned.nodup).2.1
    exact (List.nodup_append.mp hnodup).2.2 _ hin _ (List.mem_map_of_mem hid) rfl
  refine ⟨h.waiting.trans ?_, fun id' hid' => h.allocated id' (List.mem_of_mem_erase hid'), fun id' hid' => ?_,
    fun id' hid' => ?_, fun id' hid' hwaits => ?_, ?_⟩
  · rw [List.filterMap_append, List.append_assoc]
    exact (hperm.map TimerId.timer).append_left _
  · rcases List.mem_cons.mp hid' with rfl | hid'
    · exact Or.inl (h.allocated id' hid)
    · exact h.known id' hid'
  · rcases List.mem_append.mp hid' with hid' | hid'
    · exact List.mem_cons_of_mem _ (h.cancels id' hid')
    · cases List.mem_singleton.mp hid'
  · rcases List.mem_cons.mp hid' with rfl | hid'
    · exact List.mem_append_right _ (List.mem_singleton_self _)
    · exact List.mem_append_left _ (h.pushed id' hid' hwaits)
  · refine List.pairwise_append.mpr ⟨h.ordered, List.pairwise_singleton _ _, fun f hf g hg id' hcancel hadd hwaits => ?_⟩
    -- a queued cancellation of the same timer would have its insertion queued already
    cases List.mem_singleton.mp hg
    subst hcancel
    have hqueued := h.pushed id' (h.cancels id' hf) hwaits
    rw [← hadd] at hqueued
    exact hnotin (Functor.mem_added.mpr hqueued)

theorem queue (h : Tracked timers queued adding issued) {f : Functor} (hadded : f.added = none)
    (hcancel : ∀ id, f = .cancelInLoop id → id ∈ issued) : Tracked timers (queued ++ [f]) adding issued := by
  refine ⟨?_, h.allocated, h.known, fun id hid => ?_,
    fun id hid hwaits => List.mem_append_left _ (h.pushed id hid hwaits),
    List.pairwise_append.mpr ⟨h.ordered, List.pairwise_singleton _ _, fun _ _ g hg id _ hadd => ?_⟩⟩
  · rw [List.filterMap_append, List.filterMap_cons_none hadded, List.filterMap_nil, List.append_nil]
    exact h.waiting
  · rcases List.mem_append.mp hid with hid | hid
    · exact h.cancels id hid
    · exact hcancel id (List.mem_singleton.mp hid).symm
  · cases List.mem_singleton.mp hg
    subst hadd
    cases hadded

theorem call {f : Functor} (h : Tracked timers (f :: queued) adding issued) (hadded : f.added = none) :
    Tracked timers queued adding issued := by
  refine ⟨?_, h.allocated, h.known, fun id hid => h.cancels id (List.mem_cons_of_mem _ hid), fun id hid hwaits => ?_,
    (List.pairwise_cons.mp h.ordered).2⟩
  · have hwaiting := h.waiting
    rwa [List.filterMap_cons_none hadded] at hwaiting
  · refine (List.mem_cons.mp (h.pushed id hid hwaits)).resolve_left ?_
    rintro rfl
    cases hadded

/-- The timer of a cancellation that is first does not wait. -/
theorem not_waits (h : Tracked timers (.cancelInLoop id :: queued) adding issued) : ¬ timers.Waits id := by
  intro hwaits
  have hqueued := h.pushed id (h.cancels id List.mem_cons_self) hwaits
  rcases List.mem_cons.mp hqueued with heq | hqueued
  · cases heq
  · exact (List.pairwise_cons.mp h.ordered).1 _ hqueued id rfl rfl hwaits

theorem add (h : Tracked timers queued (id :: adding) issued) (hinv : TimerSystem.Inv timers)
    (hcarries : TimerSystem.Carries timers timers') (hwaiting : timers'.waiting = timers.waiting.erase id.timer) :
    Tracked timers' queued adding (id :: issued) := by
  refine insert (a := id.timer) ⟨h.waiting.trans List.perm_middle, fun id' hid' =>
    h.allocated id' (List.mem_cons_of_mem _ hid'), fun id' hid' => ?_, fun id' hid' => ?_, fun id' hid' hwaits => ?_,
    List.pairwise_cons.mpr ⟨fun _ _ _ hcancel => (by cases hcancel), h.ordered⟩⟩ hinv hcarries hwaiting
  · rcases List.mem_cons.mp hid' with rfl | hid'
    · exact Or.inl (h.allocated id' List.mem_cons_self)
    · exact h.known id' hid'
  · rcases List.mem_cons.mp hid' with heq | hid'
    · cases heq
    · exact List.mem_cons_of_mem _ (h.cancels id' hid')
  · rcases List.mem_cons.mp hid' with rfl | hid'
    · exact List.mem_cons_self
    · exact List.mem_cons_of_mem _ (h.pushed id' hid' hwaits)

end Tracked

/-! ### What was cancelled -/

/-- A cancelled timer was freed, or is doomed in the batch that runs. -/
structure Logged (timers : TimerSystem.State) (batches : Nat) (cancelled ran : List (TimerId × Nat)) : Prop where
  stopped : ∀ c ∈ cancelled, c.1.seq ∈ timers.queue.freed ∨ c.2 = batches ∧ timers.Doomed c.1
  bounded : ∀ r ∈ ran, r.2 ≤ batches
  notLost : ∀ c ∈ cancelled, ∀ r ∈ ran, r.1 = c.1 → r.2 ≤ c.2

namespace Logged

variable {timers timers' : TimerSystem.State} {batches : Nat} {cancelled ran : List (TimerId × Nat)} {id : TimerId}

theorem carry (h : Logged timers batches cancelled ran) (hcarries : TimerSystem.Carries timers timers') :
    Logged timers' batches cancelled ran := by
  refine ⟨fun c hc => ?_, h.bounded, h.notLost⟩
  rcases h.stopped c hc with hfreed | ⟨hbatch, hdoomed⟩
  · exact Or.inl (hcarries.freed _ hfreed)
  · rcases hcarries.doomed _ hdoomed with hdoomed | hfreed
    · exact Or.inr ⟨hbatch, hdoomed⟩
    · exact Or.inl hfreed

theorem cancel (h : Logged timers batches cancelled ran) (hstops : id.seq ∈ timers.queue.freed ∨ timers.Doomed id) :
    Logged timers batches ((id, batches) :: cancelled) ran := by
  refine ⟨fun c hc => ?_, h.bounded, fun c hc r hr heq => ?_⟩
  · rcases List.mem_cons.mp hc with rfl | hc
    · exact hstops.imp_right fun hdoomed => ⟨rfl, hdoomed⟩
    · exact h.stopped c hc
  · rcases List.mem_cons.mp hc with rfl | hc
    · exact h.bounded r hr
    · exact h.notLost c hc r hr heq

theorem callback (h : Logged timers batches cancelled ran) (hinv : TimerSystem.Inv timers)
    (hid : timers.Allocated id) : Logged timers batches cancelled ((id, batches) :: ran) := by
  refine ⟨h.stopped, fun r hr => ?_, fun c hc r hr heq => ?_⟩
  · rcases List.mem_cons.mp hr with rfl | hr
    · exact le_rfl
    · exact h.bounded r hr
  · rcases List.mem_cons.mp hr with rfl | hr
    · rcases h.stopped c hc with hfreed | ⟨hbatch, _⟩
      · rw [← heq] at hfreed
        exact absurd hfreed (hinv.not_freed hid)
      · exact hbatch.ge
    · exact h.notLost c hc r hr heq

/-- A batch starts when none runs, so that nothing is doomed. -/
theorem start (h : Logged timers batches cancelled ran) (hbatch : timers.batch = none) :
    Logged timers (batches + 1) cancelled ran := by
  refine ⟨fun c hc => (h.stopped c hc).imp_right fun ⟨_, hin, _⟩ => ?_,
    fun r hr => (h.bounded r hr).trans (Nat.le_succ _),
    h.notLost⟩
  rw [TimerSystem.State.batchTimers, hbatch] at hin
  exact absurd hin List.not_mem_nil

end Logged

/-! ### The steps -/

structure Inv (s : State) : Prop where
  timers : TimerSystem.Inv s.timers
  tracked : Tracked s.timers s.loop.queued s.adding s.issued
  logged : Logged s.timers s.batches s.cancelled s.ran

variable {s : State}

theorem init_inv : Inv init := by
  refine ⟨TimerSystem.init_inv, ⟨List.Perm.nil, nofun, nofun, nofun, nofun, List.Pairwise.nil⟩, nofun, nofun, nofun⟩

theorem Inv.setLoop (h : Inv s) {l : EventLoop Active Functor} (hqueued : l.queued = s.loop.queued) :
    Inv { s with loop := l } :=
  ⟨h.timers, hqueued ▸ h.tracked, h.logged⟩

theorem Inv.timersStep (h : Inv s) {e : TimerSystem.Event} (hen : TimerSystem.Enabled s.timers e)
    (hwaiting : TimerSystem.waitingAfter s.timers e = s.timers.waiting) :
    ∃ timers, TimerSystem.step s.timers e = .ok timers ∧ Inv { s with timers } := by
  obtain ⟨timers, hstep, hinv, hcarries, hafter⟩ := TimerSystem.step_carries h.timers e hen
  exact ⟨timers, hstep, hinv, h.tracked.carry h.timers hcarries (hafter.trans hwaiting), h.logged.carry hcarries⟩

theorem Inv.cancelInLoop (h : Inv s) {id : TimerId} (hid : id ∈ s.issued) (hwaits : ¬ s.timers.Waits id) :
    ∃ t, TimerLoop.cancelInLoop s id = .ok t ∧ Inv t := by
  obtain ⟨timers, hstep, hinv⟩ := h.timersStep (e := .cancelInLoop id) trivial rfl
  have hstops := TimerSystem.cancelInLoop_stops h.timers (h.tracked.known id hid) hwaits hstep
  refine ⟨{ s with timers, cancelled := (id, s.batches) :: s.cancelled }, ?_, hinv.timers, hinv.tracked,
    hinv.logged.cancel hstops⟩
  simp only [TimerLoop.cancelInLoop, hstep, ok_bind]
  rfl

theorem Inv.runFunctor (h : Inv s) {f : Functor} {functors : List Functor}
    (hphase : s.loop.phase = .calling (f :: functors)) (clock : Timestamp) :
    ∃ t, TimerLoop.runFunctor { s with loop := s.loop.callRest functors } clock f = .ok t ∧ Inv t := by
  have htracked : Tracked s.timers (f :: (s.loop.callRest functors).queued) s.adding s.issued := by
    have hqueued := h.tracked
    rwa [queued_calling hphase] at hqueued
  cases f with
  | addTimerInLoop a =>
      have hen : a ∈ s.timers.waiting :=
        htracked.waiting.mem_iff.mpr (List.mem_append_left _ (Functor.mem_added.mpr List.mem_cons_self))
      obtain ⟨timers, hstep, hinv, hcarries, hafter⟩ :=
        TimerSystem.step_carries h.timers (.addTimerInLoop a clock) hen
      refine ⟨{ s with timers, loop := s.loop.callRest functors }, ?_, hinv,
        htracked.insert h.timers hcarries hafter, h.logged.carry hcarries⟩
      simp only [TimerLoop.runFunctor, hstep, ok_bind]
      rfl
  | cancelInLoop id =>
      have hrest : Inv { s with loop := s.loop.callRest functors } := ⟨h.timers, htracked.call rfl, h.logged⟩
      exact hrest.cancelInLoop (htracked.cancels id List.mem_cons_self) htracked.not_waits
  | functor => exact ⟨_, rfl, h.timers, htracked.call rfl, h.logged⟩

theorem Inv.handleEvent (h : Inv s) (hbatch : s.timers.batch = none) {a : Active} {active : List Active}
    (hphase : s.loop.phase = .dispatching (a :: active)) (now : Timestamp) :
    ∃ t, step s (.handleEvent now) = .ok t ∧ Inv t := by
  have hqueued : (s.loop.dispatch active).queued = s.loop.queued := (queued_dispatching hphase).symm
  cases a with
  | timefdChannel =>
      have hstart : Inv { s with batches := s.batches + 1 } := ⟨h.timers, h.tracked, h.logged.start hbatch⟩
      obtain ⟨timers, hstep, hinv⟩ := hstart.timersStep (e := .handelRead now) hbatch rfl
      change TimerSystem.step s.timers (.handelRead now) = .ok timers at hstep
      refine ⟨{ s with timers, loop := s.loop.dispatch active, batches := s.batches + 1 }, ?_, hinv.setLoop hqueued⟩
      simp only [step, hphase, hstep, ok_bind]
      rfl
  | channel =>
      refine ⟨{ s with loop := s.loop.dispatch active }, ?_, h.setLoop hqueued⟩
      simp only [step, hphase]

theorem Inv.callback (h : Inv s) (hen : TimerSystem.Enabled s.timers .callback) :
    ∃ t, step s .callback = .ok t ∧ Inv t := by
  obtain ⟨timers, hstep, hinv⟩ := h.timersStep hen rfl
  obtain ⟨⟨now, expired, rest⟩, hbatch, hrest⟩ := hen
  obtain ⟨e, rest, rfl⟩ := List.exists_cons_of_ne_nil hrest
  rw [Option.mem_def] at hbatch
  obtain ⟨t, ht, hstep', _⟩ := TimerSystem.callback_keeps h.timers hbatch
  cases hstep.symm.trans hstep'
  have hrun : s.timers.queue.run e = .ok ⟨e.timer, t.seq⟩ := by
    simp only [run, deref_some ht, ok_bind]
    rfl
  refine ⟨{ s with
    timers := { s.timers with batch := some ⟨now, expired, rest⟩, ran := ⟨e.timer, t.seq⟩ :: s.timers.ran }
    ran := (⟨e.timer, t.seq⟩, s.batches) :: s.ran }, ?_, hinv.timers, hinv.tracked,
    hinv.logged.callback hinv.timers ⟨t, ht, rfl⟩⟩
  simp only [step, hbatch, hrun, ok_bind, hstep]
  rfl

theorem Inv.loopAddTimer (h : Inv s) {a : Addr} (hfree : s.timers.queue.heap a = none) (hbound : a < UINTPTR_MAX)
    (when : Timestamp) (interval : Interval) (clock : Timestamp) :
    ∃ t, step s (.loopAddTimer a when interval clock) = .ok t ∧ Inv t := by
  obtain ⟨timers, hstep, hinv, hcarries, hafter⟩ :=
    TimerSystem.step_carries h.timers (.addTimer a when interval) ⟨hfree, hbound⟩
  have htracked := h.tracked.alloc h.timers hfree hstep
  have hin : a ∈ timers.waiting := hafter ▸ List.mem_cons_self
  obtain ⟨timers', hstep', hinv', hcarries', hafter'⟩ :=
    TimerSystem.step_carries hinv (.addTimerInLoop a clock) hin
  refine ⟨{ s with timers := timers', issued := ⟨a, s.timers.queue.seqTotal⟩ :: s.issued }, ?_, hinv',
    htracked.add hinv hcarries' hafter', (h.logged.carry hcarries).carry hcarries'⟩
  simp only [step, hstep, ok_bind, hstep']
  rfl

theorem Inv.otherAddTimer (h : Inv s) {a : Addr} (hfree : s.timers.queue.heap a = none) (hbound : a < UINTPTR_MAX)
    (when : Timestamp) (interval : Interval) :
    ∃ t, step s (.otherAddTimer a when interval) = .ok t ∧ Inv t := by
  obtain ⟨timers, hstep, hinv, hcarries, _⟩ :=
    TimerSystem.step_carries h.timers (.addTimer a when interval) ⟨hfree, hbound⟩
  refine ⟨{ s with timers, adding := ⟨a, s.timers.queue.seqTotal⟩ :: s.adding }, ?_, hinv,
    h.tracked.alloc h.timers hfree hstep, h.logged.carry hcarries⟩
  simp only [step, hstep, ok_bind]
  rfl

/-- One step from a state of the invariant fails no assertion and keeps it, when no cancellation comes too
early. -/
theorem step_keeps (s : State) (e : Event) (h : Inv s) (hen : Enabled s e) (hgood : Inserted s e) :
    ∃ t, step s e = .ok t ∧ Inv t := by
  cases e with
  | enterLoop => exact ⟨_, rfl, h.setLoop (queued_beforeLoop hen).symm⟩
  | pollReturns active => exact ⟨_, rfl, h.setLoop (queued_polling hen).symm⟩
  | handleEvent now =>
      obtain ⟨hbatch, hnext⟩ := hen
      obtain ⟨a, ha⟩ := Option.ne_none_iff_exists'.mp hnext
      obtain ⟨active, hphase⟩ := Phase.nextChannel_eq_some.mp ha
      exact h.handleEvent hbatch hphase now
  | callback => exact h.callback hen
  | reset clock =>
      obtain ⟨timers, hstep, hinv⟩ := h.timersStep (e := .reset clock) hen rfl
      exact ⟨{ s with timers }, by simp only [step, hstep, ok_bind]; rfl, hinv⟩
  | swapFunctors =>
      refine ⟨_, rfl, h.setLoop ?_⟩
      rw [queued_swapFunctors, queued_dispatching hen.2]
  | callFunctor clock =>
      obtain ⟨f, hf⟩ := Option.ne_none_iff_exists'.mp hen
      obtain ⟨functors, hphase⟩ := Phase.nextFunctor_eq_some.mp hf
      obtain ⟨t, hrun, hinv⟩ := h.runFunctor hphase clock
      exact ⟨t, by simp only [step, hphase, hrun], hinv⟩
  | endFunctors => exact ⟨_, rfl, h.setLoop (queued_calling hen).symm⟩
  | loopAddTimer a when interval clock => exact h.loopAddTimer hen.2.1 hen.2.2 when interval clock
  | loopCancle id => exact h.cancelInLoop hen.2 hgood
  | queueInLoop isInLoopThread =>
      refine ⟨_, rfl, h.timers, ?_, h.logged⟩
      rw [queued_queueInLoop]
      exact h.tracked.queue rfl nofun
  | otherAddTimer a when interval => exact h.otherAddTimer hen.1 hen.2 when interval
  | otherPush id =>
      refine ⟨_, rfl, h.timers, ?_, h.logged⟩
      rw [queued_queueInLoop]
      exact h.tracked.push h.timers hen
  | otherCancle id =>
      refine ⟨_, rfl, h.timers, ?_, h.logged⟩
      rw [queued_queueInLoop]
      refine h.tracked.queue rfl fun id' heq => ?_
      cases heq
      exact hen

/-- **When cancellation is not lost.** In every interleaving of the loop with the calls of `addTimer` and
`cancle` by its own thread and by others, in which its own thread never cancels a timer whose `addTimerInLoop`
functor has not run: no assertion fails, and no timer runs in a batch that starts after its `cancelInLoop`. -/
theorem notLost_of_along (es : List Event) (hes : Along step Enabled init es)
    (hgood : Along step Inserted init es) : Holds step noError (fun _ _ t => NotLost t) init es := by
  refine holds_of_along (fun s e h hboth => ?_) init_inv (along_and.mpr ⟨hes, hgood⟩)
  obtain ⟨t, hstep, hinv⟩ := step_keeps s e h hboth.1 hboth.2
  exact StepHolds.of_ok hstep ⟨hinv.logged.notLost, hinv⟩

/-- A repeating timer of another thread is cancelled by the loop's thread in its own callback; a second one is
cancelled by the other thread before its functor has run. -/
theorem notLost_of_along_run : Holds step noError (fun _ _ t => NotLost t) init
    [.otherAddTimer 1 10 ⟨true, 5⟩, .otherPush ⟨1, 0⟩, .enterLoop, .otherAddTimer 2 20 ⟨true, 5⟩,
      .pollReturns [.channel], .handleEvent 1, .swapFunctors, .callFunctor 1, .otherPush ⟨2, 1⟩, .endFunctors,
      .otherCancle ⟨2, 1⟩, .pollReturns [.timefdChannel], .handleEvent 10, .callback, .loopCancle ⟨1, 0⟩,
      .reset 11, .swapFunctors, .callFunctor 12, .callFunctor 12, .endFunctors, .pollReturns [.timefdChannel],
      .handleEvent 30, .reset 30] :=
  notLost_of_along _ (by decide +kernel) (by decide +kernel)

/-- Another thread adds a timer, and the loop's thread cancels it before the functor has run: the timer runs in
a later batch all the same. -/
theorem cancelled_before_insertion :
    Along step Enabled init [.otherAddTimer 1 10 ⟨false, 0⟩, .otherPush ⟨1, 0⟩, .loopCancle ⟨1, 0⟩, .enterLoop,
      .pollReturns [.channel], .handleEvent 1, .swapFunctors, .callFunctor 1, .endFunctors,
      .pollReturns [.timefdChannel], .handleEvent 10, .callback] ∧
    ¬ Holds step noError (fun _ _ t => NotLost t) init [.otherAddTimer 1 10 ⟨false, 0⟩, .otherPush ⟨1, 0⟩,
      .loopCancle ⟨1, 0⟩, .enterLoop, .pollReturns [.channel], .handleEvent 1, .swapFunctors, .callFunctor 1,
      .endFunctors, .pollReturns [.timefdChannel], .handleEvent 10, .callback] :=
  ⟨by decide +kernel, by decide +kernel⟩

end TimerLoop

end OulaServer
