import OulaServer.Lib.Run
import OulaServer.TimerQueue.Spec

/-!
# The system around a timer queue

A timer queue, the `addTimerInLoop` functors that have not run, and the batch that `handelRead` runs. The
steps come in any order and at any readings of the clock: a timer is allocated, one of the functors runs,
`cancelInLoop` is called with any id, `handelRead` starts a batch, the next callback of the batch is called,
and the batch ends. What a callback adds or cancels are steps between it and the next one; that a call on the
loop's thread runs its functor at once is one of the orders.

Here a timer gets the next number when it is allocated. What `addTimer` makes of the number, and how the threads
of several loops share `Timer::seqTotal`, is in `OulaServer.TimerQueue.Threads`.

`Wellformed` is the half of the invariant that holds whatever numbers the timers have, with one lemma for each
step. `Inv` adds the numbers and the reason for every timer that was deleted, and each step keeps it.
-/

namespace OulaServer

namespace TimerSystem

open Run TimerQueue

/-- A batch of `handelRead`: its `now`, its timers, and those whose callbacks were not called yet. -/
structure Batch where
  now : Timestamp
  expired : List Entry
  rest : List Entry
  deriving DecidableEq

structure State where
  queue : TimerQueue
  /-- The timers of the `addTimerInLoop` functors that have not run. -/
  waiting : List Addr
  batch : Option Batch
  /-- The callbacks that were called. -/
  ran : List TimerId
  /-- The ids that `cancelInLoop` was called with. -/
  cancelled : List TimerId

inductive Event where
  | addTimer (timer : Addr) (when : Timestamp) (interval : Interval)
  | addTimerInLoop (timer : Addr) (clock : Timestamp)
  | cancelInLoop (id : TimerId)
  | handelRead (now : Timestamp)
  | callback
  | reset (clock : Timestamp)

def init : State := ⟨TimerQueue.new, [], none, [], []⟩

def step (s : State) : Event → Except Abort State
  | .addTimer timer when interval =>
      .ok { s with queue := s.queue.newTimer timer when interval, waiting := timer :: s.waiting }
  | .addTimerInLoop timer clock => do
      let queue ← s.queue.addTimerInLoop true timer clock
      return { s with queue, waiting := s.waiting.erase timer }
  | .cancelInLoop id => do
      let queue ← s.queue.cancelInLoop true id
      return { s with queue, cancelled := id :: s.cancelled }
  | .handelRead now => do
      let (queue, expired) ← s.queue.startBatch true now
      return { s with queue, batch := some ⟨now, expired, expired⟩ }
  | .callback =>
      match s.batch with
      | some ⟨now, expired, e :: rest⟩ => do
          let id ← s.queue.run e
          return { s with batch := some ⟨now, expired, rest⟩, ran := id :: s.ran }
      | _ => .ok s
  | .reset clock =>
      match s.batch with
      | some ⟨now, expired, _⟩ => do
          let queue ← s.queue.endBatch expired now clock
          return { s with queue, batch := none }
      | none => .ok s

/-- When each step can be taken. A timer is allocated where none lives, `handelRead` does not call itself, and
a batch ends after its last callback. -/
def Enabled (s : State) : Event → Prop
  | .addTimer timer _ _ => s.queue.heap timer = none ∧ timer < UINTPTR_MAX
  | .addTimerInLoop timer _ => timer ∈ s.waiting
  | .cancelInLoop _ => True
  | .handelRead _ => s.batch = none
  | .callback => ∃ b ∈ s.batch, b.rest ≠ []
  | .reset _ => ∃ b ∈ s.batch, b.rest = []

instance (s : State) : (e : Event) → Decidable (Enabled s e)
  | .addTimer _ _ _ => inferInstanceAs (Decidable (_ ∧ _))
  | .addTimerInLoop timer _ => inferInstanceAs (Decidable (timer ∈ s.waiting))
  | .cancelInLoop _ => .isTrue trivial
  | .handelRead _ => inferInstanceAs (Decidable (s.batch = none))
  | .callback => inferInstanceAs (Decidable (∃ b ∈ s.batch, b.rest ≠ []))
  | .reset _ => inferInstanceAs (Decidable (∃ b ∈ s.batch, b.rest = []))

namespace State

/-- The timers of the batch. -/
def batchTimers (s : State) : List Addr :=
  match s.batch with
  | some b => b.expired.map Entry.timer
  | none => []

/-- The timers that are in neither set. -/
def held (s : State) : List Addr := s.batchTimers ++ s.waiting

/-- Why a timer was deleted: it was to run once and ran, or it was cancelled. -/
def Justified (s : State) (d : Addr × Timer) : Prop :=
  d.2.repeats = false ∧ TimerId.mk d.1 d.2.seq ∈ s.ran ∨ TimerId.mk d.1 d.2.seq ∈ s.cancelled

end State

/-! ### Wellformed states -/

/-- The sets fit the timers that wait and those of the batch, and the flag says whether a batch runs. -/
structure Wellformed (s : State) : Prop where
  linked : Linked s.queue s.held
  calling : s.queue.callingExpiredTimers = s.batch.isSome
  rest : ∀ b ∈ s.batch, b.rest <:+ b.expired

variable {s s' : State} {a : Addr}

theorem mem_batchTimers {b : Batch} (hb : b ∈ s.batch) {e : Entry} (he : e ∈ b.expired) :
    e.timer ∈ s.batchTimers := by
  rw [State.batchTimers, Option.mem_def.mp hb]
  exact List.mem_map_of_mem he

namespace Wellformed

theorem construct (h : Wellformed s) (hfree : s.queue.heap a = none) (hbound : a < UINTPTR_MAX) (seq : Nat)
    (when : Timestamp) (interval : Interval) :
    Wellformed { s with queue := s.queue.construct a seq when interval, waiting := a :: s.waiting } :=
  ⟨(h.linked.construct hfree hbound seq when interval).perm List.perm_middle.symm, h.calling, h.rest⟩

theorem addTimerInLoop (h : Wellformed s) (ha : a ∈ s.waiting) (clock : Timestamp) :
    ∃ t, s.queue.heap a = some t ∧
      step s (.addTimerInLoop a clock) = .ok { s with
        queue := { s.queue.inserted a t with timefd := s.queue.addedTimeFd t clock }
        waiting := s.waiting.erase a } ∧
      Wellformed { s with
        queue := { s.queue.inserted a t with timefd := s.queue.addedTimeFd t clock }
        waiting := s.waiting.erase a } := by
  have hheld : Linked s.queue (a :: (s.batchTimers ++ s.waiting.erase a)) :=
    h.linked.perm (((List.perm_cons_erase ha).append_left _).trans List.perm_middle)
  obtain ⟨t, ht, _⟩ := hheld.outside a List.mem_cons_self
  have hadd := addTimerInLoop_ok hheld ht clock
  refine ⟨t, ht, by simp only [step, hadd, ok_bind]; rfl, ?_, h.calling, h.rest⟩
  exact (hheld.inserted ht).congr rfl rfl rfl

theorem cancelInLoop_active (h : Wellformed s) {id : TimerId} (hactive : id.activeTimer ∈ s.queue.activeTimers) :
    ∃ t, s.queue.heap id.timer = some t ∧ t.seq = id.seq ∧
      step s (.cancelInLoop id) =
        .ok { s with queue := (s.queue.taken id.timer t).without id.timer t, cancelled := id :: s.cancelled } ∧
      Wellformed { s with
        queue := (s.queue.taken id.timer t).without id.timer t, cancelled := id :: s.cancelled } ∧
      Deletes s.queue [(id.timer, t)] ((s.queue.taken id.timer t).without id.timer t) := by
  obtain ⟨t, ht, hseq, hcancel, hlinked, hdel⟩ := TimerQueue.cancelInLoop_active h.linked hactive
  exact ⟨t, ht, hseq, by simp only [step, hcancel, ok_bind]; rfl, ⟨hlinked, h.calling, h.rest⟩, hdel⟩

theorem cancelInLoop_inactive (h : Wellformed s) {id : TimerId}
    (hactive : id.activeTimer ∉ s.queue.activeTimers) :
    ∃ canceling, step s (.cancelInLoop id) =
        .ok { s with queue := { s.queue with cancelingTimers := canceling }, cancelled := id :: s.cancelled } ∧
      (∀ x, x ∈ canceling ↔ x ∈ s.queue.cancelingTimers ∨ x = id.activeTimer ∧ s.batch.isSome = true) ∧
      Wellformed { s with
        queue := { s.queue with cancelingTimers := canceling }, cancelled := id :: s.cancelled } := by
  have hcancel := TimerQueue.cancelInLoop_inactive h.linked hactive
  obtain ⟨canceling, hqueue, hmem⟩ : ∃ canceling,
      s.queue.cancelInLoop true id = .ok { s.queue with cancelingTimers := canceling } ∧
      ∀ x, x ∈ canceling ↔ x ∈ s.queue.cancelingTimers ∨ x = id.activeTimer ∧ s.batch.isSome = true := by
    by_cases hrunning : s.batch.isSome = true
    · rw [hcancel, if_pos (h.calling.trans hrunning)]
      refine ⟨(s.queue.cancelingTimers.insert id.activeTimer).1, rfl, fun x => ?_⟩
      simp [OrderedSet.mem_insert, hrunning, or_comm]
    · rw [hcancel, if_neg fun hcalling => hrunning (h.calling.symm.trans hcalling)]
      exact ⟨s.queue.cancelingTimers, rfl, fun x => by simp [hrunning]⟩
  exact ⟨canceling, by simp only [step, hqueue, ok_bind]; rfl, hmem, h.linked.congr rfl rfl rfl, h.calling, h.rest⟩

theorem handelRead (h : Wellformed s) (hbatch : s.batch = none) (now : Timestamp) :
    ∃ active, step s (.handelRead now) = .ok { s with
        queue := s.queue.started now active, batch := some ⟨now, s.queue.due now, s.queue.due now⟩ } ∧
      Wellformed { s with
        queue := s.queue.started now active, batch := some ⟨now, s.queue.due now, s.queue.due now⟩ } := by
  obtain ⟨active, hstart, hlinked⟩ := startBatch_ok h.linked now
  have hheld : s.held = s.waiting := by
    rw [State.held, State.batchTimers, hbatch]
    rfl
  rw [hheld] at hlinked
  refine ⟨active, by simp only [step, hstart, ok_bind]; rfl, hlinked, rfl, ?_⟩
  rintro b ⟨⟩
  exact List.suffix_refl _

theorem callback (h : Wellformed s) {now : Timestamp} {expired rest : List Entry} {e : Entry}
    (hbatch : s.batch = some ⟨now, expired, e :: rest⟩) :
    ∃ t, s.queue.heap e.timer = some t ∧
      step s .callback =
        .ok { s with batch := some ⟨now, expired, rest⟩, ran := ⟨e.timer, t.seq⟩ :: s.ran } ∧
      Wellformed { s with batch := some ⟨now, expired, rest⟩, ran := ⟨e.timer, t.seq⟩ :: s.ran } := by
  have hsuffix : e :: rest <:+ expired := h.rest _ hbatch
  have hin : e.timer ∈ s.batchTimers := mem_batchTimers hbatch (hsuffix.subset List.mem_cons_self)
  obtain ⟨t, ht, _⟩ := h.linked.outside e.timer (List.mem_append_left _ hin)
  have hrun : s.queue.run e = .ok ⟨e.timer, t.seq⟩ := by
    simp only [run, deref_some ht, ok_bind]
    rfl
  have hheld : ({ s with batch := some ⟨now, expired, rest⟩, ran := ⟨e.timer, t.seq⟩ :: s.ran } : State).held =
      s.held := by
    simp only [State.held, State.batchTimers, hbatch]
  refine ⟨t, ht, by simp only [step, hbatch, hrun, ok_bind]; rfl, hheld ▸ h.linked, ?_, ?_⟩
  · rw [h.calling, hbatch]
    rfl
  · rintro b ⟨⟩
    exact (List.suffix_cons e rest).trans hsuffix

theorem reset (h : Wellformed s) {now : Timestamp} {expired : List Entry}
    (hbatch : s.batch = some ⟨now, expired, []⟩) (clock : Timestamp) :
    ∃ queue ds, step s (.reset clock) =
        .ok { s with queue := { queue with timefd := queue.nextTimeFd clock }, batch := none } ∧
      Settles now expired { s.queue with callingExpiredTimers := false } queue ∧
      Wellformed { s with queue := { queue with timefd := queue.nextTimeFd clock }, batch := none } ∧
      Deletes s.queue ds { queue with timefd := queue.nextTimeFd clock } := by
  have hlinked : Linked s.queue (expired.map Entry.timer ++ s.waiting) := by
    have hheld := h.linked
    rwa [State.held, State.batchTimers, hbatch] at hheld
  obtain ⟨queue, ds, hend, hlinked', hdel, hsettles⟩ := endBatch_ok hlinked now clock
  have hfd : Deletes queue [] { queue with timefd := queue.nextTimeFd clock } := .of_heap rfl rfl rfl
  exact ⟨queue, ds ++ [], by simp only [step, hbatch, hend, ok_bind]; rfl, hsettles,
    ⟨hlinked'.congr rfl rfl rfl, hsettles.callingExpiredTimers, nofun⟩, hdel.trans hfd⟩

/-- Every step that allocates no timer fails no assertion. -/
theorem step_ok (h : Wellformed s) {e : Event} (hen : Enabled s e)
    (hnew : ∀ a when interval, e ≠ .addTimer a when interval) :
    ∃ t ds, step s e = .ok t ∧ Wellformed t ∧ Deletes s.queue ds t.queue := by
  cases e with
  | addTimer a when interval => exact absurd rfl (hnew a when interval)
  | addTimerInLoop a clock =>
      obtain ⟨t, _, hstep, hwell⟩ := h.addTimerInLoop hen clock
      exact ⟨_, [], hstep, hwell, .of_heap rfl rfl rfl⟩
  | cancelInLoop id =>
      by_cases hactive : id.activeTimer ∈ s.queue.activeTimers
      · obtain ⟨t, _, _, hstep, hwell, hdel⟩ := h.cancelInLoop_active hactive
        exact ⟨_, _, hstep, hwell, hdel⟩
      · obtain ⟨canceling, hstep, _, hwell⟩ := h.cancelInLoop_inactive hactive
        exact ⟨_, [], hstep, hwell, .of_heap rfl rfl rfl⟩
  | handelRead now =>
      obtain ⟨active, hstep, hwell⟩ := h.handelRead hen now
      exact ⟨_, [], hstep, hwell, .of_heap rfl rfl rfl⟩
  | callback =>
      obtain ⟨⟨now, expired, rest⟩, hbatch, hrest⟩ := hen
      obtain ⟨e, rest, rfl⟩ := List.exists_cons_of_ne_nil hrest
      obtain ⟨t, _, hstep, hwell⟩ := h.callback hbatch
      exact ⟨_, [], hstep, hwell, .of_heap rfl rfl rfl⟩
  | reset clock =>
      obtain ⟨⟨now, expired, rest⟩, hbatch, rfl⟩ := hen
      obtain ⟨queue, ds, hstep, _, hwell, hdel⟩ := h.reset hbatch clock
      exact ⟨_, ds, hstep, hwell, hdel⟩

end Wellformed

/-! ### The invariant -/

structure Inv (s : State) : Prop where
  owned : Owned s.queue s.held
  calling : s.queue.callingExpiredTimers = s.batch.isSome
  rest : ∀ b ∈ s.batch, b.rest <:+ b.expired
  called : ∀ b ∈ s.batch, ∀ e ∈ b.expired, e ∈ b.rest ∨
    ∀ t, s.queue.heap e.timer = some t → TimerId.mk e.timer t.seq ∈ s.ran
  canceling : ∀ x ∈ s.queue.cancelingTimers, TimerId.mk x.timer x.seq ∈ s.cancelled
  justified : ∀ d ∈ s.queue.deleted, s.Justified d

theorem Inv.wellformed (h : Inv s) : Wellformed s :=
  ⟨h.owned.toLinked, h.calling, h.rest⟩

theorem init_inv : Inv init :=
  ⟨new_owned, rfl, nofun, nofun, nofun, nofun⟩

theorem State.Justified.mono {d : Addr × Timer} (h : s.Justified d) (hran : s.ran ⊆ s'.ran)
    (hcancelled : s.cancelled ⊆ s'.cancelled) : s'.Justified d :=
  h.imp (And.imp_right fun hd => hran hd) fun hd => hcancelled hd

theorem Inv.called_of (h : Inv s) {heap : Addr → Option Timer}
    (hheap : ∀ a ∈ s.batchTimers, heap a = s.queue.heap a) :
    ∀ b ∈ s.batch, ∀ e ∈ b.expired, e ∈ b.rest ∨
      ∀ t, heap e.timer = some t → TimerId.mk e.timer t.seq ∈ s.ran := by
  intro b hb e he
  refine (h.called b hb e he).imp_right fun hran t ht => hran t ?_
  rw [← hheap e.timer (mem_batchTimers hb he), ht]

theorem Inv.batch_outside (h : Inv s) (ha : a ∈ s.batchTimers) :
    ∃ t, s.queue.heap a = some t ∧ Entry.mk t.expiration a ∉ s.queue.timers :=
  h.owned.outside a (List.mem_append_left _ ha)

/-! ### The steps -/

theorem addTimer_keeps (h : Inv s) (hfree : s.queue.heap a = none) (hbound : a < UINTPTR_MAX) (when : Timestamp)
    (interval : Interval) :
    Inv { s with queue := s.queue.newTimer a when interval, waiting := a :: s.waiting } := by
  refine ⟨⟨(h.wellformed.construct hfree hbound _ when interval).linked,
    h.owned.toNumbered.newTimer hfree when interval⟩, h.calling, h.rest, h.called_of fun b hb => ?_, h.canceling,
    h.justified⟩
  obtain ⟨t, ht, _⟩ := h.batch_outside hb
  refine Function.update_of_ne ?_ _ _
  rintro rfl
  cases hfree.symm.trans ht

theorem addTimerInLoop_keeps (h : Inv s) (ha : a ∈ s.waiting) (clock : Timestamp) :
    ∃ t, s.queue.heap a = some t ∧
      step s (.addTimerInLoop a clock) = .ok { s with
        queue := { s.queue.inserted a t with timefd := s.queue.addedTimeFd t clock }
        waiting := s.waiting.erase a } ∧
      Inv { s with
        queue := { s.queue.inserted a t with timefd := s.queue.addedTimeFd t clock }
        waiting := s.waiting.erase a } := by
  obtain ⟨t, ht, hstep, hwell⟩ := h.wellformed.addTimerInLoop ha clock
  exact ⟨t, ht, hstep, ⟨hwell.linked, h.owned.toNumbered.of_deletes (.of_heap rfl rfl rfl)⟩, h.calling, h.rest,
    h.called, h.canceling, h.justified⟩

theorem cancelInLoop_keeps_active (h : Inv s) {id : TimerId} (hactive : id.activeTimer ∈ s.queue.activeTimers) :
    ∃ t, s.queue.heap id.timer = some t ∧ t.seq = id.seq ∧
      step s (.cancelInLoop id) =
        .ok { s with queue := (s.queue.taken id.timer t).without id.timer t, cancelled := id :: s.cancelled } ∧
      Inv { s with queue := (s.queue.taken id.timer t).without id.timer t, cancelled := id :: s.cancelled } := by
  obtain ⟨t, ht, hseq, hstep, hwell, hdel⟩ := h.wellformed.cancelInLoop_active hactive
  refine ⟨t, ht, hseq, hstep, ⟨hwell.linked, h.owned.toNumbered.of_deletes hdel⟩, h.calling, h.rest,
    h.called_of fun b hb => ?_, fun x hx => List.mem_cons_of_mem _ (h.canceling x hx), fun d hd => ?_⟩
  · -- the timer was in `timers_`, so it is not of the batch
    refine Function.update_of_ne ?_ _ _
    rintro rfl
    obtain ⟨u, hu, hout⟩ := h.batch_outside hb
    obtain ⟨v, hv, _, hin⟩ := (h.owned.active _).mp hactive
    cases hu.symm.trans hv
    exact hout hin
  · rcases List.mem_append.mp hd with hd | hd
    · exact (h.justified d hd).mono (fun _ hi => hi) (List.subset_cons_self _ _)
    · cases List.mem_singleton.mp hd
      refine Or.inr (List.mem_cons.mpr (Or.inl ?_))
      rw [hseq]

theorem cancelInLoop_keeps_inactive (h : Inv s) {id : TimerId}
    (hactive : id.activeTimer ∉ s.queue.activeTimers) :
    ∃ canceling, step s (.cancelInLoop id) =
        .ok { s with queue := { s.queue with cancelingTimers := canceling }, cancelled := id :: s.cancelled } ∧
      (∀ x, x ∈ canceling ↔ x ∈ s.queue.cancelingTimers ∨ x = id.activeTimer ∧ s.batch.isSome = true) ∧
      Inv { s with queue := { s.queue with cancelingTimers := canceling }, cancelled := id :: s.cancelled } := by
  obtain ⟨canceling, hstep, hmem, hwell⟩ := h.wellformed.cancelInLoop_inactive hactive
  refine ⟨canceling, hstep, hmem, ⟨hwell.linked, h.owned.toNumbered.of_deletes (.of_heap rfl rfl rfl)⟩,
    h.calling, h.rest, h.called, fun x hx => ?_, fun d hd => ?_⟩
  · rcases (hmem x).mp hx with hx | ⟨rfl, _⟩
    · exact List.mem_cons_of_mem _ (h.canceling x hx)
    · exact List.mem_cons_self
  · exact (h.justified d hd).mono (fun _ hi => hi) (List.subset_cons_self _ _)

theorem handelRead_keeps (h : Inv s) (hbatch : s.batch = none) (now : Timestamp) :
    ∃ active, step s (.handelRead now) = .ok { s with
        queue := s.queue.started now active, batch := some ⟨now, s.queue.due now, s.queue.due now⟩ } ∧
      Inv { s with
        queue := s.queue.started now active, batch := some ⟨now, s.queue.due now, s.queue.due now⟩ } := by
  obtain ⟨active, hstep, hwell⟩ := h.wellformed.handelRead hbatch now
  refine ⟨active, hstep, ⟨hwell.linked, h.owned.toNumbered.of_deletes (.of_heap rfl rfl rfl)⟩, rfl, hwell.rest, ?_,
    fun x hx => absurd hx (OrderedSet.not_mem_empty x), h.justified⟩
  rintro b ⟨⟩ e he
  exact Or.inl he

theorem callback_keeps (h : Inv s) {now : Timestamp} {expired rest : List Entry} {e : Entry}
    (hbatch : s.batch = some ⟨now, expired, e :: rest⟩) :
    ∃ t, s.queue.heap e.timer = some t ∧
      step s .callback =
        .ok { s with batch := some ⟨now, expired, rest⟩, ran := ⟨e.timer, t.seq⟩ :: s.ran } ∧
      Inv { s with batch := some ⟨now, expired, rest⟩, ran := ⟨e.timer, t.seq⟩ :: s.ran } := by
  obtain ⟨t, ht, hstep, hwell⟩ := h.wellformed.callback hbatch
  refine ⟨t, ht, hstep, ⟨hwell.linked, h.owned.toNumbered⟩, hwell.calling, hwell.rest, ?_, h.canceling, fun d hd => ?_⟩
  · rintro b ⟨⟩ f hf
    rcases h.called _ hbatch f hf with hrest | hran
    · rcases List.mem_cons.mp hrest with rfl | hrest
      · refine Or.inr fun u hu => ?_
        cases ht.symm.trans hu
        exact List.mem_cons_self
      · exact Or.inl hrest
    · exact Or.inr fun u hu => List.mem_cons_of_mem _ (hran u hu)
  · exact (h.justified d hd).mono (List.subset_cons_self _ _) fun _ hi => hi

theorem reset_keeps (h : Inv s) {now : Timestamp} {expired : List Entry}
    (hbatch : s.batch = some ⟨now, expired, []⟩) (clock : Timestamp) :
    ∃ queue, step s (.reset clock) =
        .ok { s with queue := { queue with timefd := queue.nextTimeFd clock }, batch := none } ∧
      Settles now expired { s.queue with callingExpiredTimers := false } queue ∧
      Inv { s with queue := { queue with timefd := queue.nextTimeFd clock }, batch := none } := by
  obtain ⟨queue, ds, hstep, hsettles, hwell, hdel⟩ := h.wellformed.reset hbatch clock
  refine ⟨queue, hstep, hsettles, ⟨hwell.linked, h.owned.toNumbered.of_deletes hdel⟩, hwell.calling, nofun, nofun,
    fun x hx => ?_, fun d hd => ?_⟩
  · exact h.canceling x (hsettles.cancelingTimers ▸ hx)
  · rcases (hsettles.deleted d).mp hd with hd | ⟨e, he, hde, ht, hnot⟩
    · exact h.justified d hd
    · -- its callback was called, and if it would run again it is in `cancelingTimers_`
      have hran : TimerId.mk d.1 d.2.seq ∈ s.ran := by
        rw [hde]
        exact ((h.called _ hbatch e he).resolve_left List.not_mem_nil) d.2 ht
      by_cases hrepeats : d.2.repeats = true
      · have hin : ActiveTimer.mk e.timer d.2.seq ∈ s.queue.cancelingTimers := by
          by_contra hnotin
          exact hnot ⟨hrepeats, hnotin⟩
        rw [← hde] at hin
        exact Or.inr (h.canceling _ hin)
      · exact Or.inl ⟨by simpa using hrepeats, hran⟩

/-- One step from a state of the invariant fails no assertion and keeps it. -/
theorem step_keeps (s : State) (e : Event) (h : Inv s) (hen : Enabled s e) : ∃ t, step s e = .ok t ∧ Inv t := by
  cases e with
  | addTimer a when interval => exact ⟨_, rfl, addTimer_keeps h hen.1 hen.2 when interval⟩
  | addTimerInLoop a clock =>
      obtain ⟨t, _, hstep, hinv⟩ := addTimerInLoop_keeps h hen clock
      exact ⟨_, hstep, hinv⟩
  | cancelInLoop id =>
      by_cases hactive : id.activeTimer ∈ s.queue.activeTimers
      · obtain ⟨t, _, _, hstep, hinv⟩ := cancelInLoop_keeps_active h hactive
        exact ⟨_, hstep, hinv⟩
      · obtain ⟨canceling, hstep, _, hinv⟩ := cancelInLoop_keeps_inactive h hactive
        exact ⟨_, hstep, hinv⟩
  | handelRead now =>
      obtain ⟨active, hstep, hinv⟩ := handelRead_keeps h hen now
      exact ⟨_, hstep, hinv⟩
  | callback =>
      obtain ⟨⟨now, expired, rest⟩, hbatch, hrest⟩ := hen
      obtain ⟨e, rest, rfl⟩ := List.exists_cons_of_ne_nil hrest
      obtain ⟨t, _, hstep, hinv⟩ := callback_keeps h hbatch
      exact ⟨_, hstep, hinv⟩
  | reset clock =>
      obtain ⟨⟨now, expired, rest⟩, hbatch, rfl⟩ := hen
      obtain ⟨queue, hstep, _, hinv⟩ := reset_keeps h hbatch clock
      exact ⟨_, hstep, hinv⟩

end TimerSystem

end OulaServer
