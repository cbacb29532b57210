import OulaServer.TimerQueue.Ownership

/-!
# One batch

`handelRead` from its start to the end of `reset`, with callbacks that add and cancel any timers. `Exact` describes
the whole batch: the timers that were due run, once each and in the order of their expirations, and no
others; afterwards those that repeat and were not cancelled are active again, counted from the batch's `now`, and
the rest of them is freed; timers that were not due and not cancelled are as before.

`Running` relates the state while callbacks run to the one at the start and to what was done since. Each step of a
callback keeps it (`running_step`), `Settles` says what `reset` makes of the timers, and `exact_of_running` puts
the two together.
-/

namespace OulaServer

namespace TimerQueue

/-- The id of the timer of an entry. -/
def idOf (q : TimerQueue) (e : Entry) : TimerId := ⟨e.timer, ((q.heap e.timer).map Timer.seq).getD 0⟩

theorem idOf_some {q : TimerQueue} {e : Entry} {t : Timer} (ht : q.heap e.timer = some t) :
    q.idOf e = ⟨e.timer, t.seq⟩ := by
  rw [idOf, ht]
  rfl

variable {q : TimerQueue} {held : List Addr} {now : Timestamp}

theorem mem_due (h : Owned q held) {e : Entry} : e ∈ q.due now ↔ e ∈ q.timers ∧ e.when ≤ now := by
  refine OrderedSet.mem_before.trans (and_congr_right fun he => ?_)
  exact lt_nowEntry h.toLinked he now

theorem due_sorted (q : TimerQueue) (now : Timestamp) : (q.due now).Pairwise fun e f => e.when ≤ f.when := by
  refine (OrderedSet.before_sorted q.timers _).imp ?_
  intro e f hlt
  rcases Entry.lt_iff.mp hlt with hlt | ⟨heq, _⟩
  · exact hlt.le
  · exact heq.le

theorem due_nodup (h : Owned q held) (now : Timestamp) : ((q.due now).map Entry.timer).Nodup :=
  h.timers_nodup.sublist ((List.takeWhile_sublist _).map _)

theorem due_ids_nodup (h : Owned q held) (now : Timestamp) : ((q.due now).map q.idOf).Nodup := by
  have hids : ((q.due now).map q.idOf).map TimerId.timer = (q.due now).map Entry.timer := by
    rw [List.map_map]
    rfl
  have hnodup := due_nodup h now
  rw [← hids] at hnodup
  exact hnodup.of_map _

theorem not_due_timer (h : Owned q held) {a : Addr} {t : Timer} (ht : q.heap a = some t)
    (hdue : Entry.mk t.expiration a ∉ q.due now) : a ∉ (q.due now).map Entry.timer := by
  intro ha
  obtain ⟨e, he, rfl⟩ := List.mem_map.mp ha
  exact hdue (h.when_eq ((mem_due h).mp he).1 ht ▸ he)

theorem restart_of_repeats {t : Timer} (h : t.repeats = true) (now : Timestamp) :
    t.restart now = { t with expiration := addTime now t.interval } := if_pos h

end TimerQueue

namespace TimerSystem

open Run TimerQueue

/-! ### What a batch does -/

/-- What a callback does to the timers, and the start of the next callback. -/
def InCallbacks : Event → Prop
  | .addTimer _ _ _ | .addTimerInLoop _ _ | .cancelInLoop _ | .callback => True
  | .handelRead _ | .reset _ => False

instance : (e : Event) → Decidable (InCallbacks e)
  | .addTimer _ _ _ | .addTimerInLoop _ _ | .cancelInLoop _ | .callback => .isTrue trivial
  | .handelRead _ | .reset _ => .isFalse not_false

/-- The whole of `handelRead`. -/
def batchOf (now : Timestamp) (es : List Event) (clock : Timestamp) : List Event :=
  .handelRead now :: (es ++ [.reset clock])

/-- The batch that leads from `s` to `t` while callbacks do `es` is exact. -/
structure Exact (now : Timestamp) (s : State) (es : List Event) (t : State) : Prop where
  /-- `ran` has the last callback first. -/
  ran : t.ran = ((s.queue.due now).map s.queue.idOf).reverse ++ s.ran
  once : ((s.queue.due now).map s.queue.idOf).Nodup
  due : ∀ e, e ∈ s.queue.due now ↔ e ∈ s.queue.timers ∧ e.when ≤ now
  sorted : (s.queue.due now).Pairwise fun e f => e.when ≤ f.when
  again : ∀ e ∈ s.queue.due now, ∀ u, s.queue.heap e.timer = some u → u.repeats = true →
    .cancelInLoop ⟨e.timer, u.seq⟩ ∉ es →
    t.queue.heap e.timer = some { u with expiration := addTime now u.interval } ∧
      Entry.mk (addTime now u.interval) e.timer ∈ t.queue.timers ∧
      ActiveTimer.mk e.timer u.seq ∈ t.queue.activeTimers
  freed : ∀ e ∈ s.queue.due now, ∀ u, s.queue.heap e.timer = some u →
    u.repeats = false ∨ .cancelInLoop ⟨e.timer, u.seq⟩ ∈ es →
    t.queue.heap e.timer = none ∧ u.seq ∈ t.queue.freed ∧ (∀ f ∈ t.queue.timers, f.timer ≠ e.timer) ∧
      ∀ x ∈ t.queue.activeTimers, x.timer ≠ e.timer
  others : ∀ a u, s.queue.heap a = some u → Entry.mk u.expiration a ∉ s.queue.due now →
    .cancelInLoop ⟨a, u.seq⟩ ∉ es → t.queue.heap a = some u ∧
      (Entry.mk u.expiration a ∈ s.queue.timers → Entry.mk u.expiration a ∈ t.queue.timers ∧
        ActiveTimer.mk a u.seq ∈ t.queue.activeTimers)
  inv : Inv t

/-! ### While the callbacks run -/

/-- The state `t` after callbacks did `es`, in the batch that started in `s`. -/
structure Running (now : Timestamp) (s : State) (es : List Event) (t : State) : Prop where
  inv : Inv t
  batch : ∃ called rest, s.queue.due now = called ++ rest ∧ t.batch = some ⟨now, s.queue.due now, rest⟩ ∧
    t.ran = (called.map s.queue.idOf).reverse ++ s.ran
  heap : ∀ e ∈ s.queue.due now, t.queue.heap e.timer = s.queue.heap e.timer
  canceling : ∀ e ∈ s.queue.due now, ∀ u, s.queue.heap e.timer = some u →
    (ActiveTimer.mk e.timer u.seq ∈ t.queue.cancelingTimers ↔ .cancelInLoop ⟨e.timer, u.seq⟩ ∈ es)
  others : ∀ a u, s.queue.heap a = some u → a ∉ (s.queue.due now).map Entry.timer →
    .cancelInLoop ⟨a, u.seq⟩ ∉ es → t.queue.heap a = some u ∧
      (Entry.mk u.expiration a ∈ s.queue.timers → Entry.mk u.expiration a ∈ t.queue.timers)

variable {s t : State} {now : Timestamp} {es : List Event} {a : Addr}

theorem Running.batchTimers (h : Running now s es t) : t.batchTimers = (s.queue.due now).map Entry.timer := by
  obtain ⟨called, rest, _, hbatch, _⟩ := h.batch
  rw [State.batchTimers, hbatch]

theorem Running.due_ne (h : Running now s es t) {e : Entry} (he : e ∈ s.queue.due now)
    (ha : a ∉ t.batchTimers) : e.timer ≠ a := by
  rintro rfl
  rw [h.batchTimers] at ha
  exact ha (List.mem_map_of_mem he)

theorem running_start (h : Inv s) (hbatch : s.batch = none) (now : Timestamp) :
    ∃ t, step s (.handelRead now) = .ok t ∧ Running now s [] t := by
  obtain ⟨active, hstep, hinv⟩ := handelRead_keeps h hbatch now
  refine ⟨_, hstep, hinv, ⟨[], s.queue.due now, rfl, rfl, rfl⟩, fun _ _ => rfl, fun e he u hu => ?_,
    fun a u hu ha _ => ⟨hu, fun hin => ?_⟩⟩
  · exact iff_of_false (OrderedSet.not_mem_empty _) List.not_mem_nil
  · refine OrderedSet.mem_eraseBefore.mpr ⟨hin, ?_⟩
    by_contra hlt
    exact ha (List.mem_map_of_mem (OrderedSet.mem_before.mpr ⟨hin, not_le.mp hlt⟩))

theorem not_mem_of_append {e e' : Event} (h : e ∉ es ++ [e']) : e ∉ es := fun hmem => h (List.mem_append_left _ hmem)

theorem cancel_mem_append {id : TimerId} {e : Event} (he : e ≠ .cancelInLoop id) :
    .cancelInLoop id ∈ es ++ [e] ↔ .cancelInLoop id ∈ es := by
  rw [List.mem_append, List.mem_singleton]
  exact or_iff_left he.symm

theorem running_addTimer (h : Running now s es t) (hfree : t.queue.heap a = none) (hbound : a < UINTPTR_MAX)
    (when : Timestamp) (interval : Interval) : Running now s (es ++ [.addTimer a when interval])
      { t with queue := t.queue.newTimer a when interval, waiting := a :: t.waiting } := by
  have hother : ∀ b u, t.queue.heap b = some u → (t.queue.newTimer a when interval).heap b = some u := by
    intro b u hb
    refine (Function.update_of_ne ?_ _ _).trans hb
    rintro rfl
    cases hfree.symm.trans hb
  refine ⟨addTimer_keeps h.inv hfree hbound when interval, h.batch, fun e he => ?_, fun e he u hu => ?_,
    fun b u hu hb hnot => ?_⟩
  · obtain ⟨u, hu, _⟩ := h.inv.batch_outside (h.batchTimers ▸ List.mem_map_of_mem he)
    rw [← h.heap e he, hu]
    exact hother _ u hu
  · exact (h.canceling e he u hu).trans (cancel_mem_append fun heq => by cases heq).symm
  · obtain ⟨hheap, htimers⟩ := h.others b u hu hb (not_mem_of_append hnot)
    exact ⟨hother b u hheap, htimers⟩

theorem running_addTimerInLoop (h : Running now s es t) (ha : a ∈ t.waiting) (clock : Timestamp) :
    ∃ t', step t (.addTimerInLoop a clock) = .ok t' ∧ Running now s (es ++ [.addTimerInLoop a clock]) t' := by
  obtain ⟨v, hv, hstep, hinv⟩ := addTimerInLoop_keeps h.inv ha clock
  refine ⟨_, hstep, hinv, h.batch, h.heap, fun e he u hu => ?_, fun b u hu hb hnot => ?_⟩
  · exact (h.canceling e he u hu).trans (cancel_mem_append fun heq => by cases heq).symm
  · obtain ⟨hheap, htimers⟩ := h.others b u hu hb (not_mem_of_append hnot)
    exact ⟨hheap, fun hin => OrderedSet.mem_insert.mpr (Or.inr (htimers hin))⟩

theorem running_cancelInLoop (h : Running now s es t) (id : TimerId) :
    ∃ t', step t (.cancelInLoop id) = .ok t' ∧ Running now s (es ++ [.cancelInLoop id]) t' := by
  obtain ⟨called, rest, hsplit, hbatch, hran⟩ := h.batch
  by_cases hactive : id.activeTimer ∈ t.queue.activeTimers
  · obtain ⟨v, hv, hseq, hstep, hinv⟩ := cancelInLoop_keeps_active h.inv hactive
    have hheap : ∀ b, b ≠ id.timer → ((t.queue.taken id.timer v).without id.timer v).heap b = t.queue.heap b :=
      fun b hb => Function.update_of_ne hb _ _
    -- an active timer is not of the batch
    have hne : ∀ e ∈ s.queue.due now, e.timer ≠ id.timer := by
      intro e he
      refine h.due_ne he fun hin => ?_
      obtain ⟨u, hu, hout⟩ := h.inv.batch_outside hin
      obtain ⟨w, hw, _, hwin⟩ := (h.inv.owned.active _).mp hactive
      cases hu.symm.trans hw
      exact hout hwin
    refine ⟨_, hstep, hinv, ⟨called, rest, hsplit, hbatch, hran⟩, fun e he => ?_, fun e he u hu => ?_,
      fun b u hu hb hnot => ?_⟩
    · exact (hheap _ (hne e he)).trans (h.heap e he)
    · refine (h.canceling e he u hu).trans (cancel_mem_append fun heq => ?_).symm
      cases heq
      exact hne e he rfl
    · obtain ⟨hbheap, hbtimers⟩ := h.others b u hu hb (not_mem_of_append hnot)
      have hbne : b ≠ id.timer := by
        rintro rfl
        cases hv.symm.trans hbheap
        refine hnot (List.mem_append_right _ (List.mem_singleton.mpr ?_))
        rw [hseq]
      refine ⟨(hheap b hbne).trans hbheap, fun hin => OrderedSet.mem_erase.mpr ⟨?_, hbtimers hin⟩⟩
      exact fun heq => hbne (congrArg Entry.timer heq)
  · obtain ⟨canceling, hstep, hmem, hinv⟩ := cancelInLoop_keeps_inactive h.inv hactive
    have hsome : t.batch.isSome = true := by
      rw [hbatch]
      rfl
    refine ⟨_, hstep, hinv, ⟨called, rest, hsplit, hbatch, hran⟩, h.heap, fun e he u hu => ?_,
      fun b u hu hb hnot => h.others b u hu hb (not_mem_of_append hnot)⟩
    rw [hmem, h.canceling e he u hu, List.mem_append, List.mem_singleton]
    refine or_congr_right ⟨?_, ?_⟩
    · rintro ⟨heq, _⟩
      have htimer : e.timer = id.timer := congrArg ActiveTimer.timer heq
      have hid : u.seq = id.seq := congrArg ActiveTimer.seq heq
      rw [htimer, hid]
    · intro heq
      cases heq
      exact ⟨rfl, hsome⟩

theorem running_callback (h : Running now s es t) (hen : Enabled t .callback) :
    ∃ t', step t .callback = .ok t' ∧ Running now s (es ++ [.callback]) t' := by
  obtain ⟨called, rest, hsplit, hbatch, hran⟩ := h.batch
  obtain ⟨b, hb, hrest⟩ := hen
  cases hbatch.symm.trans (Option.mem_def.mp hb)
  obtain ⟨e, rest', rfl⟩ := List.exists_cons_of_ne_nil hrest
  obtain ⟨u, hu, hstep, hinv⟩ := callback_keeps h.inv hbatch
  have he : e ∈ s.queue.due now := by
    rw [hsplit]
    exact List.mem_append_right _ List.mem_cons_self
  have hid : s.queue.idOf e = ⟨e.timer, u.seq⟩ := idOf_some ((h.heap e he).symm.trans hu)
  refine ⟨_, hstep, hinv, ⟨called ++ [e], rest', ?_, rfl, ?_⟩, h.heap, fun f hf v hv => ?_,
    fun b v hv hb hnot => h.others b v hv hb (not_mem_of_append hnot)⟩
  · rw [hsplit, List.append_cons]
  · rw [List.map_append, List.reverse_append, hran, List.map_singleton, hid]
    rfl
  · exact (h.canceling f hf v hv).trans (cancel_mem_append fun heq => by cases heq).symm

theorem running_step (h : Running now s es t) {e : Event} (hbody : InCallbacks e) (hen : Enabled t e) :
    ∃ t', step t e = .ok t' ∧ Running now s (es ++ [e]) t' := by
  cases e with
  | addTimer a when interval => exact ⟨_, rfl, running_addTimer h hen.1 hen.2 when interval⟩
  | addTimerInLoop a clock => exact running_addTimerInLoop h hen clock
  | cancelInLoop id => exact running_cancelInLoop h id
  | callback => exact running_callback h hen
  | handelRead now => cases hbody
  | reset clock => cases hbody

/-! ### The whole batch -/

theorem exact_of_running (hs : Inv s) (h : Running now s es t) (clock : Timestamp) (hen : Enabled t (.reset clock)) :
    ∃ t', step t (.reset clock) = .ok t' ∧ Exact now s es t' := by
  obtain ⟨called, rest, hsplit, hbatch, hran⟩ := h.batch
  obtain ⟨b, hb, hnil⟩ := hen
  cases hbatch.symm.trans (Option.mem_def.mp hb)
  cases hnil
  obtain ⟨queue, hstep, hsettles, hinv⟩ := reset_keeps h.inv hbatch clock
  rw [List.append_nil] at hsplit
  refine ⟨_, hstep, ?_, due_ids_nodup hs.owned now, fun e => mem_due hs.owned, due_sorted s.queue now,
    fun e he u hu hrepeats hnot => ?_, fun e he u hu hgone => ?_, fun a u hu hdue hnot => ?_, hinv⟩
  · rw [hsplit]
    exact hran
  · have hu' : t.queue.heap e.timer = some u := (h.heap e he).trans hu
    have hagain : t.queue.Again e.timer u := ⟨hrepeats, fun hin => hnot ((h.canceling e he u hu).mp hin)⟩
    obtain ⟨hheap, hin⟩ := hsettles.again e he u hu' hagain
    rw [restart_of_repeats hrepeats] at hheap hin
    exact ⟨hheap, hin, (hinv.owned.active _).mpr ⟨_, hheap, rfl, hin⟩⟩
  · have hu' : t.queue.heap e.timer = some u := (h.heap e he).trans hu
    have hdone : ¬ t.queue.Again e.timer u := by
      rintro ⟨hrepeats, hnotin⟩
      rcases hgone with honce | hcancel
      · rw [honce] at hrepeats
        cases hrepeats
      · exact hnotin ((h.canceling e he u hu).mpr hcancel)
    obtain ⟨hheap, hdeleted⟩ := hsettles.done e he u hu' hdone
    refine ⟨hheap, List.mem_map_of_mem hdeleted, fun f hf hft => ?_, fun x hx hxt => ?_⟩
    · obtain ⟨v, hv, _⟩ := hinv.owned.keyed f hf
      rw [hft] at hv
      cases hheap.symm.trans hv
    · obtain ⟨v, hv, _⟩ := (hinv.owned.active x).mp hx
      rw [hxt] at hv
      cases hheap.symm.trans hv
  · have hout := not_due_timer hs.owned hu hdue
    obtain ⟨hheap, htimers⟩ := h.others a u hu hout hnot
    have hheap' : queue.heap a = some u := (hsettles.heap a hout).trans hheap
    refine ⟨hheap', fun hin => ?_⟩
    have hin' : Entry.mk u.expiration a ∈ queue.timers :=
      (hsettles.timers (Entry.mk u.expiration a) hout).mpr (htimers hin)
    exact ⟨hin', (hinv.owned.active _).mpr ⟨u, hheap', rfl, hin'⟩⟩

/-- A queue that satisfies its representation invariant, between two batches, is one of a state of the system. -/
theorem inv_of_owned {q : TimerQueue} {waiting : List Addr} (h : Owned q waiting)
    (hcalling : q.callingExpiredTimers = false) : Inv {
      queue := q
      waiting
      batch := none
      ran := []
      cancelled := q.cancelingTimers.toList.map (fun x => ⟨x.timer, x.seq⟩) ++
        q.deleted.map fun d => ⟨d.1, d.2.seq⟩ } := by
  refine ⟨h, hcalling, nofun, nofun, fun x hx => ?_, fun d hd => Or.inr ?_⟩
  · exact List.mem_append_left _ (List.mem_map_of_mem hx)
  · exact List.mem_append_right _ (List.mem_map_of_mem hd)

/-- **One batch is exact.** From every state that satisfies the invariant, between two batches, for every reading
`now` of the clock and everything that the callbacks add and cancel, `handelRead` fails no assertion and is
`Exact`. -/
theorem batch_exact (s : State) (h : Inv s) (hbatch : s.batch = none) (now clock : Timestamp) (es : List Event)
    (hbody : ∀ e ∈ es, InCallbacks e) (hen : Along step Enabled s (batchOf now es clock)) :
    ∃ t, (batchOf now es clock).foldlM step s = .ok t ∧ Exact now s es t := by
  obtain ⟨t₀, hstart, hrunning₀⟩ := running_start h hbatch now
  have hrest : Along step Enabled t₀ (es ++ [.reset clock]) := hen.2 t₀ hstart
  have hcallbacks : Along step (fun t e => Enabled t e ∧ InCallbacks e) t₀ es :=
    along_and.mpr ⟨hrest.left, along_of_forall hbody t₀⟩
  obtain ⟨t₁, hrun, hrunning⟩ := exists_foldlM (I := Running now s)
    (fun _ _ _ h hG => running_step h hG.2 hG.1) hrunning₀ hcallbacks
  obtain ⟨t, hreset, hexact⟩ := exact_of_running h hrunning clock (hrest.of_append hrun).1
  refine ⟨t, ?_, hexact⟩
  rw [batchOf, List.foldlM_cons, hstart, ok_bind, List.foldlM_append, hrun, ok_bind, List.foldlM_cons, hreset]
  rfl

/-- Two timers that expire at 10 and repeat, one that expires before and two after them. -/
def ties : List Event :=
  [.addTimer 1 10 ⟨true, 5⟩, .addTimerInLoop 1 1, .addTimer 2 10 ⟨true, 7⟩, .addTimerInLoop 2 1,
    .addTimer 3 20 ⟨false, 0⟩, .addTimerInLoop 3 1, .addTimer 4 8 ⟨false, 0⟩, .addTimerInLoop 4 1,
    .addTimer 5 30 ⟨false, 0⟩, .addTimerInLoop 5 1]

/-- The callback of the timer at 1 adds one that is already due, and cancels the timers at 2 and at 5. -/
def tiesCallbacks : List Event :=
  [.callback, .callback, .addTimer 6 3 ⟨false, 0⟩, .addTimerInLoop 6 10, .cancelInLoop ⟨2, 1⟩, .cancelInLoop ⟨5, 4⟩,
    .callback]

theorem batch_exact_ties : (∃ s t, ties.foldlM step init = .ok s ∧
      (batchOf 10 tiesCallbacks 11).foldlM step s = .ok t ∧ Exact 10 s tiesCallbacks t) ∧
    ((ties ++ batchOf 10 tiesCallbacks 11).foldlM step init).map
      (fun t => (t.ran, t.queue.timers.toList.map Entry.timer, t.queue.freed)) =
        .ok ([⟨2, 1⟩, ⟨1, 0⟩, ⟨4, 3⟩], [6, 1, 3], [4, 3, 1]) := by
  constructor
  · have hrun : Along step Enabled init (ties ++ batchOf 10 tiesCallbacks 11) := by decide +kernel
    have hkeeps : ∀ (done : List Event) s e, Inv s → Enabled s e → ∃ t, step s e = .ok t ∧ Inv t := by
      intro _ s e h hen
      obtain ⟨t, ht, hinv⟩ := step_keeps s e h hen
      exact ⟨t, ht, hinv⟩
    obtain ⟨s, hs, hinv⟩ := exists_foldlM (I := fun _ s => Inv s) hkeeps (l := []) init_inv hrun.left
    have hbatch : (ties.foldlM step init).map State.batch = .ok none := by decide +kernel
    rw [hs] at hbatch
    obtain ⟨t, ht, hexact⟩ := batch_exact s hinv (Except.ok.inj hbatch) 10 11 tiesCallbacks (by decide)
      (hrun.of_append hs)
    exact ⟨s, t, hs, ht, hexact⟩
  · decide +kernel

end TimerSystem

end OulaServer
