import OulaServer.TimerQueue.Ownership

/-!
# The timerfd is armed while timers wait

The runs of `OulaServer.TimerQueue.Ownership` with the timerfd: it becomes readable when the time it is armed
for has come. The readings of the clock are positive and otherwise any.

Outside a batch, the timerfd is armed or readable whenever a timer is active, and was last set for no later a
time than any of them (`Covers`). A cancellation only removes timers, and an insertion that is not the
earliest is covered by the one that is. A batch begins with the timerfd read, so the batch has an invariant of
its own: the timers it leaves are after `now`, so when one is active whose expiration is not valid, a callback
added it, as the earliest at the time, and armed the timerfd. At the end `reset` arms it for the earliest
timer, unless that one's expiration is not valid.
-/

namespace OulaServer

namespace TimeFd

@[simp] theorem reset_expiration (fd : TimeFd) (expiration now : Timestamp) :
    (fd.reset expiration now).expiration = some expiration := rfl

/-- `timerfd_settime` is called with a time of at least a hundred microseconds. -/
@[simp] theorem reset_state (fd : TimeFd) (expiration now : Timestamp) :
    (fd.reset expiration now).state = .armed := by
  refine if_neg fun hzero => ?_
  obtain ⟨hseconds, hnanoseconds⟩ := Prod.mk.inj hzero
  have hleast : (100 : Int) ≤ if expiration - now < 100 then 100 else expiration - now := by
    split_ifs with hless
    · exact le_rfl
    · exact not_lt.mp hless
  have hsplit := Int.mul_tdiv_add_tmod (if expiration - now < 100 then 100 else expiration - now)
    Timestamp.kMicroSecondsPerSecond
  rw [hseconds, mul_zero, zero_add] at hsplit
  rw [hsplit] at hnanoseconds
  omega

/-- The time that the timerfd is armed for has come. -/
def expire (fd : TimeFd) : TimeFd := if fd.state = .armed then { fd with state := .readable } else fd

/-- The timerfd is armed or readable, and was last set for no later than `t`. -/
def Covers (fd : TimeFd) (t : Timestamp) : Prop := fd.state ≠ .disarmed ∧ ∃ x ∈ fd.expiration, x ≤ t

variable {fd : TimeFd} {t u : Timestamp}

theorem Covers.mono (h : fd.Covers t) (hle : t ≤ u) : fd.Covers u := by
  obtain ⟨hstate, x, hx, hxt⟩ := h
  exact ⟨hstate, x, hx, hxt.trans hle⟩

theorem covers_reset (now : Timestamp) (hle : t ≤ u) : (fd.reset t now).Covers u :=
  ⟨by rw [reset_state]; nofun, t, rfl, hle⟩

theorem Covers.expire (h : fd.Covers t) : fd.expire.Covers t := by
  unfold TimeFd.expire
  split_ifs with harmed
  · exact ⟨nofun, h.2⟩
  · exact h

end TimeFd

theorem Entry.when_le {e f : Entry} (h : e ≤ f) : e.when ≤ f.when := Prod.Lex.monotone_fst _ _ h

namespace TimerQueue

/-- The timerfd covers every active timer. -/
def Ready (q : TimerQueue) : Prop := ∀ e ∈ q.timers, q.timefd.Covers e.when

variable {q : TimerQueue} {a : Addr} {t : Timer}

theorem ready_of_earliest (h : q.earliestChanged t = true) (clock : Timestamp) :
    Ready { q.inserted a t with timefd := q.addedTimeFd t clock } := by
  intro e he
  have hfd : q.addedTimeFd t clock = q.timefd.reset t.expiration clock := if_pos h
  change (q.addedTimeFd t clock).Covers e.when
  rw [hfd]
  refine TimeFd.covers_reset clock ?_
  rcases OrderedSet.mem_insert.mp he with rfl | hin
  · exact le_rfl
  · unfold TimerQueue.earliestChanged at h
    split at h
    · rename_i hfirst
      rw [← OrderedSet.mem_toList, List.head?_eq_none_iff.mp hfirst] at hin
      cases hin
    · rename_i f hfirst
      exact (of_decide_eq_true h).le.trans (Entry.when_le (OrderedSet.first_le hfirst hin))

theorem exists_le_of_not_earliest (h : q.earliestChanged t = false) : ∃ e ∈ q.timers, e.when ≤ t.expiration := by
  unfold TimerQueue.earliestChanged at h
  split at h
  · cases h
  · rename_i e hfirst
    exact ⟨e, OrderedSet.mem_of_first hfirst, not_lt.mp (of_decide_eq_false h)⟩

theorem Ready.added (h : q.Ready) (clock : Timestamp) :
    Ready { q.inserted a t with timefd := q.addedTimeFd t clock } := by
  cases hearliest : q.earliestChanged t with
  | true => exact ready_of_earliest hearliest clock
  | false =>
      intro e he
      have hfd : q.addedTimeFd t clock = q.timefd := if_neg (by simp [hearliest])
      change (q.addedTimeFd t clock).Covers e.when
      rw [hfd]
      rcases OrderedSet.mem_insert.mp he with rfl | hin
      · obtain ⟨f, hf, hle⟩ := exists_le_of_not_earliest hearliest
        exact (h f hf).mono hle
      · exact h e hin

end TimerQueue

namespace TimeFdSystem

open Run TimerQueue TimerSystem

inductive Event where
  | timer (e : TimerSystem.Event)
  -- the timerfd becomes readable
  | expire

def step (s : State) : Event → Except Abort State
  | .timer e => TimerSystem.step s e
  | .expire => .ok { s with queue := { s.queue with timefd := s.queue.timefd.expire } }

/-- The readings of the clock are positive, and a positive interval is no negative number of microseconds. -/
def Admissible : TimerSystem.Event → Prop
  | .addTimer _ _ interval => interval.positive = true → 0 ≤ interval.micros
  | .addTimerInLoop _ clock => 0 < clock
  | .handelRead now => 0 < now
  | .reset clock => 0 < clock
  | .cancelInLoop _ | .callback => True

instance : (e : TimerSystem.Event) → Decidable (Admissible e)
  | .addTimer _ _ _ => inferInstanceAs (Decidable (_ → _))
  | .addTimerInLoop _ clock => inferInstanceAs (Decidable ((0 : Int) < clock))
  | .handelRead now => inferInstanceAs (Decidable ((0 : Int) < now))
  | .reset clock => inferInstanceAs (Decidable ((0 : Int) < clock))
  | .cancelInLoop _ | .callback => .isTrue trivial

def Enabled (s : State) : Event → Prop
  | .timer e => TimerSystem.Enabled s e ∧ Admissible e
  | .expire => s.queue.timefd.state = .armed

instance (s : State) : (e : Event) → Decidable (Enabled s e)
  | .timer e => inferInstanceAs (Decidable (TimerSystem.Enabled s e ∧ Admissible e))
  | .expire => inferInstanceAs (Decidable (_ = _))

/-- Outside `handelRead`, while timers are active the timerfd is armed or readable, and was last set for no
later than the earliest of them. -/
def Armed (s : State) : Prop := s.batch = none → s.queue.Ready

/-! ### The invariant -/

structure Inv (s : State) : Prop where
  timers : TimerSystem.Inv s
  armed : Armed s
  /-- In a batch, while a timer is active that `reset` would not arm the timerfd for. -/
  running : ∀ b ∈ s.batch, 0 < b.now ∧ ((∃ e ∈ s.queue.timers, e.when ≤ 0) → s.queue.Ready)
  intervals : ∀ a t, s.queue.heap a = some t → t.repeats = true → 0 ≤ t.interval.micros

variable {s : State} {a : Addr} {t : Timer}

theorem init_inv : Inv TimerSystem.init := ⟨TimerSystem.init_inv, nofun, nofun, nofun⟩

theorem Inv.remove (h : Inv s) {s' : State} (htimers : TimerSystem.Inv s') (hbatch : s'.batch = s.batch)
    (hfd : s'.queue.timefd = s.queue.timefd) (hsub : ∀ e ∈ s'.queue.timers, e ∈ s.queue.timers)
    (hheap : ∀ a t, s'.queue.heap a = some t → s.queue.heap a = some t) : Inv s' := by
  have hready : s.queue.Ready → s'.queue.Ready := by
    intro hready e he
    rw [hfd]
    exact hready e (hsub e he)
  refine ⟨htimers, fun hnone => hready (h.armed (hbatch ▸ hnone)), fun b hb => ?_,
    fun a t ht => h.intervals a t (hheap a t ht)⟩
  obtain ⟨hnow, hrunning⟩ := h.running b (hbatch ▸ hb)
  refine ⟨hnow, fun ⟨e, he, hle⟩ => hready (hrunning ⟨e, hsub e he, hle⟩)⟩

theorem Inv.added (h : Inv s) {clock : Timestamp} {waiting : List Addr}
    (htimers : TimerSystem.Inv { s with
      queue := { s.queue.inserted a t with timefd := s.queue.addedTimeFd t clock }, waiting }) :
    Inv { s with queue := { s.queue.inserted a t with timefd := s.queue.addedTimeFd t clock }, waiting } := by
  refine ⟨htimers, fun hnone => (h.armed hnone).added clock, fun b hb => ?_, h.intervals⟩
  obtain ⟨hnow, hrunning⟩ := h.running b hb
  refine ⟨hnow, fun ⟨e, he, hle⟩ => ?_⟩
  cases hearliest : s.queue.earliestChanged t with
  | true => exact ready_of_earliest hearliest clock
  | false =>
      -- the earliest timer is not after the new one, so it was there when this one is not valid
      refine Ready.added (hrunning ?_) clock
      rcases OrderedSet.mem_insert.mp he with rfl | hin
      · obtain ⟨f, hf, hfle⟩ := exists_le_of_not_earliest hearliest
        exact ⟨f, hf, hfle.trans hle⟩
      · exact ⟨e, hin, hle⟩

theorem Inv.started (h : Inv s) {now : Timestamp} (hnow : 0 < now) {active : OrderedSet ActiveTimer}
    (htimers : TimerSystem.Inv { s with
      queue := s.queue.started now active, batch := some ⟨now, s.queue.due now, s.queue.due now⟩ }) :
    Inv { s with
      queue := s.queue.started now active, batch := some ⟨now, s.queue.due now, s.queue.due now⟩ } := by
  refine ⟨htimers, nofun, ?_, h.intervals⟩
  rintro b ⟨⟩
  refine ⟨hnow, fun ⟨e, he, hle⟩ => ?_⟩
  obtain ⟨hin, hbefore⟩ := OrderedSet.mem_eraseBefore.mp he
  exact absurd ((lt_nowEntry h.timers.owned.toLinked hin now).mpr (hle.trans hnow.le)) (not_lt.mpr hbefore)

theorem restart_expiration (h : Inv s) {now : Timestamp} (hnow : 0 < now) (ht : s.queue.heap a = some t)
    (hrepeats : t.repeats = true) : 0 < (t.restart now).expiration := by
  have hmicros := h.intervals a t ht hrepeats
  rw [Timer.restart, if_pos hrepeats]
  exact add_pos_of_pos_of_nonneg hnow hmicros

/-- What is active after the timers of a batch were put back: timers that were active before, and others whose
expirations are valid. -/
theorem Inv.settled (h : Inv s) {now : Timestamp} (hnow : 0 < now) {expired : List Entry}
    (hbatch : s.batch = some ⟨now, expired, []⟩) {queue : TimerQueue}
    (hsettles : Settles now expired { s.queue with callingExpiredTimers := false } queue)
    (howned : ∃ held, queue.Owned held) :
    ∀ e ∈ queue.timers, e ∈ s.queue.timers ∨ 0 < e.when := by
  intro e he
  by_cases hin : e.timer ∈ expired.map Entry.timer
  · obtain ⟨held, howned⟩ := howned
    obtain ⟨f, hf, hftimer⟩ := List.mem_map.mp hin
    obtain ⟨t, ht, _⟩ := h.timers.batch_outside (mem_batchTimers hbatch hf)
    obtain ⟨u, hu, hwhen⟩ := howned.keyed e he
    rw [← hftimer] at hu
    by_cases hagain : s.queue.Again f.timer t
    · obtain ⟨hheap, _⟩ := hsettles.again f hf t ht hagain
      cases hheap.symm.trans hu
      rw [← hwhen]
      exact Or.inr (restart_expiration h hnow ht hagain.1)
    · cases (hsettles.done f hf t ht hagain).1.symm.trans hu
  · exact Or.inl ((hsettles.timers e hin).mp he)

theorem Inv.reset (h : Inv s) {now : Timestamp} {expired : List Entry}
    (hbatch : s.batch = some ⟨now, expired, []⟩) {queue : TimerQueue} {clock : Timestamp}
    (hsettles : Settles now expired { s.queue with callingExpiredTimers := false } queue)
    (htimers : TimerSystem.Inv { s with
      queue := { queue with timefd := queue.nextTimeFd clock }, batch := none }) :
    Inv { s with queue := { queue with timefd := queue.nextTimeFd clock }, batch := none } := by
  obtain ⟨hnow, hrunning⟩ := h.running _ hbatch
  have hleft := h.settled hnow hbatch hsettles ⟨_, htimers.owned.congr rfl rfl rfl rfl rfl⟩
  refine ⟨htimers, fun _ e he => ?_, nofun, fun a t ht hrepeats => ?_⟩
  · change (queue.nextTimeFd clock).Covers e.when
    unfold TimerQueue.nextTimeFd
    cases hfirst : queue.timers.first with
    | none =>
        have hin : e ∈ queue.timers := he
        rw [← OrderedSet.mem_toList, List.head?_eq_none_iff.mp hfirst] at hin
        cases hin
    | some f =>
        have hle := Entry.when_le (OrderedSet.first_le hfirst he)
        by_cases hvalid : f.when.isValid = true
        · simp only [if_pos hvalid]
          exact TimeFd.covers_reset clock hle
        · -- then a callback added the first timer
          have hinvalid : f.when ≤ 0 := by simpa [Timestamp.isValid] using hvalid
          have hf : f ∈ s.queue.timers :=
            (hleft f (OrderedSet.mem_of_first hfirst)).resolve_right (not_lt.mpr hinvalid)
          simp only [if_neg hvalid, hsettles.timefd]
          exact (hrunning ⟨f, hf, hinvalid⟩ f hf).mono hle
  · by_cases hin : a ∈ expired.map Entry.timer
    · obtain ⟨f, hf, rfl⟩ := List.mem_map.mp hin
      obtain ⟨u, hu, _⟩ := h.timers.batch_outside (mem_batchTimers hbatch hf)
      by_cases hagain : s.queue.Again f.timer u
      · cases (hsettles.again f hf u hu hagain).1.symm.trans ht
        rw [Timer.restart_interval]
        exact h.intervals _ u hu hagain.1
      · cases (hsettles.done f hf u hu hagain).1.symm.trans ht
    · exact h.intervals a t ((hsettles.heap a hin).symm.trans ht) hrepeats

theorem step_keeps (s : State) (e : Event) (h : Inv s) (hen : Enabled s e) : ∃ t, step s e = .ok t ∧ Inv t := by
  cases e with
  | expire =>
      have htimers : TimerSystem.Inv { s with queue := { s.queue with timefd := s.queue.timefd.expire } } :=
        ⟨h.timers.owned.congr rfl rfl rfl rfl rfl, h.timers.calling, h.timers.rest, h.timers.called,
          h.timers.canceling, h.timers.justified⟩
      have hready : s.queue.Ready → Ready { s.queue with timefd := s.queue.timefd.expire } :=
        fun hready e he => (hready e he).expire
      exact ⟨_, rfl, htimers, fun hnone => hready (h.armed hnone),
        fun b hb => ⟨(h.running b hb).1, fun hle => hready ((h.running b hb).2 hle)⟩, h.intervals⟩
  | timer e =>
      obtain ⟨hen, hadmissible⟩ := hen
      cases e with
      | addTimer a when interval =>
          refine ⟨_, rfl, addTimer_keeps h.timers hen.1 hen.2 when interval, h.armed, h.running, fun b t ht => ?_⟩
          have ht' : Function.update s.queue.heap a (some ⟨when, interval, s.queue.seqTotal⟩) b = some t := ht
          rw [Function.update_apply] at ht'
          split_ifs at ht'
          · cases ht'
            exact hadmissible
          · exact h.intervals b t ht'
      | addTimerInLoop a clock =>
          obtain ⟨t, _, hstep, htimers⟩ := addTimerInLoop_keeps h.timers hen clock
          exact ⟨_, hstep, h.added htimers⟩
      | cancelInLoop id =>
          by_cases hactive : id.activeTimer ∈ s.queue.activeTimers
          · obtain ⟨t, ht, _, hstep, htimers⟩ := cancelInLoop_keeps_active h.timers hactive
            exact ⟨_, hstep, h.remove htimers rfl rfl (fun e he => (OrderedSet.mem_erase.mp he).2)
              fun b u hu => (without_heap.mp hu).2⟩
          · obtain ⟨canceling, hstep, _, htimers⟩ := cancelInLoop_keeps_inactive h.timers hactive
            exact ⟨_, hstep, h.remove htimers rfl rfl (fun _ he => he) fun _ _ hu => hu⟩
      | handelRead now =>
          obtain ⟨active, hstep, htimers⟩ := handelRead_keeps h.timers hen now
          exact ⟨_, hstep, h.started hadmissible htimers⟩
      | callback =>
          obtain ⟨⟨now, expired, rest⟩, hbatch, hrest⟩ := hen
          obtain ⟨e, rest, rfl⟩ := List.exists_cons_of_ne_nil hrest
          obtain ⟨t, _, hstep, htimers⟩ := callback_keeps h.timers hbatch
          refine ⟨_, hstep, htimers, nofun, ?_, h.intervals⟩
          rintro b ⟨⟩
          exact h.running ⟨now, expired, e :: rest⟩ hbatch
      | reset clock =>
          obtain ⟨⟨now, expired, rest⟩, hbatch, rfl⟩ := hen
          obtain ⟨queue, hstep, hsettles, htimers⟩ := reset_keeps h.timers hbatch clock
          exact ⟨_, hstep, h.reset hbatch hsettles htimers⟩

/-- **The timerfd is never left unarmed.** In every run of `addTimer`, `cancle` and `handelRead`, with any
expirations and any positive readings of the clock: in every state outside `handelRead` in which timers are
active, the timerfd is armed or readable, and was last set for no later than the earliest of them. -/
theorem armed_of_along (es : List Event) (hes : Along step Enabled TimerSystem.init es) :
    Holds step noError (fun _ _ t => Armed t) TimerSystem.init es := by
  refine holds_of_along (fun s e h hen => ?_) init_inv hes
  obtain ⟨t, hstep, hinv⟩ := step_keeps s e h hen
  exact StepHolds.of_ok hstep ⟨hinv.armed, hinv⟩

/-- A callback adds a timer whose expiration is negative and another before it, and cancels the second; the
clock goes back before the batch ends. -/
theorem armed_of_along_run : Holds step noError (fun _ _ t => Armed t) TimerSystem.init
    [.timer (.addTimer 1 10 ⟨true, 0⟩), .timer (.addTimerInLoop 1 5), .expire, .timer (.handelRead 10),
      .timer .callback, .timer (.addTimer 2 (-3) ⟨false, 0⟩), .timer (.addTimerInLoop 2 11),
      .timer (.addTimer 3 (-8) ⟨false, 0⟩), .timer (.addTimerInLoop 3 11), .timer (.cancelInLoop ⟨3, 2⟩),
      .timer (.reset 7), .expire, .timer (.handelRead 7), .timer .callback, .timer (.reset 8)] :=
  armed_of_along _ (by decide +kernel)

end TimeFdSystem

end OulaServer
