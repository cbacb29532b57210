import OulaServer.TimerQueue.Batch

/-!
# Every timer is on schedule

`Schedule` is one timer by itself, over the clock's readings of the batches since it was inserted: at each reading that
is not before its expiration it runs, and it repeats counted from that reading or is done. `Recorded` is the queue with
such a schedule beside each timer, and with the readings of the batches in which its callback was called.

`Tracks` relates the two for every place where a timer can be. Each step keeps it, so in every run the callbacks of a
timer that was not cancelled are called in exactly the batches that its schedule says, and those of a timer that was
cancelled in the first of them (`onSchedule_of_along`): never early, never twice for one expiration, and none is missed.
-/

namespace OulaServer

/-! ### One timer -/

/-- What a timer was allocated with, and the clock's readings of the batches since it was inserted. -/
structure Schedule where
  when : Timestamp
  interval : Interval
  readings : List Timestamp

namespace Schedule

/-- The expiration after a callback at `now`. -/
def next (interval : Interval) (now : Timestamp) : Option Timestamp :=
  if interval.positive then some (addTime now interval) else none

/-- A batch at `now`: a timer that has expired runs. -/
def batch (interval : Interval) (x : Option Timestamp × List Timestamp) (now : Timestamp) :
    Option Timestamp × List Timestamp :=
  match x.1 with
  | some expiration => if expiration ≤ now then (next interval now, x.2 ++ [now]) else x
  | none => x

/-- The expiration after all batches, if the timer is to run again, and the readings at which it ran. -/
def fired (r : Schedule) : Option Timestamp × List Timestamp := r.readings.foldl (batch r.interval) (some r.when, [])

/-- The timer runs not before its expiration, then not before an interval has passed since it last ran, and only once if
it does not repeat. -/
structure Spaced (r : Schedule) (runs : List Timestamp) : Prop where
  first : ∀ now ∈ runs.head?, r.when ≤ now
  spaced : runs.IsChain fun now now' => addTime now r.interval ≤ now'
  once : r.interval.positive = false → runs.length ≤ 1

variable {r : Schedule} {interval : Interval} {now : Timestamp}

theorem fired_append (r : Schedule) (now : Timestamp) :
    fired { r with readings := r.readings ++ [now] } = batch r.interval r.fired now := List.foldl_concat ..

theorem batch_due {expiration : Timestamp} {runs : List Timestamp} (h : expiration ≤ now) :
    batch interval (some expiration, runs) now = (next interval now, runs ++ [now]) := if_pos h

theorem batch_early {expiration : Timestamp} {runs : List Timestamp} (h : now < expiration) :
    batch interval (some expiration, runs) now = (some expiration, runs) := if_neg (not_le.mpr h)

theorem runs_batch (x : Option Timestamp × List Timestamp) : x.2 <+: (batch interval x now).2 := by
  unfold batch
  split
  · split_ifs
    · exact List.prefix_append _ _
    · exact List.prefix_refl _
  · exact List.prefix_refl _

/-- What the schedule has come to: it is spaced, and the next expiration is far enough. -/
structure Ahead (r : Schedule) (x : Option Timestamp × List Timestamp) : Prop extends Spaced r x.2 where
  expiration : ∀ e ∈ x.1, (x.2 = [] → r.when ≤ e) ∧ (∀ now ∈ x.2.getLast?, addTime now r.interval ≤ e) ∧
    (r.interval.positive = false → x.2 = [])

theorem Ahead.batch {x : Option Timestamp × List Timestamp} (h : Ahead r x) (now : Timestamp) :
    Ahead r (batch r.interval x now) := by
  obtain ⟨due, runs⟩ := x
  cases due with
  | none => exact h
  | some e =>
      rcases lt_or_ge now e with hearly | hdue
      · rw [batch_early hearly]
        exact h
      · obtain ⟨hwhen, hlast, honce⟩ := h.expiration e rfl
        rw [batch_due hdue]
        refine ⟨⟨fun now' hnow' => ?_, ?_, fun hpos => ?_⟩, fun e' he' => ?_⟩
        · cases runs with
          | nil =>
              cases hnow'
              exact (hwhen rfl).trans hdue
          | cons now₀ runs => exact h.first now' hnow'
        · refine h.spaced.append (List.isChain_singleton now) fun now' hnow' now'' hnow'' => ?_
          cases hnow''
          exact (hlast now' hnow').trans hdue
        · rw [show runs = [] from honce hpos]
          exact Nat.le_refl 1
        · unfold next at he'
          split_ifs at he' with hpos
          · cases he'
            refine ⟨fun hnil => ?_, fun now' hnow' => ?_, fun hnot => ?_⟩
            · exact absurd hnil (List.append_ne_nil_of_right_ne_nil _ (List.cons_ne_nil _ _))
            · rw [List.getLast?_concat] at hnow'
              cases hnow'
              exact le_refl _
            · rw [hpos] at hnot
              cases hnot
          · cases he'

theorem fired_spaced (r : Schedule) : r.Spaced r.fired.2 := by
  have hahead : ∀ (readings : List Timestamp) (x : Option Timestamp × List Timestamp), r.Ahead x →
      r.Ahead (readings.foldl (Schedule.batch r.interval) x) := by
    intro readings
    induction readings with
    | nil => exact fun x h => h
    | cons now readings ih => exact fun x h => ih _ (h.batch now)
  refine (hahead r.readings (some r.when, []) ⟨⟨nofun, .nil, fun _ => Nat.zero_le 1⟩, fun e he => ?_⟩).toSpaced
  cases he
  exact ⟨fun _ => le_refl _, nofun, fun _ => rfl⟩

theorem Spaced.mono {runs runs' : List Timestamp} (h : r.Spaced runs) (hle : runs' <+: runs) : r.Spaced runs' where
  first now hnow := by
    obtain ⟨rest, rfl⟩ := hle
    cases runs' with
    | nil => cases hnow
    | cons now₀ runs' => exact h.first now hnow
  spaced := by
    obtain ⟨rest, rfl⟩ := hle
    exact h.spaced.left_of_append
  once hpos := hle.length_le.trans (h.once hpos)

end Schedule

/-! ### The record of every timer -/

/-- A timer's address and schedule, and the readings of the batches in which its callback was called. -/
structure Record where
  timer : Addr
  schedule : Schedule
  inserted : Bool
  runs : List Timestamp

/-- A timer queue with a record for each timer, under its number. -/
structure Recorded where
  state : TimerSystem.State
  records : Nat → Record

namespace TimerSystem

open Run TimerQueue

/-- What a step is to the records. -/
def note (s : State) (records : Nat → Record) : Event → Nat → Record
  | .addTimer timer when interval =>
      Function.update records s.queue.seqTotal ⟨timer, ⟨when, interval, []⟩, false, []⟩
  | .addTimerInLoop timer _ =>
      match s.queue.heap timer with
      | some t => Function.update records t.seq { records t.seq with inserted := true }
      | none => records
  | .handelRead now => fun n =>
      let r := records n
      if r.inserted then { r with schedule := { r.schedule with readings := r.schedule.readings ++ [now] } } else r
  | .callback =>
      match s.batch with
      | some ⟨now, _, e :: _⟩ =>
          let n := (s.queue.idOf e).seq
          Function.update records n { records n with runs := (records n).runs ++ [now] }
      | _ => records
  | .cancelInLoop _ | .reset _ => records

end TimerSystem

namespace Recorded

open Run TimerQueue TimerSystem

def init : Recorded := ⟨TimerSystem.init, fun _ => ⟨0, ⟨0, ⟨false, 0⟩, []⟩, false, []⟩⟩

def step (s : Recorded) (e : Event) : Except Abort Recorded := do
  let state ← TimerSystem.step s.state e
  return ⟨state, note s.state s.records e⟩

/-- The id that `addTimer` returned for the timer with the number `n`. -/
def id (s : Recorded) (n : Nat) : TimerId := ⟨(s.records n).timer, n⟩

/-- The reading of the batch that runs, if the callback of the timer is still to be called in it. -/
def owed (s : Recorded) (n : Nat) : List Timestamp :=
  match s.state.batch with
  | some b => if s.id n ∈ b.rest.map s.state.queue.idOf then [b.now] else []
  | none => []

/-- The callback of the timer was called in exactly the batches that its schedule says, but for the one it is owed in
the batch that runs; if the timer was cancelled, in the first of them. -/
structure OnSchedule (s : Recorded) (n : Nat) : Prop where
  exact : s.id n ∉ s.state.cancelled → (s.records n).runs ++ s.owed n = (s.records n).schedule.fired.2
  first : (s.records n).runs ++ s.owed n <+: (s.records n).schedule.fired.2
  spaced : (s.records n).schedule.Spaced (s.records n).runs

/-! ### The invariant -/

/-- The record of a timer that was inserted. -/
structure OfTimer (r : Record) (a : Addr) (t : Timer) : Prop where
  timer : r.timer = a
  interval : r.schedule.interval = t.interval
  inserted : r.inserted = true

/-- The record of an active timer. -/
structure Active (r : Record) (a : Addr) (t : Timer) : Prop extends OfTimer r a t where
  fired : r.schedule.fired = (some t.expiration, r.runs)

/-- The record of a timer in a batch at `now`, with the reading that it is owed. -/
structure InBatch (r : Record) (a : Addr) (t : Timer) (now : Timestamp) (owed : List Timestamp) : Prop
    extends OfTimer r a t where
  fired : r.schedule.fired = (Schedule.next t.interval now, r.runs ++ owed)

/-- The record of a timer that was freed. -/
structure Freed (r : Record) (cancelled : Prop) : Prop where
  inserted : r.inserted = true
  first : r.runs <+: r.schedule.fired.2
  exact : ¬ cancelled → r.schedule.fired = (none, r.runs)

/-- The records agree with the places of the timers. -/
structure Tracks (s : Recorded) : Prop where
  inv : Inv s.state
  waiting : ∀ a ∈ s.state.waiting, ∀ t, s.state.queue.heap a = some t →
    s.records t.seq = ⟨a, ⟨t.expiration, t.interval, []⟩, false, []⟩
  active : ∀ a t, s.state.queue.heap a = some t → Entry.mk t.expiration a ∈ s.state.queue.timers →
    Active (s.records t.seq) a t
  batch : ∀ b ∈ s.state.batch, ∀ e ∈ b.expired, ∀ t, s.state.queue.heap e.timer = some t →
    InBatch (s.records t.seq) e.timer t b.now (if e ∈ b.rest then [b.now] else [])
  freed : ∀ n ∈ s.state.queue.freed, Freed (s.records n) (s.id n ∈ s.state.cancelled)

variable {s : Recorded}

theorem init_tracks : Tracks init := by
  refine ⟨TimerSystem.init_inv, ?_, ?_, ?_, ?_⟩
  · exact fun a ha => absurd ha List.not_mem_nil
  · intro a t ht
    cases ht
  · intro b hb
    cases hb
  · exact fun n hn => absurd hn List.not_mem_nil

theorem step_ok {e : Event} {t : State} (hstep : TimerSystem.step s.state e = .ok t) :
    step s e = .ok ⟨t, note s.state s.records e⟩ := by
  simp only [step, hstep, ok_bind]
  rfl

theorem update_of_timer (h : Inv s.state) {a b : Addr} {t u : Timer} (ht : s.state.queue.heap a = some t)
    (hu : s.state.queue.heap b = some u) (hne : b ≠ a) (r : Record) :
    Function.update s.records t.seq r u.seq = s.records u.seq :=
  Function.update_of_ne (fun heq => hne (h.owned.distinct b a u t hu ht heq)) _ _

theorem update_of_freed (h : Inv s.state) {a : Addr} {t : Timer} (ht : s.state.queue.heap a = some t) {n : Nat}
    (hn : n ∈ s.state.queue.freed) (r : Record) : Function.update s.records t.seq r n = s.records n :=
  Function.update_of_ne (fun heq => ((h.owned.mem_freed n).mp hn).2 a t ht heq.symm) _ _

theorem Tracks.freed_of (h : Tracks s) {s' : Recorded} {n : Nat} (hn : n ∈ s.state.queue.freed)
    (hrecord : s'.records n = s.records n) (hcancelled : ∀ id, id ∈ s.state.cancelled → id ∈ s'.state.cancelled) :
    Freed (s'.records n) (s'.id n ∈ s'.state.cancelled) := by
  have hid : s'.id n = s.id n := by rw [id, id, hrecord]
  obtain ⟨hinserted, hfirst, hexact⟩ := h.freed n hn
  rw [hrecord, hid]
  exact ⟨hinserted, hfirst, fun hnot => hexact fun hin => hnot (hcancelled _ hin)⟩

/-! ### The steps -/

theorem tracks_addTimer (h : Tracks s) {a : Addr} (hfree : s.state.queue.heap a = none) (hbound : a < UINTPTR_MAX)
    (when : Timestamp) (interval : Interval) :
    Tracks ⟨{ s.state with queue := s.state.queue.newTimer a when interval, waiting := a :: s.state.waiting },
      note s.state s.records (.addTimer a when interval)⟩ := by
  have hrecord : ∀ n < s.state.queue.seqTotal, note s.state s.records (.addTimer a when interval) n = s.records n :=
    fun n hn => Function.update_of_ne hn.ne _ _
  have hheap : ∀ b u, b ≠ a → (s.state.queue.newTimer a when interval).heap b = some u →
      s.state.queue.heap b = some u ∧ note s.state s.records (.addTimer a when interval) u.seq = s.records u.seq := by
    intro b u hb hu
    have hold : s.state.queue.heap b = some u := (Function.update_of_ne hb _ _).symm.trans hu
    exact ⟨hold, hrecord _ (h.inv.owned.numbered b u hold)⟩
  refine ⟨addTimer_keeps h.inv hfree hbound when interval, fun b hb u hu => ?_, fun b u hu hin => ?_,
    fun b hb e he u hu => ?_, fun n hn => ?_⟩
  · by_cases hba : b = a
    · subst hba
      cases (Function.update_self _ _ _).symm.trans hu
      exact Function.update_self _ _ _
    · obtain ⟨hold, hsame⟩ := hheap b u hba hu
      have hwait := (List.mem_cons.mp hb).resolve_left hba
      exact hsame.trans (h.waiting b hwait u hold)
  · have hba : b ≠ a := by
      rintro rfl
      obtain ⟨v, hv, _⟩ := h.inv.owned.keyed _ hin
      cases hfree.symm.trans hv
    obtain ⟨hold, hsame⟩ := hheap b u hba hu
    show Active (note s.state s.records (.addTimer a when interval) u.seq) b u
    rw [hsame]
    exact h.active b u hold hin
  · have hba : e.timer ≠ a := by
      intro heq
      obtain ⟨v, hv, _⟩ := h.inv.batch_outside (mem_batchTimers hb he)
      rw [heq] at hv
      cases hfree.symm.trans hv
    obtain ⟨hold, hsame⟩ := hheap e.timer u hba hu
    show InBatch (note s.state s.records (.addTimer a when interval) u.seq) e.timer u b.now _
    rw [hsame]
    exact h.batch b hb e he u hold
  · exact h.freed_of hn (hrecord n ((h.inv.owned.mem_freed n).mp hn).1) (fun _ hid => hid)

theorem tracks_addTimerInLoop (h : Tracks s) {a : Addr} (ha : a ∈ s.state.waiting) (clock : Timestamp) :
    ∃ t, step s (.addTimerInLoop a clock) = .ok t ∧ Tracks t := by
  obtain ⟨v, hv, hstep, hinv⟩ := addTimerInLoop_keeps h.inv ha clock
  have hnote : note s.state s.records (.addTimerInLoop a clock) =
      Function.update s.records v.seq { s.records v.seq with inserted := true } := by
    simp only [note, hv]
  have hwait := h.waiting a ha v hv
  have hother : ∀ b u, s.state.queue.heap b = some u → b ≠ a →
      note s.state s.records (.addTimerInLoop a clock) u.seq = s.records u.seq := by
    intro b u hu hb
    rw [hnote]
    exact update_of_timer h.inv hv hu hb _
  have hheld : a ∈ s.state.held := List.mem_append_right _ ha
  obtain ⟨_, _, hdisjoint⟩ := List.nodup_append.mp h.inv.owned.nodup
  refine ⟨_, step_ok hstep, hinv, fun b hb u hu => ?_, fun b u hu hin => ?_,
    fun b hb e he u hu => ?_, fun n hn => ?_⟩
  · have hnodup := (List.nodup_append.mp h.inv.owned.nodup).2.1
    obtain ⟨hba, hold⟩ := (hnodup.mem_erase_iff).mp hb
    exact (hother b u hu hba).trans (h.waiting b hold u hu)
  · show Active (note s.state s.records (.addTimerInLoop a clock) u.seq) b u
    rcases OrderedSet.mem_insert.mp hin with hnew | hold
    · obtain rfl : b = a := congrArg Entry.timer hnew
      cases hv.symm.trans hu
      rw [hnote, Function.update_self, hwait]
      exact ⟨⟨rfl, rfl, rfl⟩, rfl⟩
    · have hba : b ≠ a := by
        rintro rfl
        obtain ⟨u', hu', hout⟩ := h.inv.owned.outside b hheld
        cases hu.symm.trans hu'
        exact hout hold
      rw [hother b u hu hba]
      exact h.active b u hu hold
  · show InBatch (note s.state s.records (.addTimerInLoop a clock) u.seq) e.timer u b.now _
    rw [hother e.timer u hu (hdisjoint e.timer (mem_batchTimers hb he) a ha)]
    exact h.batch b hb e he u hu
  · refine h.freed_of hn ?_ (fun _ hid => hid)
    show note s.state s.records (.addTimerInLoop a clock) n = s.records n
    rw [hnote]
    exact update_of_freed h.inv hv hn _

theorem tracks_cancelInLoop (h : Tracks s) (id : TimerId) :
    ∃ t, step s (.cancelInLoop id) = .ok t ∧ Tracks t := by
  by_cases hactive : id.activeTimer ∈ s.state.queue.activeTimers
  · obtain ⟨v, hv, hseq, hstep, hinv⟩ := cancelInLoop_keeps_active h.inv hactive
    obtain ⟨v', hv', _, hin⟩ := (h.inv.owned.active _).mp hactive
    cases hv.symm.trans hv'
    refine ⟨_, step_ok hstep, hinv, fun b hb u hu => ?_, fun b u hu hin' => ?_,
      fun b hb e he u hu => ?_, fun n hn => ?_⟩
    · exact h.waiting b hb u (without_heap.mp hu).2
    · exact h.active b u (without_heap.mp hu).2 (OrderedSet.mem_erase.mp hin').2
    · exact h.batch b hb e he u (without_heap.mp hu).2
    · have hcases : n ∈ s.state.queue.freed ∨ n = v.seq := by
        simpa [freed, without, taken] using hn
      rcases hcases with hold | rfl
      · exact h.freed_of hold rfl (fun _ hid => List.mem_cons_of_mem _ hid)
      · have hrecord := h.active _ v hv hin
        refine ⟨hrecord.inserted, ?_, fun hnot => absurd (List.mem_cons.mpr (Or.inl ?_)) hnot⟩
        · show (s.records v.seq).runs <+: (s.records v.seq).schedule.fired.2
          rw [hrecord.fired]
        · show TimerId.mk (s.records v.seq).timer v.seq = id
          rw [hrecord.timer, hseq]
  · obtain ⟨canceling, hstep, _, hinv⟩ := cancelInLoop_keeps_inactive h.inv hactive
    refine ⟨_, step_ok hstep, hinv, h.waiting, h.active, h.batch, fun n hn => ?_⟩
    exact h.freed_of hn rfl (fun _ hid => List.mem_cons_of_mem _ hid)

/-- A batch at `now` is one more reading for every timer that was inserted. -/
theorem note_handelRead (records : Nat → Record) {n : Nat} (hinserted : (records n).inserted = true)
    (now : Timestamp) : note s.state records (.handelRead now) n = { records n with
      schedule := { (records n).schedule with readings := (records n).schedule.readings ++ [now] } } := if_pos hinserted

theorem tracks_handelRead (h : Tracks s) (hbatch : s.state.batch = none) (now : Timestamp) :
    ∃ t, step s (.handelRead now) = .ok t ∧ Tracks t := by
  obtain ⟨active, hstep, hinv⟩ := handelRead_keeps h.inv hbatch now
  have howned := h.inv.owned
  refine ⟨_, step_ok hstep, hinv, fun a ha t ht => ?_, fun a t ht hin => ?_, fun b hb e he t ht => ?_, fun n hn => ?_⟩
  · have hwait := h.waiting a ha t ht
    refine (if_neg ?_).trans hwait
    rw [hwait]
    exact Bool.false_ne_true
  · obtain ⟨hin, hle⟩ := OrderedSet.mem_eraseBefore.mp hin
    have hearly : now < t.expiration := by
      by_contra hdue
      exact absurd ((lt_nowEntry howned.toLinked hin now).mpr (not_lt.mp hdue)) (not_lt.mpr hle)
    obtain ⟨⟨htimer, hinterval, hinserted⟩, hfired⟩ := h.active a t ht hin
    show Active (note s.state s.records (.handelRead now) t.seq) a t
    rw [note_handelRead s.records hinserted]
    refine ⟨⟨htimer, hinterval, hinserted⟩, ?_⟩
    rw [Schedule.fired_append, hfired, Schedule.batch_early hearly]
  · cases hb
    obtain ⟨hin, hdue⟩ := (mem_due howned).mp he
    obtain ⟨u, hu, hwhen⟩ := howned.keyed e hin
    cases ht.symm.trans hu
    obtain ⟨⟨htimer, hinterval, hinserted⟩, hfired⟩ := h.active e.timer t ht (howned.when_eq hin ht ▸ hin)
    show InBatch (note s.state s.records (.handelRead now) t.seq) e.timer t now _
    rw [note_handelRead s.records hinserted, if_pos he]
    refine ⟨⟨htimer, hinterval, hinserted⟩, ?_⟩
    rw [Schedule.fired_append, hfired, Schedule.batch_due (hwhen.trans_le hdue), hinterval]
  · obtain ⟨hinserted, hfirst, hexact⟩ := h.freed n hn
    show Freed (note s.state s.records (.handelRead now) n)
      (TimerId.mk (note s.state s.records (.handelRead now) n).timer n ∈ s.state.cancelled)
    rw [note_handelRead s.records hinserted]
    refine ⟨hinserted, ?_, fun hnot => ?_⟩
    · rw [Schedule.fired_append]
      exact hfirst.trans (Schedule.runs_batch _)
    · rw [Schedule.fired_append, hexact hnot]
      rfl

theorem tracks_callback (h : Tracks s) (hen : Enabled s.state .callback) :
    ∃ t, step s .callback = .ok t ∧ Tracks t := by
  obtain ⟨⟨now, expired, rest⟩, hbatch, hrest⟩ := hen
  obtain ⟨e, rest, rfl⟩ := List.exists_cons_of_ne_nil hrest
  obtain ⟨v, hv, hstep, hinv⟩ := callback_keeps h.inv hbatch
  have hnote : note s.state s.records .callback =
      Function.update s.records v.seq { s.records v.seq with runs := (s.records v.seq).runs ++ [now] } := by
    simp only [note, Option.mem_def.mp hbatch, idOf_some hv]
  have hother : ∀ b u, s.state.queue.heap b = some u → b ≠ e.timer →
      note s.state s.records .callback u.seq = s.records u.seq := by
    intro b u hu hb
    rw [hnote]
    exact update_of_timer h.inv hv hu hb _
  have hexpired : e ∈ expired := (h.inv.rest _ hbatch).subset List.mem_cons_self
  have htimers : (expired.map Entry.timer ++ s.state.waiting).Nodup := by
    have hnodup := h.inv.owned.nodup
    rwa [State.held, State.batchTimers, Option.mem_def.mp hbatch] at hnodup
  obtain ⟨hnodup, _, hdisjoint⟩ := List.nodup_append.mp htimers
  refine ⟨_, step_ok hstep, hinv, fun a ha t ht => ?_, fun a t ht hin => ?_, fun b hb f hf t ht => ?_, fun n hn => ?_⟩
  · have hne : a ≠ e.timer := fun heq => hdisjoint _ (List.mem_map_of_mem hexpired) a ha heq.symm
    exact (hother a t ht hne).trans (h.waiting a ha t ht)
  · have hne : a ≠ e.timer := by
      rintro rfl
      obtain ⟨u, hu, hout⟩ := h.inv.batch_outside (mem_batchTimers hbatch hexpired)
      cases ht.symm.trans hu
      exact hout hin
    show Active (note s.state s.records .callback t.seq) a t
    rw [hother a t ht hne]
    exact h.active a t ht hin
  · cases hb
    show InBatch (note s.state s.records .callback t.seq) f.timer t now _
    have hold := h.batch _ hbatch f hf t ht
    by_cases hfe : f = e
    · subst hfe
      cases hv.symm.trans ht
      have hnotin : f ∉ rest := by
        have hsub := ((h.inv.rest _ hbatch).sublist.map Entry.timer).nodup hnodup
        exact fun hin => (List.nodup_cons.mp hsub).1 (List.mem_map_of_mem hin)
      rw [if_pos List.mem_cons_self] at hold
      rw [hnote, Function.update_self, if_neg hnotin]
      refine ⟨⟨hold.timer, hold.interval, hold.inserted⟩, ?_⟩
      rw [List.append_nil]
      exact hold.fired
    · have hne : f.timer ≠ e.timer := fun heq => hfe (List.inj_on_of_nodup_map hnodup hf hexpired heq)
      rw [hother f.timer t ht hne]
      have hiff : f ∈ e :: rest ↔ f ∈ rest := List.mem_cons.trans (or_iff_right hfe)
      simpa only [hiff] using hold
  · refine h.freed_of hn ?_ (fun _ hid => hid)
    show note s.state s.records .callback n = s.records n
    rw [hnote]
    exact update_of_freed h.inv hv hn _

theorem tracks_reset (h : Tracks s) (clock : Timestamp) (hen : Enabled s.state (.reset clock)) :
    ∃ t, step s (.reset clock) = .ok t ∧ Tracks t := by
  obtain ⟨⟨now, expired, rest⟩, hbatch, rfl⟩ := hen
  obtain ⟨queue, hstep, hsettles, hinv⟩ := reset_keeps h.inv hbatch clock
  have hold : ∀ e ∈ expired, ∀ t, s.state.queue.heap e.timer = some t →
      InBatch (s.records t.seq) e.timer t now [] := by
    intro e he t ht
    simpa using h.batch _ hbatch e he t ht
  have hdisjoint : ∀ a ∈ s.state.waiting, a ∉ expired.map Entry.timer := by
    have hnodup := h.inv.owned.nodup
    rw [State.held, State.batchTimers, Option.mem_def.mp hbatch] at hnodup
    exact fun a ha hin => (List.nodup_append.mp hnodup).2.2 a hin a ha rfl
  refine ⟨_, step_ok hstep, hinv, fun a ha t ht => ?_, fun a t ht hin => ?_, fun b hb => ?_, fun n hn => ?_⟩
  · exact h.waiting a ha t ((hsettles.heap a (hdisjoint a ha)).symm.trans ht)
  · show Active (s.records t.seq) a t
    by_cases hmem : a ∈ expired.map Entry.timer
    · obtain ⟨e, he, rfl⟩ := List.mem_map.mp hmem
      obtain ⟨u, hu, _⟩ := h.inv.batch_outside (mem_batchTimers hbatch he)
      by_cases hagain : s.state.queue.Again e.timer u
      · cases ht.symm.trans (hsettles.again e he u hu hagain).1
        rw [Timer.restart_seq]
        obtain ⟨⟨htimer, hinterval, hinserted⟩, hfired⟩ := hold e he u hu
        refine ⟨⟨htimer, hinterval.trans (u.restart_interval now).symm, hinserted⟩, ?_⟩
        rw [hfired, restart_of_repeats hagain.1, List.append_nil]
        exact congrArg (·, _) (if_pos hagain.1)
      · cases ht.symm.trans (hsettles.done e he u hu hagain).1
    · have hold : Entry.mk t.expiration a ∈ s.state.queue.timers :=
        (hsettles.timers (Entry.mk t.expiration a) hmem).mp hin
      exact h.active a t ((hsettles.heap a hmem).symm.trans ht) hold
  · cases hb
  · obtain ⟨d, hd, rfl⟩ := List.mem_map.mp hn
    rcases (hsettles.deleted d).mp hd with hd | ⟨e, he, hde, ht, hnot⟩
    · exact h.freed_of (List.mem_map_of_mem hd) rfl (fun _ hid => hid)
    · obtain ⟨⟨htimer, _, hinserted⟩, hfired⟩ := hold e he d.2 ht
      rw [List.append_nil] at hfired
      refine ⟨hinserted, ?_, fun hcancelled => ?_⟩
      · show (s.records d.2.seq).runs <+: (s.records d.2.seq).schedule.fired.2
        rw [hfired]
      · -- it was not cancelled, so it does not repeat
        have hrepeats : d.2.repeats = false := by
          by_contra hrepeats
          refine hnot ⟨by simpa using hrepeats, fun hin => hcancelled ?_⟩
          show TimerId.mk (s.records d.2.seq).timer d.2.seq ∈ s.state.cancelled
          rw [htimer]
          exact h.inv.canceling _ hin
        have hnone : Schedule.next d.2.interval now = none :=
          if_neg (Bool.eq_false_iff.mp (show d.2.interval.positive = false from hrepeats))
        show (s.records d.2.seq).schedule.fired = (none, (s.records d.2.seq).runs)
        rw [hfired, hnone]

theorem step_tracks (h : Tracks s) {e : Event} (hen : Enabled s.state e) : ∃ t, step s e = .ok t ∧ Tracks t := by
  cases e with
  | addTimer a when interval => exact ⟨_, step_ok rfl, tracks_addTimer h hen.1 hen.2 when interval⟩
  | addTimerInLoop a clock => exact tracks_addTimerInLoop h hen clock
  | cancelInLoop id => exact tracks_cancelInLoop h id
  | handelRead now => exact tracks_handelRead h hen now
  | callback => exact tracks_callback h hen
  | reset clock => exact tracks_reset h clock hen

/-! ### Runs -/

theorem owed_eq_nil (h : Inv s.state) {n : Nat}
    (hnot : ∀ a ∈ s.state.batchTimers, ∀ t, s.state.queue.heap a = some t → t.seq ≠ n) : s.owed n = [] := by
  unfold owed
  split
  · next b hb =>
    refine if_neg fun hin => ?_
    obtain ⟨e, he, hid⟩ := List.mem_map.mp hin
    have hbatch := mem_batchTimers hb ((h.rest b hb).subset he)
    obtain ⟨t, ht, _⟩ := h.batch_outside hbatch
    rw [idOf_some ht] at hid
    exact hnot _ hbatch t ht (congrArg TimerId.seq hid)
  · rfl

theorem owed_of_batch (h : Inv s.state) {b : Batch} (hb : s.state.batch = some b) {e : Entry} (he : e ∈ b.expired)
    {t : Timer} (ht : s.state.queue.heap e.timer = some t) (hrecord : (s.records t.seq).timer = e.timer) :
    s.owed t.seq = if e ∈ b.rest then [b.now] else [] := by
  have hnodup : (b.expired.map Entry.timer).Nodup := by
    have hheld := h.owned.nodup
    rw [State.held, State.batchTimers, hb] at hheld
    exact (List.nodup_append.mp hheld).1
  have hid : s.id t.seq = s.state.queue.idOf e := by rw [idOf_some ht, id, hrecord]
  have hiff : s.id t.seq ∈ b.rest.map s.state.queue.idOf ↔ e ∈ b.rest := by
    rw [hid]
    refine ⟨fun hin => ?_, List.mem_map_of_mem⟩
    obtain ⟨f, hf, heq⟩ := List.mem_map.mp hin
    have hfe : f = e :=
      List.inj_on_of_nodup_map hnodup ((h.rest b hb).subset hf) he (congrArg TimerId.timer heq)
    exact hfe ▸ hf
  simp only [owed, hb, hiff]

theorem onSchedule_of_fired {n : Nat}
    (hfirst : (s.records n).runs ++ s.owed n = (s.records n).schedule.fired.2) : s.OnSchedule n where
  exact _ := hfirst
  first := hfirst ▸ List.prefix_refl _
  spaced := (s.records n).schedule.fired_spaced.mono (hfirst ▸ List.prefix_append _ _)

theorem Tracks.onSchedule (h : Tracks s) {n : Nat} (hn : n < s.state.queue.seqTotal) : s.OnSchedule n := by
  by_cases hfreed : n ∈ s.state.queue.freed
  · have howed : s.owed n = [] :=
      owed_eq_nil h.inv fun a _ t ht => ((h.inv.owned.mem_freed n).mp hfreed).2 a t ht
    obtain ⟨_, hfirst, hexact⟩ := h.freed n hfreed
    refine ⟨fun hnot => ?_, ?_, (s.records n).schedule.fired_spaced.mono hfirst⟩
    · rw [howed, List.append_nil, hexact hnot]
    · rwa [howed, List.append_nil]
  · obtain ⟨a, t, ht, rfl⟩ : ∃ a t, s.state.queue.heap a = some t ∧ t.seq = n := by
      by_contra hno
      push Not at hno
      exact hfreed ((h.inv.owned.mem_freed n).mpr ⟨hn, hno⟩)
    have hout : a ∉ s.state.batchTimers → s.owed t.seq = [] := by
      intro ha
      refine owed_eq_nil h.inv fun b hb u hu heq => ha ?_
      rwa [← h.inv.owned.distinct b a u t hu ht heq]
    apply onSchedule_of_fired
    rcases h.inv.owned.covered a t ht with hheld | hin
    · rcases List.mem_append.mp hheld with hbatch | hwait
      · obtain ⟨b, hb⟩ : ∃ b, s.state.batch = some b := by
          unfold State.batchTimers at hbatch
          split at hbatch
          · next b hb => exact ⟨b, hb⟩
          · exact absurd hbatch List.not_mem_nil
        rw [State.batchTimers, hb] at hbatch
        obtain ⟨e, he, rfl⟩ := List.mem_map.mp hbatch
        have hrecord := h.batch b hb e he t ht
        rw [owed_of_batch h.inv hb he ht hrecord.timer, hrecord.fired]
      · have hdisjoint := (List.nodup_append.mp h.inv.owned.nodup).2.2
        rw [hout fun hbatch => hdisjoint a hbatch a hwait rfl, h.waiting a hwait t ht]
        rfl
    · have hnotin : a ∉ s.state.batchTimers := by
        intro hbatch
        obtain ⟨u, hu, hnot⟩ := h.inv.batch_outside hbatch
        cases ht.symm.trans hu
        exact hnot hin
      rw [hout hnotin, (h.active a t ht hin).fired, List.append_nil]

/-- **Timers run on schedule.** In every run of `addTimer`, `cancle` and `handelRead`, with the functors and the batches
in any order, callbacks that add and cancel any timers, and the clock as it likes: no assertion fails, and after every
step the callback of each timer ever allocated was called in exactly the batches in which its expiration was reached,
counted from the batch before if it repeats; or in the first of them, if it was cancelled. In particular it was never
called early, and at most once if it does not repeat. -/
theorem onSchedule_of_along (es : List Event) (hes : Along step (fun s e => Enabled s.state e) init es) :
    Holds step noError (fun _ _ t => ∀ n < t.state.queue.seqTotal, OnSchedule t n) init es := by
  refine holds_of_along (I := Tracks) (fun s e h hen => ?_) init_tracks hes
  obtain ⟨t, hstep, htracks⟩ := step_tracks h hen
  exact .of_ok hstep ⟨fun n hn => htracks.onSchedule hn, htracks⟩

/-- A timer that repeats and one that does not; the first runs twice and cancels itself, and a third one gets its
address. -/
theorem onSchedule_of_along_run : Holds step noError (fun _ _ t => ∀ n < t.state.queue.seqTotal, OnSchedule t n) init
    [.addTimer 1 10 ⟨true, 5⟩, .addTimerInLoop 1 1, .addTimer 2 12 ⟨false, 0⟩, .addTimerInLoop 2 2, .handelRead 11,
      .callback, .reset 11, .handelRead 14, .callback, .reset 14, .handelRead 16, .callback, .cancelInLoop ⟨1, 0⟩,
      .reset 16, .addTimer 1 20 ⟨false, 0⟩, .addTimerInLoop 1 17, .handelRead 30, .callback, .reset 30] :=
  onSchedule_of_along _ (by decide +kernel)

end Recorded

end OulaServer
