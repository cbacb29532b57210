import OulaServer.TimerQueue.Ownership

/-!
# Timers that any thread adds

`addTimer` may run on any thread. Its `new Timer` reads `Timer::seqTotal` and writes it back, a plain static that
the timers of all loops share. It passes the timer on to the loop, and reads `timer->sequence()` for the
`TimerId` only then: by that time the loop may have run the timer and deleted it, and its address may be that of
another one.

The system is the one of `OulaServer.TimerQueue.Ownership` with these parts of `addTimer` as steps of their own,
any number of threads being inside it, and with the timers of the other loops' queues, which share the counter and
the allocator. The history says which allocation a timer is: numbers and addresses come back, allocations do not.

In every run each allocation is in one place (`Represents`): the sets hold the address of a timer beside its
number, and addresses differ. That the id of a freed timer names no other one (`StaleCancel`) needs more, `Orderly`:
no two constructors overlap, and `addTimer` has read the number before its timer is deleted.
-/

namespace OulaServer

namespace TimerThreads

open Run TimerQueue

open TimerSystem (Wellformed)

structure State where
  /-- The queue and its loop. `seqTotal` of the queue is the one counter of all queues. -/
  timers : TimerSystem.State
  /-- The numbers of the timers of other loops, by their addresses. -/
  others : Addr → Option Nat
  /-- What the constructors that run have read from `seqTotal`, and not written back. -/
  loaded : List Nat
  /-- The calls of `addTimer` that have not read the number of their timer: its address and its allocation. -/
  calls : List (Addr × Nat)
  /-- How many timers were allocated for the queue. -/
  made : Nat
  /-- The last allocation at an address. -/
  owner : Addr → Nat
  /-- The ids that `addTimer` returned, with the allocations of their timers. -/
  issued : List (TimerId × Nat)
  /-- The allocations that were deleted. -/
  freed : List Nat

inductive Event where
  -- the constructor of a timer, of this loop or of another one, reads `seqTotal`
  | load
  -- it writes `seqTotal` back, and `addTimer` passes the timer on
  | construct (i : Nat) (timer : Addr) (when : Timestamp) (interval : Interval)
  | constructOther (i : Nat) (timer : Addr)
  | deleteOther (timer : Addr)
  -- `addTimer` reads the number and returns the id; `garbage` is what it reads where no timer lives
  | returns (i : Nat) (garbage : Nat)
  | loop (e : TimerSystem.Event)

def init : State := ⟨TimerSystem.init, fun _ => none, [], [], 0, fun _ => 0, [], []⟩

namespace State

/-- `timer->sequence()`, of whatever timer is at the address by now. -/
def sequence (s : State) (timer : Addr) (garbage : Nat) : Nat :=
  match s.timers.queue.heap timer with
  | some t => t.seq
  | none => (s.others timer).getD garbage

def Free (s : State) (timer : Addr) : Prop := s.timers.queue.heap timer = none ∧ s.others timer = none

instance (s : State) (timer : Addr) : Decidable (s.Free timer) := inferInstanceAs (Decidable (_ ∧ _))

end State

def step (s : State) : Event → Except Abort State
  | .load => .ok { s with loaded := s.loaded ++ [s.timers.queue.seqTotal] }
  | .construct i timer when interval =>
      match s.loaded[i]? with
      | some seq => .ok { s with
          timers := { s.timers with
            queue := s.timers.queue.construct timer seq when interval
            waiting := timer :: s.timers.waiting }
          loaded := s.loaded.eraseIdx i
          calls := s.calls ++ [(timer, s.made)]
          made := s.made + 1
          owner := Function.update s.owner timer s.made }
      | none => .ok s
  | .constructOther i timer =>
      match s.loaded[i]? with
      | some seq => .ok { s with
          timers := { s.timers with queue := { s.timers.queue with seqTotal := seq + 1 } }
          loaded := s.loaded.eraseIdx i
          others := Function.update s.others timer (some seq) }
      | none => .ok s
  | .deleteOther timer => .ok { s with others := Function.update s.others timer none }
  | .returns i garbage =>
      match s.calls[i]? with
      | some (timer, k) => .ok { s with
          calls := s.calls.eraseIdx i
          issued := (⟨timer, s.sequence timer garbage⟩, k) :: s.issued }
      | none => .ok s
  | .loop e => do
      let timers ← TimerSystem.step s.timers e
      let gone := timers.queue.deleted.drop s.timers.queue.deleted.length
      return { s with timers, freed := s.freed ++ gone.map fun d => s.owner d.1 }

/-- When each step can be taken. The allocator gives out addresses at which no timer lives, and `addTimer` is no
step of the loop alone. -/
def Enabled (s : State) : Event → Prop
  | .load => True
  | .construct i timer _ _ => i < s.loaded.length ∧ s.Free timer ∧ timer < UINTPTR_MAX
  | .constructOther i timer => i < s.loaded.length ∧ s.Free timer
  | .deleteOther timer => s.others timer ≠ none
  | .returns i _ => i < s.calls.length
  | .loop (.addTimer _ _ _) => False
  | .loop e => TimerSystem.Enabled s.timers e

instance (s : State) : (e : Event) → Decidable (Enabled s e)
  | .load => .isTrue trivial
  | .construct _ _ _ _ => inferInstanceAs (Decidable (_ ∧ _))
  | .constructOther _ _ => inferInstanceAs (Decidable (_ ∧ _))
  | .deleteOther timer => inferInstanceAs (Decidable (s.others timer ≠ none))
  | .returns i _ => inferInstanceAs (Decidable (i < s.calls.length))
  | .loop (.addTimer _ _ _) => .isFalse not_false
  | .loop (.addTimerInLoop timer clock) =>
      inferInstanceAs (Decidable (TimerSystem.Enabled s.timers (.addTimerInLoop timer clock)))
  | .loop (.cancelInLoop id) => inferInstanceAs (Decidable (TimerSystem.Enabled s.timers (.cancelInLoop id)))
  | .loop (.handelRead now) => inferInstanceAs (Decidable (TimerSystem.Enabled s.timers (.handelRead now)))
  | .loop .callback => inferInstanceAs (Decidable (TimerSystem.Enabled s.timers .callback))
  | .loop (.reset clock) => inferInstanceAs (Decidable (TimerSystem.Enabled s.timers (.reset clock)))

/-- No constructor reads `seqTotal` while another one has yet to write it back, and `addTimer` reads the number of
a timer that was not deleted. -/
def Orderly (s : State) : Event → Prop
  | .load => s.loaded = []
  | .returns i _ => ∀ c ∈ s.calls[i]?, c.2 ∉ s.freed
  | _ => True

instance (s : State) : (e : Event) → Decidable (Orderly s e)
  | .load => inferInstanceAs (Decidable (s.loaded = []))
  | .returns i _ => inferInstanceAs (Decidable (∀ c ∈ s.calls[i]?, c.2 ∉ s.freed))
  | .construct _ _ _ _ | .constructOther _ _ | .deleteOther _ | .loop _ => .isTrue trivial

/-! ### Where the timers are -/

inductive Place where
  | waiting
  | active
  | batch
  | freed
  deriving DecidableEq

/-- The timer of the allocation `k` is in the place. -/
def State.At (s : State) (k : Nat) : Place → Prop
  | .waiting => ∃ a ∈ s.timers.waiting, (∃ t, s.timers.queue.heap a = some t) ∧ s.owner a = k
  | .active => ∃ a t, s.timers.queue.heap a = some t ∧ s.owner a = k ∧
      Entry.mk t.expiration a ∈ s.timers.queue.timers ∧ ActiveTimer.mk a t.seq ∈ s.timers.queue.activeTimers
  | .batch => ∃ a ∈ s.timers.batchTimers, (∃ t, s.timers.queue.heap a = some t) ∧ s.owner a = k
  | .freed => k ∈ s.freed

/-- The two sets hold the same timers under what these say, every timer that was allocated is in exactly one
place, and none was deleted twice. -/
structure Represents (s : State) : Prop where
  same : ∀ a, (∃ e ∈ s.timers.queue.timers, e.timer = a) ↔ ∃ x ∈ s.timers.queue.activeTimers, x.timer = a
  timers : ∀ e ∈ s.timers.queue.timers, ∃ t, s.timers.queue.heap e.timer = some t ∧ e.when = t.expiration
  activeTimers : ∀ x ∈ s.timers.queue.activeTimers, ∃ t, s.timers.queue.heap x.timer = some t ∧ x.seq = t.seq
  place : ∀ k < s.made, ∃! p, s.At k p
  held : s.timers.held.Nodup
  freed : s.freed.Nodup

/-- Cancelling with an id of a timer that was freed leaves every timer where it is, and lets every timer of the
batch that would run again do so. -/
def StaleCancel (s : State) (e : Event) (s' : State) : Prop :=
  match e with
  | .loop (.cancelInLoop id) => ∀ k ∈ s.freed, (id, k) ∈ s.issued →
      s'.timers.queue.timers = s.timers.queue.timers ∧
      s'.timers.queue.activeTimers = s.timers.queue.activeTimers ∧
      s'.timers.queue.heap = s.timers.queue.heap ∧ s'.timers.queue.deleted = s.timers.queue.deleted ∧
      ∀ a t, s.timers.queue.heap a = some t → (s'.timers.queue.Again a t ↔ s.timers.queue.Again a t)
  | _ => True

/-! ### The invariant -/

/-- An allocation is that of one allocated timer, or was deleted. -/
structure Inv (s : State) : Prop where
  wellformed : Wellformed s.timers
  owner : ∀ a t, s.timers.queue.heap a = some t → s.owner a < s.made ∧ s.owner a ∉ s.freed
  distinct : ∀ a b t u, s.timers.queue.heap a = some t → s.timers.queue.heap b = some u →
    s.owner a = s.owner b → a = b
  made : ∀ k ∈ s.freed, k < s.made
  freed : s.freed.Nodup
  allocated : ∀ k < s.made, k ∉ s.freed → ∃ a t, s.timers.queue.heap a = some t ∧ s.owner a = k
  calls : ∀ c ∈ s.calls, c.2 ∉ s.freed → s.owner c.1 = c.2 ∧ ∃ t, s.timers.queue.heap c.1 = some t

variable {s : State} {a : Addr}

theorem init_inv : Inv init :=
  ⟨⟨new_linked, rfl, nofun⟩, nofun, nofun, nofun, List.nodup_nil, nofun, nofun⟩

theorem Inv.at_iff (h : Inv s) {t : Timer} (ht : s.timers.queue.heap a = some t) (p : Place) :
    s.At (s.owner a) p ↔ match p with
      | .waiting => a ∈ s.timers.waiting
      | .active => Entry.mk t.expiration a ∈ s.timers.queue.timers
      | .batch => a ∈ s.timers.batchTimers
      | .freed => False := by
  cases p with
  | waiting =>
      refine ⟨?_, fun ha => ⟨a, ha, ⟨t, ht⟩, rfl⟩⟩
      rintro ⟨b, hb, ⟨u, hu⟩, howner⟩
      exact h.distinct b a u t hu ht howner ▸ hb
  | active =>
      constructor
      · rintro ⟨b, u, hu, howner, hin, _⟩
        cases h.distinct b a u t hu ht howner
        cases ht.symm.trans hu
        exact hin
      · exact fun hin => ⟨a, t, ht, rfl, hin, (h.wellformed.linked.active _).mpr ⟨t, ht, rfl, hin⟩⟩
  | batch =>
      refine ⟨?_, fun ha => ⟨a, ha, ⟨t, ht⟩, rfl⟩⟩
      rintro ⟨b, hb, ⟨u, hu⟩, howner⟩
      exact h.distinct b a u t hu ht howner ▸ hb
  | freed => exact iff_of_false (h.owner a t ht).2 not_false

theorem State.At.live {k : Nat} {p : Place} (hp : s.At k p) (hne : p ≠ .freed) :
    ∃ a t, s.timers.queue.heap a = some t ∧ s.owner a = k := by
  cases p with
  | waiting =>
      obtain ⟨a, _, ⟨t, ht⟩, howner⟩ := hp
      exact ⟨a, t, ht, howner⟩
  | active =>
      obtain ⟨a, t, ht, howner, _⟩ := hp
      exact ⟨a, t, ht, howner⟩
  | batch =>
      obtain ⟨a, _, ⟨t, ht⟩, howner⟩ := hp
      exact ⟨a, t, ht, howner⟩
  | freed => exact absurd rfl hne

theorem Inv.place (h : Inv s) {k : Nat} (hk : k < s.made) : ∃! p, s.At k p := by
  by_cases hfreed : k ∈ s.freed
  · refine ⟨.freed, hfreed, fun p hp => ?_⟩
    by_contra hne
    obtain ⟨a, t, ht, rfl⟩ := hp.live hne
    exact (h.owner a t ht).2 hfreed
  · obtain ⟨a, t, ht, rfl⟩ := h.allocated k hk hfreed
    obtain ⟨_, _, hdisjoint⟩ := List.nodup_append.mp h.wellformed.linked.nodup
    have houtside : ∀ hin : Entry.mk t.expiration a ∈ s.timers.queue.timers, a ∉ s.timers.held := by
      intro hin ha
      obtain ⟨u, hu, hout⟩ := h.wellformed.linked.outside a ha
      cases ht.symm.trans hu
      exact hout hin
    simp only [h.at_iff ht]
    rcases h.wellformed.linked.covered a t ht with hheld | hin
    · rcases List.mem_append.mp hheld with hbatch | hwait
      · refine ⟨.batch, hbatch, fun p hp => ?_⟩
        cases p with
        | waiting => exact absurd rfl (hdisjoint a hbatch a hp)
        | active => exact absurd hheld (houtside hp)
        | batch => rfl
        | freed => exact hp.elim
      · refine ⟨.waiting, hwait, fun p hp => ?_⟩
        cases p with
        | waiting => rfl
        | active => exact absurd hheld (houtside hp)
        | batch => exact absurd rfl (hdisjoint a hp a hwait)
        | freed => exact hp.elim
    · refine ⟨.active, hin, fun p hp => ?_⟩
      cases p with
      | waiting => exact absurd (List.mem_append_right _ hp) (houtside hin)
      | active => rfl
      | batch => exact absurd (List.mem_append_left _ hp) (houtside hin)
      | freed => exact hp.elim

theorem Inv.represents (h : Inv s) : Represents s := by
  have hlinked := h.wellformed.linked
  refine ⟨fun a => ⟨?_, ?_⟩, fun e he => ?_, fun x hx => ?_, fun k hk => h.place hk, hlinked.nodup, h.freed⟩
  · rintro ⟨e, he, rfl⟩
    obtain ⟨t, ht, _⟩ := hlinked.keyed e he
    refine ⟨ActiveTimer.mk e.timer t.seq, (hlinked.active _).mpr ⟨t, ht, rfl, ?_⟩, rfl⟩
    exact hlinked.when_eq he ht ▸ he
  · rintro ⟨x, hx, rfl⟩
    obtain ⟨t, _, _, hin⟩ := (hlinked.active x).mp hx
    exact ⟨_, hin, rfl⟩
  · obtain ⟨t, ht, hwhen⟩ := hlinked.keyed e he
    exact ⟨t, ht, hwhen.symm⟩
  · obtain ⟨t, ht, hseq, _⟩ := (hlinked.active x).mp hx
    exact ⟨t, ht, hseq.symm⟩

/-! ### The steps -/

/-- The timer at `timer` is the allocation `made`. -/
theorem Inv.construct (h : Inv s) (hfree : s.timers.queue.heap a = none) (hbound : a < UINTPTR_MAX) (seq : Nat)
    (when : Timestamp) (interval : Interval) (loaded : List Nat) :
    Inv { s with
      timers := { s.timers with
        queue := s.timers.queue.construct a seq when interval
        waiting := a :: s.timers.waiting }
      loaded
      calls := s.calls ++ [(a, s.made)]
      made := s.made + 1
      owner := Function.update s.owner a s.made } := by
  have hself : ∀ b, b = a → Function.update s.owner a s.made b = s.made := by
    rintro b rfl
    exact Function.update_self _ _ _
  have hother : ∀ b t, s.timers.queue.heap b = some t → b ≠ a ∧ Function.update s.owner a s.made b = s.owner b := by
    intro b t hb
    have hba : b ≠ a := by
      rintro rfl
      cases hfree.symm.trans hb
    exact ⟨hba, Function.update_of_ne hba _ _⟩
  refine ⟨h.wellformed.construct hfree hbound seq when interval, fun b t hb => ?_, fun b c t u hb hc howner => ?_,
    fun k hk => Nat.lt_succ_of_lt (h.made k hk), h.freed, fun k hk hfreed => ?_, fun c hc hfreed => ?_⟩
  · change Function.update s.owner a s.made b < s.made + 1 ∧ Function.update s.owner a s.made b ∉ s.freed
    rcases construct_heap.mp hb with ⟨hba, _⟩ | ⟨_, hb⟩
    · rw [hself b hba]
      exact ⟨Nat.lt_succ_self _, fun hmem => (h.made _ hmem).false⟩
    · rw [(hother b t hb).2]
      exact ⟨Nat.lt_succ_of_lt (h.owner b t hb).1, (h.owner b t hb).2⟩
  · change Function.update s.owner a s.made b = Function.update s.owner a s.made c at howner
    rcases construct_heap.mp hb with ⟨hba, _⟩ | ⟨_, hb⟩ <;> rcases construct_heap.mp hc with ⟨hca, _⟩ | ⟨_, hc⟩
    · exact hba.trans hca.symm
    · rw [hself b hba, (hother c u hc).2] at howner
      exact absurd howner (h.owner c u hc).1.ne'
    · rw [(hother b t hb).2, hself c hca] at howner
      exact absurd howner (h.owner b t hb).1.ne
    · rw [(hother b t hb).2, (hother c u hc).2] at howner
      exact h.distinct b c t u hb hc howner
  · rcases Nat.lt_succ_iff_lt_or_eq.mp hk with hk | rfl
    · obtain ⟨b, t, hb, howner⟩ := h.allocated k hk hfreed
      obtain ⟨hba, hsame⟩ := hother b t hb
      exact ⟨b, t, construct_heap.mpr (Or.inr ⟨hba, hb⟩), hsame.trans howner⟩
    · exact ⟨a, _, construct_heap.mpr (Or.inl ⟨rfl, rfl⟩), hself a rfl⟩
  · rcases List.mem_append.mp hc with hc | hc
    · obtain ⟨howner, t, ht⟩ := h.calls c hc hfreed
      obtain ⟨hba, hsame⟩ := hother c.1 t ht
      exact ⟨hsame.trans howner, t, construct_heap.mpr (Or.inr ⟨hba, ht⟩)⟩
    · cases List.mem_singleton.mp hc
      exact ⟨hself a rfl, _, construct_heap.mpr (Or.inl ⟨rfl, rfl⟩)⟩

theorem not_deleted {ds : List (Addr × Timer)} {owner : Addr → Nat} (ha : owner a ∉ ds.map fun d => owner d.1) :
    a ∉ ds.map Prod.fst := by
  intro hmem
  obtain ⟨d, hd, rfl⟩ := List.mem_map.mp hmem
  exact ha (List.mem_map.mpr ⟨d, hd, rfl⟩)

theorem Inv.deletes (h : Inv s) {timers : TimerSystem.State} (hwell : Wellformed timers) {ds : List (Addr × Timer)}
    (hdel : Deletes s.timers.queue ds timers.queue) :
    Inv { s with timers, freed := s.freed ++ ds.map fun d => s.owner d.1 } := by
  refine ⟨hwell, fun b t hb => ?_, fun b c t u hb hc howner => ?_, fun k hk => ?_, ?_, fun k hk hfreed => ?_,
    fun c hc hfreed => ?_⟩
  · obtain ⟨hnot, u, hu, _⟩ := hdel.before hb
    obtain ⟨hlt, hfreed⟩ := h.owner b u hu
    refine ⟨hlt, fun hmem => ?_⟩
    rcases List.mem_append.mp hmem with hmem | hmem
    · exact hfreed hmem
    · obtain ⟨d, hd, howner⟩ := List.mem_map.mp hmem
      obtain ⟨_, v, hv, _⟩ := hdel.gone d hd
      exact hnot (h.distinct d.1 b v u hv hu howner ▸ List.mem_map_of_mem hd)
  · obtain ⟨_, v, hv, _⟩ := hdel.before hb
    obtain ⟨_, w, hw, _⟩ := hdel.before hc
    exact h.distinct b c v w hv hw howner
  · rcases List.mem_append.mp hk with hk | hk
    · exact h.made k hk
    · obtain ⟨d, hd, rfl⟩ := List.mem_map.mp hk
      obtain ⟨_, v, hv, _⟩ := hdel.gone d hd
      exact (h.owner d.1 v hv).1
  · refine List.nodup_append.mpr ⟨h.freed, ?_, ?_⟩
    · refine List.Nodup.map_on (fun c hc d hd howner => ?_) (hdel.nodup.of_map _)
      obtain ⟨_, v, hv, _⟩ := hdel.gone c hc
      obtain ⟨_, w, hw, _⟩ := hdel.gone d hd
      exact List.inj_on_of_nodup_map hdel.nodup hc hd (h.distinct c.1 d.1 v w hv hw howner)
    · rintro k hk l hl rfl
      obtain ⟨d, hd, rfl⟩ := List.mem_map.mp hl
      obtain ⟨_, v, hv, _⟩ := hdel.gone d hd
      exact (h.owner d.1 v hv).2 hk
  · rw [List.mem_append, not_or] at hfreed
    obtain ⟨b, t, hb, rfl⟩ := h.allocated k hk hfreed.1
    obtain ⟨u, hu, _⟩ := hdel.after hb (not_deleted hfreed.2)
    exact ⟨b, u, hu, rfl⟩
  · rw [List.mem_append, not_or] at hfreed
    obtain ⟨howner, t, ht⟩ := h.calls c hc hfreed.1
    obtain ⟨u, hu, _⟩ := hdel.after ht (not_deleted (howner ▸ hfreed.2))
    exact ⟨howner, u, hu⟩

theorem Inv.loop (h : Inv s) {e : TimerSystem.Event} (hen : Enabled s (.loop e)) :
    ∃ timers ds, TimerSystem.step s.timers e = .ok timers ∧
      step s (.loop e) = .ok { s with timers, freed := s.freed ++ ds.map fun d => s.owner d.1 } ∧
      Wellformed timers ∧ Deletes s.timers.queue ds timers.queue := by
  have hen' : TimerSystem.Enabled s.timers e ∧ ∀ a when interval, e ≠ .addTimer a when interval := by
    cases e with
    | addTimer a when interval => exact hen.elim
    | _ => exact ⟨hen, fun _ _ _ => by simp⟩
  obtain ⟨timers, ds, hstep, hwell, hdel⟩ := h.wellformed.step_ok hen'.1 hen'.2
  refine ⟨timers, ds, hstep, ?_, hwell, hdel⟩
  simp only [step, hstep, ok_bind, hdel.deleted, List.drop_left]
  rfl

theorem step_keeps (s : State) (e : Event) (h : Inv s) (hen : Enabled s e) : ∃ t, step s e = .ok t ∧ Inv t := by
  cases e with
  | load => exact ⟨_, rfl, h.wellformed, h.owner, h.distinct, h.made, h.freed, h.allocated, h.calls⟩
  | construct i a when interval =>
      obtain ⟨hi, ⟨hfree, _⟩, hbound⟩ := hen
      refine ⟨_, ?_, h.construct hfree hbound s.loaded[i] when interval (s.loaded.eraseIdx i)⟩
      simp only [step, List.getElem?_eq_getElem hi]
  | constructOther i a =>
      obtain ⟨hi, _⟩ := hen
      obtain ⟨linked, calling, rest⟩ := h.wellformed
      simp only [step, List.getElem?_eq_getElem hi]
      exact ⟨_, rfl, ⟨linked.congr rfl rfl rfl, calling, rest⟩, h.owner, h.distinct, h.made, h.freed, h.allocated,
        h.calls⟩
  | deleteOther a => exact ⟨_, rfl, h.wellformed, h.owner, h.distinct, h.made, h.freed, h.allocated, h.calls⟩
  | returns i garbage =>
      simp only [step, List.getElem?_eq_getElem hen]
      exact ⟨_, rfl, h.wellformed, h.owner, h.distinct, h.made, h.freed, h.allocated,
        fun c hc => h.calls c (List.mem_of_mem_eraseIdx hc)⟩
  | loop e =>
      obtain ⟨timers, ds, _, hstep, hwell, hdel⟩ := h.loop hen
      exact ⟨_, hstep, h.deletes hwell hdel⟩

/-! ### The numbers -/

/-- The numbers of the timers and of the ids are below the counter, and an id has the number of its timer. -/
structure Fresh (s : State) : Prop where
  loaded : ∀ n ∈ s.loaded, n = s.timers.queue.seqTotal
  alone : s.loaded.length ≤ 1
  numbered : ∀ a t, s.timers.queue.heap a = some t → t.seq < s.timers.queue.seqTotal
  issued : ∀ p ∈ s.issued, p.1.seq < s.timers.queue.seqTotal
  live : ∀ p ∈ s.issued, p.2 ∉ s.freed →
    s.owner p.1.timer = p.2 ∧ ∃ t, s.timers.queue.heap p.1.timer = some t ∧ t.seq = p.1.seq
  stale : ∀ p ∈ s.issued, p.2 ∈ s.freed → ∀ t, s.timers.queue.heap p.1.timer = some t → t.seq ≠ p.1.seq

theorem init_fresh : Fresh init :=
  ⟨nofun, Nat.zero_le _, nofun, nofun, nofun, nofun⟩

/-- The one constructor that runs writes back the number after the one that it read. -/
theorem Fresh.written (h : Fresh s) {i : Nat} (hi : i < s.loaded.length) :
    s.loaded[i] = s.timers.queue.seqTotal ∧ s.loaded.eraseIdx i = [] := by
  refine ⟨h.loaded _ (List.getElem_mem hi), List.length_eq_zero_iff.mp ?_⟩
  have halone := h.alone
  rw [List.length_eraseIdx_of_lt hi]
  omega

theorem Fresh.construct (h : Fresh s) (hfree : s.timers.queue.heap a = none) (when : Timestamp)
    (interval : Interval) :
    Fresh { s with
      timers := { s.timers with
        queue := s.timers.queue.construct a s.timers.queue.seqTotal when interval
        waiting := a :: s.timers.waiting }
      loaded := []
      calls := s.calls ++ [(a, s.made)]
      made := s.made + 1
      owner := Function.update s.owner a s.made } := by
  have hother : ∀ b t, s.timers.queue.heap b = some t → b ≠ a := by
    rintro b t hb rfl
    cases hfree.symm.trans hb
  refine ⟨nofun, Nat.zero_le _, fun b t hb => ?_, fun p hp => Nat.lt_succ_of_lt (h.issued p hp),
    fun p hp hfreed => ?_, fun p hp hfreed t ht => ?_⟩
  · rcases construct_heap.mp hb with ⟨_, rfl⟩ | ⟨_, hb⟩
    · exact Nat.lt_succ_self _
    · exact Nat.lt_succ_of_lt (h.numbered b t hb)
  · obtain ⟨howner, t, ht, hseq⟩ := h.live p hp hfreed
    have hne := hother _ t ht
    exact ⟨(Function.update_of_ne hne _ _).trans howner, t, construct_heap.mpr (Or.inr ⟨hne, ht⟩), hseq⟩
  · rcases construct_heap.mp ht with ⟨_, rfl⟩ | ⟨_, ht⟩
    · exact (h.issued p hp).ne'
    · exact h.stale p hp hfreed t ht

theorem Fresh.returns (h : Fresh s) (hinv : Inv s) {c : Addr × Nat} (hc : c ∈ s.calls) (hfreed : c.2 ∉ s.freed)
    (garbage : Nat) (calls : List (Addr × Nat)) :
    Fresh { s with calls, issued := (⟨c.1, s.sequence c.1 garbage⟩, c.2) :: s.issued } := by
  obtain ⟨howner, t, ht⟩ := hinv.calls c hc hfreed
  have hseq : s.sequence c.1 garbage = t.seq := by rw [State.sequence, ht]
  refine ⟨h.loaded, h.alone, h.numbered, fun p hp => ?_, fun p hp hnot => ?_, fun p hp hin => ?_⟩
  · rcases List.mem_cons.mp hp with rfl | hp
    · exact hseq ▸ h.numbered c.1 t ht
    · exact h.issued p hp
  · rcases List.mem_cons.mp hp with rfl | hp
    · exact ⟨howner, t, ht, hseq.symm⟩
    · exact h.live p hp hnot
  · rcases List.mem_cons.mp hp with rfl | hp
    · exact absurd hin hfreed
    · exact h.stale p hp hin

theorem Fresh.deletes (h : Fresh s) (hinv : Inv s) {timers : TimerSystem.State} {ds : List (Addr × Timer)}
    (hdel : Deletes s.timers.queue ds timers.queue) :
    Fresh { s with timers, freed := s.freed ++ ds.map fun d => s.owner d.1 } := by
  refine ⟨fun n hn => (h.loaded n hn).trans hdel.seqTotal.symm, h.alone, fun b t hb => ?_, fun p hp => ?_,
    fun p hp hfreed => ?_, fun p hp hfreed t ht => ?_⟩
  · obtain ⟨_, u, hu, hseq⟩ := hdel.before hb
    change t.seq < timers.queue.seqTotal
    rw [hdel.seqTotal, ← hseq]
    exact h.numbered b u hu
  · change p.1.seq < timers.queue.seqTotal
    rw [hdel.seqTotal]
    exact h.issued p hp
  · rw [List.mem_append, not_or] at hfreed
    obtain ⟨howner, t, ht, hseq⟩ := h.live p hp hfreed.1
    obtain ⟨u, hu, hut⟩ := hdel.after ht (not_deleted (howner ▸ hfreed.2))
    exact ⟨howner, u, hu, hut.trans hseq⟩
  · obtain ⟨hnot, u, hu, hseq⟩ := hdel.before ht
    by_cases hold : p.2 ∈ s.freed
    · exact hseq ▸ h.stale p hp hold u hu
    · -- it is deleted now, so nothing is left at its address
      obtain ⟨d, hd, hdowner⟩ := List.mem_map.mp ((List.mem_append.mp hfreed).resolve_left hold)
      obtain ⟨_, v, hv, _⟩ := hdel.gone d hd
      obtain ⟨howner, _⟩ := h.live p hp hold
      have heq := hinv.distinct d.1 p.1.timer v u hv hu (hdowner.trans howner.symm)
      exact absurd (heq ▸ List.mem_map_of_mem hd) hnot

theorem fresh_keeps {e : Event} {t : State} (h : Fresh s) (hinv : Inv s) (hen : Enabled s e) (hord : Orderly s e)
    (ht : step s e = .ok t) : Fresh t := by
  cases e with
  | load =>
      have hnone : s.loaded = [] := hord
      cases ht
      refine ⟨fun n hn => ?_, ?_, h.numbered, h.issued, h.live, h.stale⟩
      · simpa [hnone] using hn
      · simp [hnone]
  | construct i a when interval =>
      obtain ⟨hi, ⟨hfree, _⟩, _⟩ := hen
      obtain ⟨hseq, hrest⟩ := h.written hi
      simp only [step, List.getElem?_eq_getElem hi, hseq, hrest] at ht
      cases ht
      exact h.construct hfree when interval
  | constructOther i a =>
      obtain ⟨hi, _⟩ := hen
      obtain ⟨hseq, hrest⟩ := h.written hi
      simp only [step, List.getElem?_eq_getElem hi, hseq, hrest] at ht
      cases ht
      exact ⟨nofun, Nat.zero_le _, fun b t hb => Nat.lt_succ_of_lt (h.numbered b t hb),
        fun p hp => Nat.lt_succ_of_lt (h.issued p hp), h.live, h.stale⟩
  | deleteOther a =>
      cases ht
      exact ⟨h.loaded, h.alone, h.numbered, h.issued, h.live, h.stale⟩
  | returns i garbage =>
      have hi := List.getElem?_eq_getElem hen
      simp only [step, hi] at ht
      cases ht
      exact h.returns hinv (List.getElem_mem hen) (hord _ hi) garbage _
  | loop e =>
      obtain ⟨timers, ds, _, hstep, _, hdel⟩ := hinv.loop hen
      cases hstep.symm.trans ht
      exact h.deletes hinv hdel

/-- The id of a timer that was freed names no timer that lives. -/
theorem Fresh.staleCancel {e : Event} {t : State} (h : Fresh s) (hinv : Inv s) (hen : Enabled s e)
    (ht : step s e = .ok t) : StaleCancel s e t := by
  unfold StaleCancel
  split
  · rename_i id
    intro k hk hissued
    have hnone : ∀ u, s.timers.queue.heap id.timer = some u → u.seq ≠ id.seq := h.stale _ hissued hk
    have hactive : id.activeTimer ∉ s.timers.queue.activeTimers := by
      intro hactive
      obtain ⟨u, hu, hseq, _⟩ := (hinv.wellformed.linked.active _).mp hactive
      exact hnone u hu hseq
    obtain ⟨canceling, hcancel, hmem, _⟩ := hinv.wellformed.cancelInLoop_inactive hactive
    obtain ⟨timers, ds, hcancel', hstep, _⟩ := hinv.loop hen
    cases hcancel.symm.trans hcancel'
    cases hstep.symm.trans ht
    refine ⟨rfl, rfl, rfl, rfl, fun b u hu => ?_⟩
    refine and_congr_right fun _ => not_congr ((hmem _).trans (or_iff_left ?_))
    rintro ⟨heq, _⟩
    have hb : b = id.timer := congrArg ActiveTimer.timer heq
    exact hnone u (hb ▸ hu) (congrArg ActiveTimer.seq heq)
  · trivial

/-- **Who owns a timer, and what a stale id names.** In every run of a timer queue and its loop, with any number of
threads inside `addTimer`, other queues, callbacks that add and cancel any timers, and the clock as it likes: no
assertion fails, and after every step the two sets hold the same timers, keyed by their expirations and numbers,
every timer that was ever allocated waits in a functor, is active, is in the batch or was freed, and only one of
these, and none was freed twice. If no two constructors overlap and every call of `addTimer` reads the number of
its timer before that is deleted, then cancelling with the id of a freed timer removes no timer. -/
theorem represents_of_along (es : List Event) (hes : Along step Enabled init es) :
    Holds step noError (fun _ _ t => Represents t) init es ∧
      (Along step Orderly init es → Holds step noError StaleCancel init es) := by
  constructor
  · refine holds_of_along (fun s e h hen => ?_) init_inv hes
    obtain ⟨t, hstep, hinv⟩ := step_keeps s e h hen
    exact StepHolds.of_ok hstep ⟨hinv.represents, hinv⟩
  · intro hord
    refine holds_of_along (I := fun s => Inv s ∧ Fresh s) (fun s e h hG => ?_) ⟨init_inv, init_fresh⟩
      (along_and.mpr ⟨hes, hord⟩)
    obtain ⟨hinv, hfresh⟩ := h
    obtain ⟨t, hstep, hkept⟩ := step_keeps s e hinv hG.1
    exact StepHolds.of_ok hstep
      ⟨hfresh.staleCancel hinv hG.1 hstep, hkept, fresh_keeps hfresh hinv hG.1 hG.2 hstep⟩

/-- The first callback of a batch cancels both of its timers; afterwards a new timer gets the address of the first,
whose id is then cancelled again, also while the new one runs. -/
def staleRun : List Event :=
  [.load, .construct 0 1 10 ⟨true, 5⟩, .returns 0 0, .loop (.addTimerInLoop 1 1), .load, .constructOther 0 2, .load,
    .construct 0 3 10 ⟨true, 5⟩, .loop (.addTimerInLoop 3 2), .returns 0 0, .loop (.handelRead 10), .loop .callback,
    .loop (.cancelInLoop ⟨1, 0⟩), .loop (.cancelInLoop ⟨3, 2⟩), .load, .construct 0 4 3 ⟨false, 0⟩,
    .loop (.addTimerInLoop 4 10), .returns 0 0, .loop .callback, .loop (.reset 11), .deleteOther 2, .load,
    .construct 0 1 30 ⟨true, 5⟩, .loop (.addTimerInLoop 1 12), .loop (.cancelInLoop ⟨1, 0⟩), .loop (.handelRead 40),
    .loop .callback, .loop .callback, .loop (.cancelInLoop ⟨1, 0⟩), .loop (.reset 41), .returns 0 0]

theorem represents_of_along_run : Holds step noError (fun _ _ t => Represents t) init staleRun ∧
    Holds step noError StaleCancel init staleRun :=
  ⟨(represents_of_along staleRun (by decide +kernel)).1,
    (represents_of_along staleRun (by decide +kernel)).2 (by decide +kernel)⟩

/-- What `StaleCancel` says of `timers_`, to be evaluated. -/
def LeavesTimers (s : State) : Event → State → Prop
  | .loop (.cancelInLoop id), s' => (∃ k ∈ s.freed, (id, k) ∈ s.issued) →
      s'.timers.queue.timers.toList = s.timers.queue.timers.toList
  | _, _ => True

instance (s : State) : (e : Event) → (s' : State) → Decidable (LeavesTimers s e s')
  | .loop (.cancelInLoop _), _ => inferInstanceAs (Decidable (_ → _))
  | .loop (.addTimer _ _ _), _ | .loop (.addTimerInLoop _ _), _ | .loop (.handelRead _), _ | .loop .callback, _
  | .loop (.reset _), _ | .load, _ | .construct _ _ _ _, _ | .constructOther _ _, _ | .deleteOther _, _
  | .returns _ _, _ => .isTrue trivial

theorem StaleCancel.leavesTimers {e : Event} {t : State} (h : StaleCancel s e t) : LeavesTimers s e t := by
  unfold LeavesTimers
  split
  · rintro ⟨k, hk, hissued⟩
    rw [(h k hk hissued).1]
  · trivial

/-- A thread adds a timer, which runs and is deleted before the thread reads its number; meanwhile the loop's thread
has added one that got its address. The thread gets the id of that one, and cancels it. -/
def lateRead : List Event :=
  [.load, .construct 0 1 10 ⟨false, 0⟩, .loop (.addTimerInLoop 1 1), .loop (.handelRead 10), .loop .callback,
    .loop (.reset 10), .load, .construct 0 1 20 ⟨false, 0⟩, .loop (.addTimerInLoop 1 11), .returns 1 0, .returns 0 0,
    .loop (.cancelInLoop ⟨1, 1⟩)]

theorem cancelled_by_late_id :
    Along step Enabled init lateRead ∧
      ¬ Holds step noError (fun s e t => Represents t ∧ StaleCancel s e t) init lateRead := by
  refine ⟨by decide +kernel, fun h => ?_⟩
  have hleaves := h.mono fun _ _ _ hQ => hQ.2.leavesTimers
  exact absurd hleaves (by decide +kernel)

-- two constructors read the same number, and a timer with it gets the address of the other one
example : ¬ Holds step noError LeavesTimers init [.load, .load, .construct 0 1 10 ⟨false, 0⟩, .returns 0 0,
    .loop (.addTimerInLoop 1 1), .loop (.handelRead 10), .loop .callback, .loop (.reset 10),
    .construct 0 1 20 ⟨false, 0⟩, .loop (.addTimerInLoop 1 11), .loop (.cancelInLoop ⟨1, 0⟩)] := by
  decide +kernel

end TimerThreads

end OulaServer
