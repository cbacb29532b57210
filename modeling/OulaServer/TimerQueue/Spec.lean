import OulaServer.TimerQueue.Basic

/-!
# What the functions of a timer queue do

`Owned q held` is the representation invariant of a queue while the timers at the addresses `held` belong to
someone else: to an `addTimerInLoop` functor that has not run, or to a batch that runs. It has two halves.
`Linked` ties the sets to the allocated timers, whatever numbers these have; `Numbered` is about the numbers,
also those of the timers that were deleted.

Every function of the queue keeps `Linked`, moves timers between the held ones and the sets, and fails no
assertion: `construct`, `insert`, `delete`, `cancelInLoop`, `getExpired` and `reset` each have one statement. It
says with `Deletes` which timers the function deletes, and `Numbered` follows from that
(`Numbered.of_deletes`).
-/

namespace OulaServer

/-! ### Pairs -/

namespace Entry

@[simp] theorem mk_when (t : Timestamp) (a : Addr) : (mk t a).when = t := rfl

@[simp] theorem mk_timer (t : Timestamp) (a : Addr) : (mk t a).timer = a := rfl

@[simp] theorem mk_eta (e : Entry) : mk e.when e.timer = e := rfl

theorem lt_iff {e f : Entry} : e < f ↔ e.when < f.when ∨ e.when = f.when ∧ e.timer < f.timer := Prod.Lex.lt_iff

end Entry

namespace ActiveTimer

@[simp] theorem mk_timer (a : Addr) (n : Nat) : (mk a n).timer = a := rfl

@[simp] theorem mk_seq (a : Addr) (n : Nat) : (mk a n).seq = n := rfl

@[simp] theorem mk_eta (x : ActiveTimer) : mk x.timer x.seq = x := rfl

end ActiveTimer

namespace TimerQueue

/-- The numbers of the timers that were deleted. -/
def freed (q : TimerQueue) : List Nat := q.deleted.map fun d => d.2.seq

/-- The sets are keyed by what the timers hold, and every allocated timer is held or in both sets. -/
structure Linked (q : TimerQueue) (held : List Addr) : Prop where
  keyed : ∀ e ∈ q.timers, ∃ t, q.heap e.timer = some t ∧ t.expiration = e.when
  active : ∀ x, x ∈ q.activeTimers ↔
    ∃ t, q.heap x.timer = some t ∧ t.seq = x.seq ∧ Entry.mk t.expiration x.timer ∈ q.timers
  outside : ∀ a ∈ held, ∃ t, q.heap a = some t ∧ Entry.mk t.expiration a ∉ q.timers
  nodup : held.Nodup
  covered : ∀ a t, q.heap a = some t → a ∈ held ∨ Entry.mk t.expiration a ∈ q.timers
  bounded : ∀ a t, q.heap a = some t → a < UINTPTR_MAX

/-- No two timers have one number, and every number that was given out is that of a timer that is allocated or
was deleted. -/
structure Numbered (q : TimerQueue) : Prop where
  numbered : ∀ a t, q.heap a = some t → t.seq < q.seqTotal
  distinct : ∀ a b t u, q.heap a = some t → q.heap b = some u → t.seq = u.seq → a = b
  freed_nodup : q.freed.Nodup
  mem_freed : ∀ n, n ∈ q.freed ↔ n < q.seqTotal ∧ ∀ a t, q.heap a = some t → t.seq ≠ n

structure Owned (q : TimerQueue) (held : List Addr) : Prop extends Linked q held, Numbered q

variable {q : TimerQueue} {held : List Addr} {a : Addr}

theorem new_linked : Linked new [] :=
  ⟨nofun, fun _ => iff_of_false nofun nofun, nofun, List.nodup_nil, nofun, nofun⟩

theorem new_owned : Owned new [] :=
  ⟨new_linked, nofun, nofun, List.nodup_nil, fun _ => iff_of_false nofun nofun⟩

theorem Linked.perm (h : Linked q held) {held' : List Addr} (hperm : held.Perm held') : Linked q held' :=
  { h with
    outside := fun a ha => h.outside a (hperm.mem_iff.mpr ha)
    nodup := hperm.nodup_iff.mp h.nodup
    covered := fun a t ht => (h.covered a t ht).imp_left hperm.mem_iff.mp }

theorem Linked.when_eq (h : Linked q held) {e : Entry} (he : e ∈ q.timers) {t : Timer} (ht : q.heap e.timer = some t) :
    e = Entry.mk t.expiration e.timer := by
  obtain ⟨u, hu, hwhen⟩ := h.keyed e he
  rw [ht] at hu
  cases hu
  rw [hwhen, Entry.mk_eta]

theorem Linked.not_timers (h : Linked q (a :: held)) : ∀ e ∈ q.timers, e.timer ≠ a := by
  rintro e he rfl
  obtain ⟨t, ht, hnot⟩ := h.outside e.timer List.mem_cons_self
  exact hnot (h.when_eq he ht ▸ he)

theorem Linked.timers_nodup (h : Linked q held) : (q.timers.toList.map Entry.timer).Nodup := by
  refine List.Nodup.map_on (fun e he f hf hef => ?_) q.timers.nodup
  obtain ⟨t, ht, _⟩ := h.keyed e he
  rw [h.when_eq he ht, hef]
  exact (h.when_eq hf (hef ▸ ht)).symm

theorem Linked.sameSize (h : Linked q held) : q.SameSize := by
  refine OrderedSet.size_eq Entry.timer ActiveTimer.timer h.timers_nodup ?_ fun a => ⟨?_, ?_⟩
  · refine List.Nodup.map_on (fun x hx y hy hxy => ?_) q.activeTimers.nodup
    obtain ⟨t, ht, hseq, _⟩ := (h.active x).mp hx
    obtain ⟨u, hu, hseq', _⟩ := (h.active y).mp hy
    rw [← hxy, ht] at hu
    cases hu
    rw [← ActiveTimer.mk_eta x, ← ActiveTimer.mk_eta y, hxy, ← hseq, ← hseq']
  · rintro ⟨e, he, rfl⟩
    obtain ⟨t, ht, hwhen⟩ := h.keyed e he
    refine ⟨ActiveTimer.mk e.timer t.seq, (h.active _).mpr ⟨t, ht, rfl, ?_⟩, rfl⟩
    rw [hwhen]
    exact he
  · rintro ⟨x, hx, rfl⟩
    obtain ⟨t, _, _, ht⟩ := (h.active x).mp hx
    exact ⟨_, ht, rfl⟩

theorem deref_some {t : Timer} (ht : q.heap a = some t) : q.deref a = .ok t := by
  rw [deref, ht]

/-! ### Allocation -/

theorem construct_heap {seq : Nat} {when : Timestamp} {interval : Interval} {b : Addr} {t : Timer} :
    (q.construct a seq when interval).heap b = some t ↔
      b = a ∧ t = ⟨when, interval, seq⟩ ∨ b ≠ a ∧ q.heap b = some t := by
  change Function.update q.heap a (some ⟨when, interval, seq⟩) b = some t ↔ _
  rw [Function.update_apply]
  split_ifs with hba
  · simp [hba, eq_comm]
  · simp [hba]

theorem Linked.construct (h : Linked q held) (hfree : q.heap a = none) (hbound : a < UINTPTR_MAX) (seq : Nat)
    (when : Timestamp) (interval : Interval) : Linked (q.construct a seq when interval) (a :: held) := by
  have hne : ∀ b t, q.heap b = some t → b ≠ a := by
    rintro b t hb rfl
    rw [hfree] at hb
    cases hb
  have hold : ∀ b t, q.heap b = some t → (q.construct a seq when interval).heap b = some t := fun b t hb =>
    construct_heap.mpr (Or.inr ⟨hne b t hb, hb⟩)
  have hnot : ∀ e ∈ q.timers, e.timer ≠ a := fun e he => by
    obtain ⟨t, ht, _⟩ := h.keyed e he
    exact hne _ t ht
  refine ⟨fun e he => ?_, fun x => ?_, fun b hb => ?_, ?_, fun b t hb => ?_, fun b t hb => ?_⟩
  · obtain ⟨t, ht, hwhen⟩ := h.keyed e he
    exact ⟨t, hold _ t ht, hwhen⟩
  · refine (h.active x).trans ⟨fun ⟨t, ht, hseq, hmem⟩ => ⟨t, hold _ t ht, hseq, hmem⟩, fun ⟨t, ht, hseq, hmem⟩ => ?_⟩
    rcases construct_heap.mp ht with ⟨hx, _⟩ | ⟨_, ht⟩
    · exact absurd hx (hnot _ hmem)
    · exact ⟨t, ht, hseq, hmem⟩
  · rcases List.mem_cons.mp hb with rfl | hb
    · exact ⟨_, construct_heap.mpr (Or.inl ⟨rfl, rfl⟩), fun hmem => hnot _ hmem rfl⟩
    · obtain ⟨t, ht, hmem⟩ := h.outside b hb
      exact ⟨t, hold _ t ht, hmem⟩
  · refine List.nodup_cons.mpr ⟨fun hmem => ?_, h.nodup⟩
    obtain ⟨t, ht, _⟩ := h.outside a hmem
    exact hne a t ht rfl
  · rcases construct_heap.mp hb with ⟨rfl, _⟩ | ⟨_, hb⟩
    · exact Or.inl List.mem_cons_self
    · exact (h.covered b t hb).imp_left (List.mem_cons_of_mem _)
  · rcases construct_heap.mp hb with ⟨rfl, _⟩ | ⟨_, hb⟩
    · exact hbound
    · exact h.bounded b t hb

theorem Numbered.newTimer (h : Numbered q) (hfree : q.heap a = none) (when : Timestamp) (interval : Interval) :
    Numbered (q.newTimer a when interval) := by
  refine ⟨fun b t hb => ?_, fun b c t u hb hc hseq => ?_, h.freed_nodup, fun n => ?_⟩
  · rcases construct_heap.mp hb with ⟨_, rfl⟩ | ⟨_, hb⟩
    · exact Nat.lt_succ_self _
    · exact Nat.lt_succ_of_lt (h.numbered b t hb)
  · rcases construct_heap.mp hb with ⟨hba, rfl⟩ | ⟨_, hb'⟩ <;> rcases construct_heap.mp hc with ⟨hca, rfl⟩ | ⟨_, hc'⟩
    · exact hba.trans hca.symm
    · exact absurd hseq (h.numbered c u hc').ne'
    · exact absurd hseq (h.numbered b t hb').ne
    · exact h.distinct b c t u hb' hc' hseq
  · refine (h.mem_freed n).trans ⟨fun ⟨hlt, hn⟩ => ⟨Nat.lt_succ_of_lt hlt, fun b t hb => ?_⟩, fun ⟨hlt, hn⟩ => ?_⟩
    · rcases construct_heap.mp hb with ⟨_, rfl⟩ | ⟨_, hb⟩
      · exact hlt.ne'
      · exact hn b t hb
    · have hne : q.seqTotal ≠ n := hn a _ (construct_heap.mpr (Or.inl ⟨rfl, rfl⟩))
      have hlt' : n < q.seqTotal + 1 := hlt
      refine ⟨by omega, fun b t hb => hn b t (construct_heap.mpr (Or.inr ⟨?_, hb⟩))⟩
      rintro rfl
      cases hfree.symm.trans hb

theorem Owned.newTimer (h : Owned q held) (hfree : q.heap a = none) (hbound : a < UINTPTR_MAX) (when : Timestamp)
    (interval : Interval) : Owned (q.newTimer a when interval) (a :: held) :=
  ⟨h.toLinked.construct hfree hbound q.seqTotal when interval, h.toNumbered.newTimer hfree when interval⟩

/-! ### Which timers a function deletes -/

/-- The timers of `ds` are deleted, once each, and every other timer keeps its number. -/
structure Deletes (q : TimerQueue) (ds : List (Addr × Timer)) (q' : TimerQueue) : Prop where
  deleted : q'.deleted = q.deleted ++ ds
  nodup : (ds.map Prod.fst).Nodup
  seqTotal : q'.seqTotal = q.seqTotal
  gone : ∀ d ∈ ds, q'.heap d.1 = none ∧ ∃ t, q.heap d.1 = some t ∧ t.seq = d.2.seq
  kept : ∀ a ∉ ds.map Prod.fst, (q'.heap a).map Timer.seq = (q.heap a).map Timer.seq

namespace Deletes

variable {q' q'' : TimerQueue} {ds ds' : List (Addr × Timer)}

theorem of_heap (hheap : q'.heap = q.heap) (hdeleted : q'.deleted = q.deleted) (htotal : q'.seqTotal = q.seqTotal) :
    Deletes q [] q' :=
  ⟨by rw [hdeleted, List.append_nil], List.nodup_nil, htotal, nofun, fun a _ => by rw [hheap]⟩

theorem trans (h : Deletes q ds q') (h' : Deletes q' ds' q'') : Deletes q (ds ++ ds') q'' := by
  -- what the second deletes was still allocated after the first
  have hdisjoint : ∀ d ∈ ds', d.1 ∉ ds.map Prod.fst := by
    intro d hd hmem
    obtain ⟨c, hc, heq⟩ := List.mem_map.mp hmem
    obtain ⟨_, t, ht, _⟩ := h'.gone d hd
    have hgone := (h.gone c hc).1
    rw [heq, ht] at hgone
    cases hgone
  refine ⟨by rw [h'.deleted, h.deleted, List.append_assoc], ?_, h'.seqTotal.trans h.seqTotal, fun d hd => ?_,
    fun a ha => ?_⟩
  · rw [List.map_append]
    refine List.nodup_append.mpr ⟨h.nodup, h'.nodup, ?_⟩
    rintro a ha b hb rfl
    obtain ⟨d, hd, rfl⟩ := List.mem_map.mp hb
    exact hdisjoint d hd ha
  · rcases List.mem_append.mp hd with hd | hd
    · obtain ⟨hgone, hold⟩ := h.gone d hd
      have hkept := h'.kept d.1 fun hmem => by
        obtain ⟨c, hc, heq⟩ := List.mem_map.mp hmem
        exact hdisjoint c hc (heq ▸ List.mem_map_of_mem hd)
      rw [hgone] at hkept
      exact ⟨Option.map_eq_none_iff.mp hkept, hold⟩
    · obtain ⟨hgone, t, ht, hseq⟩ := h'.gone d hd
      have hkept := h.kept d.1 (hdisjoint d hd)
      rw [ht] at hkept
      obtain ⟨u, hu, hut⟩ := Option.map_eq_some_iff.mp hkept.symm
      exact ⟨hgone, u, hu, hut.trans hseq⟩
  · rw [List.map_append, List.mem_append, not_or] at ha
    exact (h'.kept a ha.2).trans (h.kept a ha.1)

theorem before (h : Deletes q ds q') {t : Timer} (ht : q'.heap a = some t) :
    a ∉ ds.map Prod.fst ∧ ∃ u, q.heap a = some u ∧ u.seq = t.seq := by
  have hnot : a ∉ ds.map Prod.fst := by
    intro hmem
    obtain ⟨d, hd, rfl⟩ := List.mem_map.mp hmem
    cases (h.gone d hd).1.symm.trans ht
  have hkept := h.kept a hnot
  rw [ht] at hkept
  exact ⟨hnot, Option.map_eq_some_iff.mp hkept.symm⟩

theorem after (h : Deletes q ds q') {t : Timer} (ht : q.heap a = some t) (ha : a ∉ ds.map Prod.fst) :
    ∃ u, q'.heap a = some u ∧ u.seq = t.seq := by
  have hkept := h.kept a ha
  rw [ht] at hkept
  exact Option.map_eq_some_iff.mp hkept

end Deletes

theorem Numbered.of_deletes (h : Numbered q) {q' : TimerQueue} {ds : List (Addr × Timer)} (hdel : Deletes q ds q') :
    Numbered q' := by
  have hfreed : q'.freed = q.freed ++ ds.map fun d => d.2.seq := by
    rw [freed, hdel.deleted, List.map_append]
    rfl
  refine ⟨fun a t ht => ?_, fun a b t u ht hu hseq => ?_, ?_, fun n => ?_⟩
  · obtain ⟨_, v, hv, hvt⟩ := hdel.before ht
    rw [hdel.seqTotal, ← hvt]
    exact h.numbered a v hv
  · obtain ⟨_, v, hv, hvt⟩ := hdel.before ht
    obtain ⟨_, w, hw, hwu⟩ := hdel.before hu
    exact h.distinct a b v w hv hw (hvt.trans (hseq.trans hwu.symm))
  · rw [hfreed]
    refine List.nodup_append.mpr ⟨h.freed_nodup, ?_, ?_⟩
    · refine List.Nodup.map_on (fun c hc d hd hseq => ?_) (hdel.nodup.of_map _)
      obtain ⟨_, t, ht, htc⟩ := hdel.gone c hc
      obtain ⟨_, u, hu, hud⟩ := hdel.gone d hd
      exact List.inj_on_of_nodup_map hdel.nodup hc hd
        (h.distinct c.1 d.1 t u ht hu (htc.trans (hseq.trans hud.symm)))
    · rintro n hn m hm rfl
      obtain ⟨d, hd, rfl⟩ := List.mem_map.mp hm
      obtain ⟨_, t, ht, htd⟩ := hdel.gone d hd
      exact ((h.mem_freed _).mp hn).2 d.1 t ht htd
  · rw [hfreed, List.mem_append, h.mem_freed, hdel.seqTotal]
    constructor
    · rintro (⟨hlt, hn⟩ | hmem)
      · refine ⟨hlt, fun a t ht => ?_⟩
        obtain ⟨_, u, hu, hut⟩ := hdel.before ht
        exact hut ▸ hn a u hu
      · obtain ⟨d, hd, rfl⟩ := List.mem_map.mp hmem
        obtain ⟨hgone, t, ht, htd⟩ := hdel.gone d hd
        refine ⟨htd ▸ h.numbered d.1 t ht, fun b u hb hseq => ?_⟩
        obtain ⟨_, v, hv, hvu⟩ := hdel.before hb
        cases h.distinct b d.1 v t hv ht (hvu.trans (hseq.trans htd.symm))
        cases hgone.symm.trans hb
    · rintro ⟨hlt, hn⟩
      by_cases hmem : n ∈ ds.map fun d => d.2.seq
      · exact Or.inr hmem
      · refine Or.inl ⟨hlt, fun a t ht hseq => ?_⟩
        by_cases ha : a ∈ ds.map Prod.fst
        · obtain ⟨d, hd, rfl⟩ := List.mem_map.mp ha
          obtain ⟨_, u, hu, hud⟩ := hdel.gone d hd
          cases ht.symm.trans hu
          exact hmem (List.mem_map.mpr ⟨d, hd, hud.symm.trans hseq⟩)
        · obtain ⟨u, hu, hut⟩ := hdel.after ht ha
          exact hn a u hu (hut.trans hseq)

/-! ### Held timers -/

theorem Linked.setTimer (h : Linked q (a :: held)) {t : Timer} (ht : q.heap a = some t) (t' : Timer) :
    Linked { q with heap := Function.update q.heap a (some t') } (a :: held) := by
  have hnot := h.not_timers
  have hcases : ∀ b u, Function.update q.heap a (some t') b = some u →
      b = a ∧ u = t' ∨ b ≠ a ∧ q.heap b = some u := by
    intro b u hb
    rw [Function.update_apply] at hb
    split_ifs at hb with hba
    · exact Or.inl ⟨hba, (Option.some.inj hb).symm⟩
    · exact Or.inr ⟨hba, hb⟩
  have hself : Function.update q.heap a (some t') a = some t' := Function.update_self _ _ _
  have hold : ∀ b u, b ≠ a → q.heap b = some u → Function.update q.heap a (some t') b = some u := fun b u hba hb => by
    rw [Function.update_of_ne hba, hb]
  refine ⟨fun e he => ?_, fun x => ?_, fun b hb => ?_, h.nodup, fun b u hb => ?_, fun b u hb => ?_⟩
  · obtain ⟨u, hu, hwhen⟩ := h.keyed e he
    exact ⟨u, hold _ u (hnot e he) hu, hwhen⟩
  · refine (h.active x).trans ⟨fun ⟨u, hu, hx, hmem⟩ => ⟨u, hold _ u (hnot _ hmem) hu, hx, hmem⟩,
      fun ⟨u, hu, hx, hmem⟩ => ?_⟩
    rcases hcases _ u hu with ⟨hxa, _⟩ | ⟨_, hu⟩
    · exact absurd hxa (hnot _ hmem)
    · exact ⟨u, hu, hx, hmem⟩
  · by_cases hba : b = a
    · subst hba
      exact ⟨t', hself, fun hmem => hnot _ hmem rfl⟩
    · obtain ⟨u, hu, hmem⟩ := h.outside b hb
      exact ⟨u, hold b u hba hu, hmem⟩
  · rcases hcases b u hb with ⟨rfl, _⟩ | ⟨_, hb⟩
    · exact Or.inl List.mem_cons_self
    · exact h.covered b u hb
  · rcases hcases b u hb with ⟨rfl, _⟩ | ⟨_, hb⟩
    · exact h.bounded b t ht
    · exact h.bounded b u hb

theorem Deletes.setTimer {t t' : Timer} (ht : q.heap a = some t) (hseq : t'.seq = t.seq) :
    Deletes q [] { q with heap := Function.update q.heap a (some t') } := by
  refine ⟨(List.append_nil _).symm, List.nodup_nil, rfl, nofun, fun b _ => ?_⟩
  change (Function.update q.heap a (some t') b).map Timer.seq = _
  rw [Function.update_apply]
  split_ifs with hba
  · rw [hba, ht, Option.map_some, Option.map_some, hseq]
  · rfl

/-- The queue after `insert` of the timer `t` at `a`. -/
def inserted (q : TimerQueue) (a : Addr) (t : Timer) : TimerQueue :=
  { q with
    timers := (q.timers.insert (.mk t.expiration a)).1
    activeTimers := (q.activeTimers.insert (.mk a t.seq)).1 }

theorem Linked.inserted (h : Linked q (a :: held)) {t : Timer} (ht : q.heap a = some t) :
    Linked (q.inserted a t) held := by
  obtain ⟨hnotin, hnodup⟩ := List.nodup_cons.mp h.nodup
  have hmem : ∀ e, e ∈ (q.inserted a t).timers ↔ e = Entry.mk t.expiration a ∨ e ∈ q.timers := fun e =>
    OrderedSet.mem_insert
  refine ⟨fun e he => ?_, fun x => ?_, fun b hb => ?_, hnodup, fun b u hb => ?_, h.bounded⟩
  · rcases (hmem e).mp he with rfl | he
    · exact ⟨t, ht, rfl⟩
    · exact h.keyed e he
  · refine (OrderedSet.mem_insert (s := q.activeTimers) (x := .mk a t.seq)).trans ?_
    rw [h.active x]
    refine ⟨?_, ?_⟩
    · rintro (rfl | ⟨u, hu, hseq, hin⟩)
      · exact ⟨t, ht, rfl, (hmem _).mpr (Or.inl rfl)⟩
      · exact ⟨u, hu, hseq, (hmem _).mpr (Or.inr hin)⟩
    · rintro ⟨u, hu, hseq, hin⟩
      rcases (hmem _).mp hin with heq | hin
      · have hx : x.timer = a := congrArg Entry.timer heq
        rw [hx] at hu
        cases ht.symm.trans hu
        exact Or.inl (by rw [← ActiveTimer.mk_eta x, hx, hseq])
      · exact Or.inr ⟨u, hu, hseq, hin⟩
  · obtain ⟨u, hu, hout⟩ := h.outside b (List.mem_cons_of_mem _ hb)
    refine ⟨u, hu, fun hin => ?_⟩
    rcases (hmem _).mp hin with heq | hin
    · have hba : b = a := congrArg Entry.timer heq
      exact hnotin (hba ▸ hb)
    · exact hout hin
  · rcases h.covered b u hb with hb' | hin
    · rcases List.mem_cons.mp hb' with rfl | hb'
      · cases ht.symm.trans hb
        exact Or.inr ((hmem _).mpr (Or.inl rfl))
      · exact Or.inl hb'
    · exact Or.inr ((hmem _).mpr (Or.inr hin))

/-- `earliestChanged` of `insert`. -/
def earliestChanged (q : TimerQueue) (t : Timer) : Bool :=
  match q.timers.first with
  | none => true
  | some e => decide (t.expiration < e.when)

theorem insert_ok (h : Linked q (a :: held)) {t : Timer} (ht : q.heap a = some t) :
    q.insert true a = .ok (q.inserted a t, q.earliestChanged t) := by
  have hout : Entry.mk t.expiration a ∉ q.timers := fun hmem => h.not_timers _ hmem rfl
  have hnew : ActiveTimer.mk a t.seq ∉ q.activeTimers := by
    intro hmem
    obtain ⟨u, hu, _, hin⟩ := (h.active _).mp hmem
    exact h.not_timers _ hin rfl
  have hsize := (h.inserted ht).sameSize
  unfold TimerQueue.inserted at hsize
  simp only [insert, check_pos, ok_bind, check_pos h.sameSize, deref_some ht, OrderedSet.insert_snd hout,
    OrderedSet.insert_snd hnew, check_pos hsize]
  rfl

/-- The timerfd after `addTimerInLoop` of the timer `t`. -/
def addedTimeFd (q : TimerQueue) (t : Timer) (clock : Timestamp) : TimeFd :=
  if q.earliestChanged t then q.timefd.reset t.expiration clock else q.timefd

theorem addTimerInLoop_ok (h : Linked q (a :: held)) {t : Timer} (ht : q.heap a = some t) (clock : Timestamp) :
    q.addTimerInLoop true a clock = .ok { q.inserted a t with timefd := q.addedTimeFd t clock } := by
  have hinsert := insert_ok h ht
  have ht' : (q.inserted a t).heap a = some t := ht
  cases hearliest : q.earliestChanged t with
  | false =>
      simp only [addTimerInLoop, check_pos, ok_bind, hinsert, hearliest, addedTimeFd]
      rfl
  | true =>
      simp only [addTimerInLoop, check_pos, ok_bind, hinsert, hearliest, deref_some ht', if_true, addedTimeFd]
      rfl

/-- The timerfd is no part of it, nor is what a batch does with the cancelled timers. -/
theorem Linked.congr (h : Linked q held) {q' : TimerQueue} (htimers : q'.timers = q.timers)
    (hactive : q'.activeTimers = q.activeTimers) (hheap : q'.heap = q.heap) : Linked q' held := by
  obtain ⟨keyed, active, outside, nodup, covered, bounded⟩ := h
  refine ⟨?_, ?_, ?_, nodup, ?_, ?_⟩
  · rwa [htimers, hheap]
  · rwa [htimers, hactive, hheap]
  · rwa [htimers, hheap]
  · rwa [htimers, hheap]
  · rwa [hheap]

theorem Owned.congr (h : Owned q held) {q' : TimerQueue} (htimers : q'.timers = q.timers)
    (hactive : q'.activeTimers = q.activeTimers) (hheap : q'.heap = q.heap) (htotal : q'.seqTotal = q.seqTotal)
    (hdeleted : q'.deleted = q.deleted) : Owned q' held :=
  ⟨h.toLinked.congr htimers hactive hheap, h.toNumbered.of_deletes (.of_heap hheap hdeleted htotal)⟩

/-! ### Deleting and cancelling -/

/-- The queue after the timer `t` at `a` was deleted. -/
def without (q : TimerQueue) (a : Addr) (t : Timer) : TimerQueue :=
  { q with heap := Function.update q.heap a none, deleted := q.deleted ++ [(a, t)] }

theorem delete_ok {t : Timer} (ht : q.heap a = some t) : q.delete a = .ok (q.without a t) := by
  simp only [delete, deref_some ht, ok_bind]
  rfl

theorem without_heap {t u : Timer} {b : Addr} :
    (q.without a t).heap b = some u ↔ b ≠ a ∧ q.heap b = some u := by
  change Function.update q.heap a none b = some u ↔ _
  rw [Function.update_apply]
  split_ifs with h
  · exact iff_of_false nofun fun hb => hb.1 h
  · exact (and_iff_right h).symm

theorem Linked.without (h : Linked q (a :: held)) (t : Timer) : Linked (q.without a t) held := by
  obtain ⟨hnotin, hnodup⟩ := List.nodup_cons.mp h.nodup
  have hnot := h.not_timers
  refine ⟨fun e he => ?_, fun x => ?_, fun b hb => ?_, hnodup, fun b u hb => ?_, fun b u hb => ?_⟩
  · obtain ⟨u, hu, hwhen⟩ := h.keyed e he
    exact ⟨u, without_heap.mpr ⟨hnot e he, hu⟩, hwhen⟩
  · refine (h.active x).trans ⟨fun ⟨u, hu, hseq, hin⟩ => ⟨u, without_heap.mpr ⟨hnot _ hin, hu⟩, hseq, hin⟩,
      fun ⟨u, hu, hseq, hin⟩ => ⟨u, (without_heap.mp hu).2, hseq, hin⟩⟩
  · obtain ⟨u, hu, hout⟩ := h.outside b (List.mem_cons_of_mem _ hb)
    refine ⟨u, without_heap.mpr ⟨?_, hu⟩, hout⟩
    rintro rfl
    exact hnotin hb
  · obtain ⟨hba, hb⟩ := without_heap.mp hb
    refine (h.covered b u hb).imp_left fun hmem => ?_
    exact (List.mem_cons.mp hmem).resolve_left hba
  · exact h.bounded b u (without_heap.mp hb).2

theorem Deletes.without {t : Timer} (ht : q.heap a = some t) : Deletes q [(a, t)] (q.without a t) := by
  refine ⟨rfl, List.nodup_singleton a, rfl, fun d hd => ?_, fun b hb => ?_⟩
  · cases List.mem_singleton.mp hd
    exact ⟨Function.update_self _ _ _, t, ht, rfl⟩
  · have hba : b ≠ a := fun hba => hb (List.mem_singleton.mpr hba)
    exact congrArg (Option.map Timer.seq) (Function.update_of_ne hba _ _)

/-- The queue after the timer `t` at `a` left both sets. -/
def taken (q : TimerQueue) (a : Addr) (t : Timer) : TimerQueue :=
  { q with
    timers := (q.timers.erase (.mk t.expiration a)).1
    activeTimers := (q.activeTimers.erase (.mk a t.seq)).1 }

theorem Linked.taken (h : Linked q held) {t : Timer} (ht : q.heap a = some t)
    (hin : Entry.mk t.expiration a ∈ q.timers) : Linked (q.taken a t) (a :: held) := by
  have hmem : ∀ e, e ∈ (q.taken a t).timers ↔ e ≠ Entry.mk t.expiration a ∧ e ∈ q.timers := fun e =>
    OrderedSet.mem_erase
  -- another timer's entry is another entry
  have hother : ∀ b u, q.heap b = some u → (Entry.mk u.expiration b ∈ (q.taken a t).timers ↔
      b ≠ a ∧ Entry.mk u.expiration b ∈ q.timers) := by
    intro b u hb
    refine (hmem _).trans (and_congr_left fun _ => not_congr ⟨fun heq => congrArg Entry.timer heq, ?_⟩)
    rintro rfl
    cases ht.symm.trans hb
    rfl
  refine ⟨fun e he => h.keyed e ((hmem e).mp he).2, fun x => ?_, fun b hb => ?_, ?_, fun b u hb => ?_, h.bounded⟩
  · refine (OrderedSet.mem_erase (s := q.activeTimers)).trans ?_
    rw [h.active x]
    constructor
    · rintro ⟨hne, u, hu, hseq, hin'⟩
      refine ⟨u, hu, hseq, (hother _ u hu).mpr ⟨fun hx => hne ?_, hin'⟩⟩
      rw [hx] at hu
      cases ht.symm.trans hu
      rw [← ActiveTimer.mk_eta x, hx, hseq]
    · rintro ⟨u, hu, hseq, hin'⟩
      obtain ⟨hne, hin'⟩ := (hother _ u hu).mp hin'
      refine ⟨?_, u, hu, hseq, hin'⟩
      rintro rfl
      exact hne rfl
  · rcases List.mem_cons.mp hb with rfl | hb
    · exact ⟨t, ht, fun hin' => ((hmem _).mp hin').1 rfl⟩
    · obtain ⟨u, hu, hout⟩ := h.outside b hb
      exact ⟨u, hu, fun hin' => hout ((hmem _).mp hin').2⟩
  · refine List.nodup_cons.mpr ⟨fun hb => ?_, h.nodup⟩
    obtain ⟨u, hu, hout⟩ := h.outside a hb
    cases ht.symm.trans hu
    exact hout hin
  · by_cases hba : b = a
    · exact Or.inl (List.mem_cons.mpr (Or.inl hba))
    · rcases h.covered b u hb with hb' | hin'
      · exact Or.inl (List.mem_cons_of_mem _ hb')
      · exact Or.inr ((hother b u hb).mpr ⟨hba, hin'⟩)

/-- `cancelInLoop` of an active timer: it leaves the sets and is deleted. -/
theorem cancelInLoop_active (h : Linked q held) {id : TimerId} (hactive : id.activeTimer ∈ q.activeTimers) :
    ∃ t, q.heap id.timer = some t ∧ t.seq = id.seq ∧
      q.cancelInLoop true id = .ok ((q.taken id.timer t).without id.timer t) ∧
      Linked ((q.taken id.timer t).without id.timer t) held ∧
      Deletes q [(id.timer, t)] ((q.taken id.timer t).without id.timer t) := by
  obtain ⟨t, ht, hseq, hin⟩ := (h.active _).mp hactive
  have ht' : q.heap id.timer = some t := ht
  have hlinked := (h.taken ht' hin).without t
  have htaken : Deletes q [] (q.taken id.timer t) := .of_heap rfl rfl rfl
  refine ⟨t, ht', hseq, ?_, hlinked, htaken.trans (.without ht')⟩
  have hsize := hlinked.sameSize
  have hkey : id.activeTimer = ActiveTimer.mk id.timer t.seq := congrArg (ActiveTimer.mk id.timer) hseq.symm
  have hdelete : TimerQueue.delete { q with timers := (q.timers.erase (.mk t.expiration id.timer)).1 } id.timer =
      .ok (TimerQueue.without { q with timers := (q.timers.erase (.mk t.expiration id.timer)).1 } id.timer t) :=
    delete_ok ht'
  have hin' : Entry.mk t.expiration id.timer ∈ q.timers := hin
  rw [hkey] at hactive
  simp only [cancelInLoop, hkey, check_pos, ok_bind, check_pos h.sameSize, if_pos hactive, deref_some ht',
    check_pos (OrderedSet.erase_snd hin'), hdelete, pure_bind]
  exact congrArg (· >>= fun _ => pure _) (check_pos hsize)

/-- `cancelInLoop` with an id of no active timer, while a batch runs and else. -/
theorem cancelInLoop_inactive (h : Linked q held) {id : TimerId} (hactive : id.activeTimer ∉ q.activeTimers) :
    q.cancelInLoop true id = .ok (if q.callingExpiredTimers then
      { q with cancelingTimers := (q.cancelingTimers.insert id.activeTimer).1 } else q) := by
  simp only [cancelInLoop, check_pos, ok_bind, check_pos h.sameSize, if_neg hactive]
  cases q.callingExpiredTimers with
  | false => exact congrArg (· >>= fun _ => pure _) (check_pos h.sameSize)
  | true => exact congrArg (· >>= fun _ => pure _) (check_pos h.sameSize)

/-! ### A batch -/

theorem eraseActive_fold {es : List Entry} {q : TimerQueue} (hnodup : (es.map Entry.timer).Nodup)
    (hactive : ∀ e ∈ es, ∃ t, q.heap e.timer = some t ∧ ActiveTimer.mk e.timer t.seq ∈ q.activeTimers) :
    ∃ active, es.foldlM eraseActive q = .ok { q with activeTimers := active } ∧
      ∀ x, x ∈ active ↔ x ∈ q.activeTimers ∧
        ∀ e ∈ es, ∀ t, q.heap e.timer = some t → x ≠ ActiveTimer.mk e.timer t.seq := by
  induction es generalizing q with
  | nil => exact ⟨q.activeTimers, rfl, fun x => by simp⟩
  | cons e es ih =>
      obtain ⟨hnotin, hnodup⟩ := List.nodup_cons.mp hnodup
      obtain ⟨t, ht, hmem⟩ := hactive e List.mem_cons_self
      have hone : q.eraseActive e =
          .ok { q with activeTimers := (q.activeTimers.erase (.mk e.timer t.seq)).1 } := by
        simp only [eraseActive, deref_some ht, ok_bind, check_pos (OrderedSet.erase_snd hmem)]
        rfl
      obtain ⟨active, hfold, hactive'⟩ := ih
        (q := { q with activeTimers := (q.activeTimers.erase (.mk e.timer t.seq)).1 }) hnodup fun f hf => by
          obtain ⟨u, hu, hmem'⟩ := hactive f (List.mem_cons_of_mem _ hf)
          refine ⟨u, hu, OrderedSet.mem_erase.mpr ⟨fun heq => hnotin ?_, hmem'⟩⟩
          have htimer : f.timer = e.timer := congrArg ActiveTimer.timer heq
          exact htimer ▸ List.mem_map_of_mem hf
      refine ⟨active, by rw [List.foldlM_cons, hone, ok_bind, hfold], fun x => ?_⟩
      rw [hactive' x, OrderedSet.mem_erase, List.forall_mem_cons]
      constructor
      · rintro ⟨⟨hne, hx⟩, hrest⟩
        refine ⟨hx, fun u hu => ?_, hrest⟩
        cases ht.symm.trans hu
        exact hne
      · rintro ⟨hx, hhead, hrest⟩
        exact ⟨⟨hhead t ht, hx⟩, hrest⟩

theorem lt_nowEntry {q : TimerQueue} {held : List Addr} (h : Linked q held) {e : Entry} (he : e ∈ q.timers)
    (now : Timestamp) : e < Entry.mk now UINTPTR_MAX ↔ e.when ≤ now := by
  obtain ⟨t, ht, _⟩ := h.keyed e he
  have hbound := h.bounded _ t ht
  rw [Entry.lt_iff, Entry.mk_when, Entry.mk_timer]
  constructor
  · rintro (hlt | ⟨heq, _⟩)
    · exact hlt.le
    · exact heq.le
  · intro hle
    rcases hle.lt_or_eq with hlt | heq
    · exact Or.inl hlt
    · exact Or.inr ⟨heq, hbound⟩

/-- Taking the timers before an entry out of both sets makes them held. -/
theorem Linked.takenBefore (h : Linked q held) (x : Entry) :
    ∃ active, (q.timers.before x).foldlM eraseActive { q with timers := q.timers.eraseBefore x } =
        .ok { q with timers := q.timers.eraseBefore x, activeTimers := active } ∧
      Linked { q with timers := q.timers.eraseBefore x, activeTimers := active }
        ((q.timers.before x).map Entry.timer ++ held) := by
  have hnodup : ((q.timers.before x).map Entry.timer).Nodup :=
    h.timers_nodup.sublist ((List.takeWhile_sublist _).map _)
  obtain ⟨active, hfold, hactive⟩ := eraseActive_fold
    (q := { q with timers := q.timers.eraseBefore x }) hnodup fun e he => by
      obtain ⟨hin, _⟩ := OrderedSet.mem_before.mp he
      obtain ⟨t, ht, hwhen⟩ := h.keyed e hin
      exact ⟨t, ht, (h.active _).mpr ⟨t, ht, rfl, by rw [hwhen]; exact hin⟩⟩
  refine ⟨active, hfold, fun e he => h.keyed e (OrderedSet.mem_eraseBefore.mp he).1, fun y => ?_, fun a ha => ?_, ?_,
    fun a t ht => ?_, h.bounded⟩
  · rw [hactive y]
    constructor
    · rintro ⟨hy, hnot⟩
      obtain ⟨t, ht, hseq, hin⟩ := (h.active y).mp hy
      refine ⟨t, ht, hseq, OrderedSet.mem_eraseBefore.mpr ⟨hin, ?_⟩⟩
      by_contra hlt
      refine hnot _ (OrderedSet.mem_before.mpr ⟨hin, not_le.mp hlt⟩) t ht ?_
      rw [Entry.mk_timer, hseq, ActiveTimer.mk_eta]
    · rintro ⟨t, ht, hseq, hin⟩
      obtain ⟨hin, hle⟩ := OrderedSet.mem_eraseBefore.mp hin
      refine ⟨(h.active y).mpr ⟨t, ht, hseq, hin⟩, fun e he u hu heq => ?_⟩
      obtain ⟨hein, hlt⟩ := OrderedSet.mem_before.mp he
      have htimer : y.timer = e.timer := congrArg ActiveTimer.timer heq
      have heq' := h.when_eq hein hu
      rw [htimer] at ht hle
      cases ht.symm.trans hu
      exact absurd hlt (not_lt.mpr (heq' ▸ hle))
  · rcases List.mem_append.mp ha with ha | ha
    · obtain ⟨e, he, rfl⟩ := List.mem_map.mp ha
      obtain ⟨hin, hlt⟩ := OrderedSet.mem_before.mp he
      obtain ⟨t, ht, hwhen⟩ := h.keyed e hin
      refine ⟨t, ht, fun hin' => ?_⟩
      rw [hwhen] at hin'
      exact absurd hlt (not_lt.mpr (OrderedSet.mem_eraseBefore.mp hin').2)
    · obtain ⟨t, ht, hout⟩ := h.outside a ha
      exact ⟨t, ht, fun hin => hout (OrderedSet.mem_eraseBefore.mp hin).1⟩
  · refine List.nodup_append.mpr ⟨hnodup, h.nodup, ?_⟩
    rintro a ha b hb rfl
    obtain ⟨e, he, rfl⟩ := List.mem_map.mp ha
    obtain ⟨t, ht, hout⟩ := h.outside _ hb
    have hin := (OrderedSet.mem_before.mp he).1
    exact hout (h.when_eq hin ht ▸ hin)
  · rcases h.covered a t ht with ha | hin
    · exact Or.inl (List.mem_append_right _ ha)
    · rcases lt_or_ge (Entry.mk t.expiration a) x with hlt | hle
      · refine Or.inl (List.mem_append_left _ (List.mem_map.mpr ⟨_, OrderedSet.mem_before.mpr ⟨hin, hlt⟩, rfl⟩))
      · exact Or.inr (OrderedSet.mem_eraseBefore.mpr ⟨hin, hle⟩)

/-- `getExpired` takes the timers that are due out of both sets, in the order of their expiration. -/
theorem getExpired_ok (h : Linked q held) (now : Timestamp) :
    ∃ active, q.getExpired now = .ok ({ q with
        timers := q.timers.eraseBefore (.mk now UINTPTR_MAX)
        activeTimers := active }, q.timers.before (.mk now UINTPTR_MAX)) ∧
      Linked { q with timers := q.timers.eraseBefore (.mk now UINTPTR_MAX), activeTimers := active }
        ((q.timers.before (.mk now UINTPTR_MAX)).map Entry.timer ++ held) := by
  obtain ⟨active, hfold, hlinked⟩ := h.takenBefore (.mk now UINTPTR_MAX)
  refine ⟨active, ?_, hlinked⟩
  have hend : ∀ e, (q.timers.eraseBefore (.mk now UINTPTR_MAX)).first = some e → now < e.when := by
    intro e he
    obtain ⟨hin, hle⟩ := OrderedSet.mem_eraseBefore.mp (OrderedSet.mem_of_first he)
    by_contra hlt
    exact absurd ((lt_nowEntry h hin now).mpr (not_lt.mp hlt)) (not_lt.mpr hle)
  have hsize := hlinked.sameSize
  simp only [getExpired, check_pos h.sameSize, ok_bind, check_pos hend, hfold, check_pos hsize]
  rfl

/-- The timers that are due at `now`, in the order of their expiration. -/
def due (q : TimerQueue) (now : Timestamp) : List Entry := q.timers.before (.mk now UINTPTR_MAX)

/-- The queue when the first callback of a batch is called, with what is left in `activeTimers_`. -/
def started (q : TimerQueue) (now : Timestamp) (activeTimers : OrderedSet ActiveTimer) : TimerQueue :=
  { q with
    timers := q.timers.eraseBefore (.mk now UINTPTR_MAX)
    activeTimers := activeTimers
    timefd := q.timefd.read
    callingExpiredTimers := true
    cancelingTimers := .empty }

theorem startBatch_ok (h : Linked q held) (now : Timestamp) :
    ∃ active, q.startBatch true now = .ok (q.started now active, q.due now) ∧
      Linked (q.started now active) ((q.due now).map Entry.timer ++ held) := by
  have hread : Linked { q with timefd := q.timefd.read } held := h.congr rfl rfl rfl
  obtain ⟨active, hget, hlinked⟩ := getExpired_ok hread now
  refine ⟨active, ?_, hlinked.congr rfl rfl rfl⟩
  simp only [startBatch, check_pos, ok_bind, hget]
  rfl

/-! ### The end of a batch -/

/-- The timer of a batch runs again: it repeats, and was not cancelled while the batch ran. -/
def Again (q : TimerQueue) (a : Addr) (t : Timer) : Prop :=
  t.repeats = true ∧ ActiveTimer.mk a t.seq ∉ q.cancelingTimers

instance (q : TimerQueue) (a : Addr) (t : Timer) : Decidable (q.Again a t) := inferInstanceAs (Decidable (_ ∧ _))

/-- The queue in which the timer `t` at `a` was restarted. -/
def restarted (q : TimerQueue) (a : Addr) (t : Timer) (now : Timestamp) : TimerQueue :=
  TimerQueue.inserted { q with heap := Function.update q.heap a (some (t.restart now)) } a (t.restart now)

theorem resetTimer_again {e : Entry} (h : Linked q (e.timer :: held)) {t : Timer} (ht : q.heap e.timer = some t)
    (hagain : q.Again e.timer t) (now : Timestamp) :
    q.resetTimer now e = .ok (q.restarted e.timer t now) ∧ Linked (q.restarted e.timer t now) held ∧
      Deletes q [] (q.restarted e.timer t now) := by
  have hset := h.setTimer ht (t.restart now)
  have hself : Function.update q.heap e.timer (some (t.restart now)) e.timer = some (t.restart now) :=
    Function.update_self _ _ _
  have hinsert := insert_ok hset hself
  refine ⟨?_, hset.inserted hself, (Deletes.setTimer ht (t.restart_seq now)).trans (.of_heap rfl rfl rfl)⟩
  simp only [resetTimer, deref_some ht, ok_bind, hinsert]
  exact if_pos hagain

theorem resetTimer_done {e : Entry} (h : Linked q (e.timer :: held)) {t : Timer} (ht : q.heap e.timer = some t)
    (hagain : ¬ q.Again e.timer t) (now : Timestamp) :
    q.resetTimer now e = .ok (q.without e.timer t) ∧ Linked (q.without e.timer t) held ∧
      Deletes q [(e.timer, t)] (q.without e.timer t) := by
  refine ⟨?_, h.without t, .without ht⟩
  simp only [resetTimer, deref_some ht, ok_bind]
  exact (if_neg hagain).trans (delete_ok ht)

/-- What the loop of `reset` over `es` makes of the timers. -/
structure Settles (now : Timestamp) (es : List Entry) (q q' : TimerQueue) : Prop where
  again : ∀ e ∈ es, ∀ t, q.heap e.timer = some t → q.Again e.timer t →
    q'.heap e.timer = some (t.restart now) ∧ Entry.mk (t.restart now).expiration e.timer ∈ q'.timers
  done : ∀ e ∈ es, ∀ t, q.heap e.timer = some t → ¬ q.Again e.timer t →
    q'.heap e.timer = none ∧ (e.timer, t) ∈ q'.deleted
  heap : ∀ a ∉ es.map Entry.timer, q'.heap a = q.heap a
  timers : ∀ f : Entry, f.timer ∉ es.map Entry.timer → (f ∈ q'.timers ↔ f ∈ q.timers)
  deleted : ∀ d, d ∈ q'.deleted ↔ d ∈ q.deleted ∨
    ∃ e ∈ es, d.1 = e.timer ∧ q.heap e.timer = some d.2 ∧ ¬ q.Again e.timer d.2
  callingExpiredTimers : q'.callingExpiredTimers = q.callingExpiredTimers
  cancelingTimers : q'.cancelingTimers = q.cancelingTimers
  seqTotal : q'.seqTotal = q.seqTotal
  timefd : q'.timefd = q.timefd

theorem resetTimer_settles {e : Entry} (h : Linked q (e.timer :: held)) (now : Timestamp) :
    ∃ q' ds, q.resetTimer now e = .ok q' ∧ Linked q' held ∧ Deletes q ds q' ∧ Settles now [e] q q' := by
  obtain ⟨t, ht, hout⟩ := h.outside e.timer List.mem_cons_self
  by_cases hagain : q.Again e.timer t
  · obtain ⟨hreset, hlinked, hdel⟩ := resetTimer_again h ht hagain now
    have hself : (q.restarted e.timer t now).heap e.timer = some (t.restart now) := Function.update_self _ _ _
    refine ⟨_, _, hreset, hlinked, hdel, ?_, ?_, ?_, ?_, ?_, rfl, rfl, rfl, rfl⟩
    · intro f hf u hu _
      cases List.mem_singleton.mp hf
      cases ht.symm.trans hu
      exact ⟨hself, OrderedSet.mem_insert.mpr (Or.inl rfl)⟩
    · intro f hf u hu hnot
      cases List.mem_singleton.mp hf
      cases ht.symm.trans hu
      exact absurd hagain hnot
    · intro a ha
      exact Function.update_of_ne (fun hae => ha (by simp [hae])) _ _
    · intro f hf
      refine (OrderedSet.mem_insert (s := q.timers)).trans (or_iff_right ?_)
      rintro rfl
      exact hf (by simp)
    · intro d
      refine ⟨Or.inl, ?_⟩
      rintro (hd | ⟨f, hf, _, hu, hnot⟩)
      · exact hd
      · cases List.mem_singleton.mp hf
        cases ht.symm.trans hu
        exact absurd hagain hnot
  · obtain ⟨hreset, hlinked, hdel⟩ := resetTimer_done h ht hagain now
    refine ⟨_, _, hreset, hlinked, hdel, ?_, ?_, ?_, ?_, ?_, rfl, rfl, rfl, rfl⟩
    · intro f hf u hu hyes
      cases List.mem_singleton.mp hf
      cases ht.symm.trans hu
      exact absurd hyes hagain
    · intro f hf u hu _
      cases List.mem_singleton.mp hf
      cases ht.symm.trans hu
      exact ⟨Function.update_self _ _ _, List.mem_append_right _ (List.mem_singleton_self _)⟩
    · intro a ha
      exact Function.update_of_ne (fun hae => ha (by simp [hae])) _ _
    · exact fun f _ => Iff.rfl
    · intro d
      refine List.mem_append.trans (or_congr_right ?_)
      rw [List.mem_singleton]
      constructor
      · rintro rfl
        exact ⟨e, List.mem_singleton_self _, rfl, ht, hagain⟩
      · rintro ⟨f, hf, hd, hu, _⟩
        cases List.mem_singleton.mp hf
        exact Prod.ext hd (Option.some.inj (ht.symm.trans hu)).symm

theorem Settles.cons {now : Timestamp} {e : Entry} {es : List Entry} {q q' q'' : TimerQueue}
    (hnotin : e.timer ∉ es.map Entry.timer) (h : Settles now [e] q q') (h' : Settles now es q' q'') :
    Settles now (e :: es) q q'' := by
  have hne : ∀ f ∈ es, f.timer ∉ [e].map Entry.timer := by
    intro f hf hmem
    exact hnotin (List.mem_singleton.mp hmem ▸ List.mem_map_of_mem hf)
  have hagain : ∀ a t, q'.Again a t ↔ q.Again a t := by
    intro a t
    rw [Again, Again, h.cancelingTimers]
  refine ⟨fun f hf t ht hyes => ?_, fun f hf t ht hnot => ?_, fun a ha => ?_, fun f hf => ?_, fun d => ?_,
    h'.callingExpiredTimers.trans h.callingExpiredTimers, h'.cancelingTimers.trans h.cancelingTimers,
    h'.seqTotal.trans h.seqTotal, h'.timefd.trans h.timefd⟩
  · rcases List.mem_cons.mp hf with rfl | hf
    · obtain ⟨hheap, hin⟩ := h.again f (List.mem_singleton_self f) t ht hyes
      exact ⟨(h'.heap _ hnotin).trans hheap, (h'.timers (Entry.mk (t.restart now).expiration f.timer) hnotin).mpr hin⟩
    · exact h'.again f hf t ((h.heap _ (hne f hf)).trans ht) ((hagain _ _).mpr hyes)
  · rcases List.mem_cons.mp hf with rfl | hf
    · obtain ⟨hheap, hdel⟩ := h.done f (List.mem_singleton_self f) t ht hnot
      exact ⟨(h'.heap _ hnotin).trans hheap, (h'.deleted _).mpr (Or.inl hdel)⟩
    · exact h'.done f hf t ((h.heap _ (hne f hf)).trans ht) fun hyes => hnot ((hagain _ _).mp hyes)
  · rw [List.map_cons, List.mem_cons, not_or] at ha
    rw [h'.heap a ha.2, h.heap a (by simpa using ha.1)]
  · rw [List.map_cons, List.mem_cons, not_or] at hf
    rw [h'.timers f hf.2, h.timers f (by simpa using hf.1)]
  · rw [h'.deleted, h.deleted, or_assoc]
    refine or_congr_right ⟨?_, ?_⟩
    · rintro (⟨f, hf, hd, ht, hnot⟩ | ⟨f, hf, hd, ht, hnot⟩)
      · cases List.mem_singleton.mp hf
        exact ⟨e, List.mem_cons_self, hd, ht, hnot⟩
      · exact ⟨f, List.mem_cons_of_mem _ hf, hd, (h.heap _ (hne f hf)).symm.trans ht,
          fun hyes => hnot ((hagain _ _).mpr hyes)⟩
    · rintro ⟨f, hf, hd, ht, hnot⟩
      rcases List.mem_cons.mp hf with rfl | hf
      · exact Or.inl ⟨f, List.mem_singleton_self f, hd, ht, hnot⟩
      · exact Or.inr ⟨f, hf, hd, (h.heap _ (hne f hf)).trans ht, fun hyes => hnot ((hagain _ _).mp hyes)⟩

theorem reset_fold (now : Timestamp) {es : List Entry} {q : TimerQueue} (h : Linked q (es.map Entry.timer ++ held)) :
    ∃ q' ds, es.foldlM (resetTimer now) q = .ok q' ∧ Linked q' held ∧ Deletes q ds q' ∧ Settles now es q q' := by
  induction es generalizing q with
  | nil =>
      exact ⟨q, [], rfl, h, .of_heap rfl rfl rfl, nofun, nofun, fun _ _ => rfl, fun _ _ => Iff.rfl,
        fun d => by simp, rfl, rfl, rfl, rfl⟩
  | cons e es ih =>
      obtain ⟨hnotin, _⟩ := List.nodup_cons.mp h.nodup
      obtain ⟨q', ds, hone, hlinked, hdel, hsettles⟩ := resetTimer_settles h now
      obtain ⟨q'', ds', hfold, hlinked', hdel', hsettles'⟩ := ih hlinked
      refine ⟨q'', ds ++ ds', by rw [List.foldlM_cons, hone, ok_bind, hfold], hlinked', hdel.trans hdel',
        hsettles.cons ?_ hsettles'⟩
      exact fun hmem => hnotin (List.mem_append_left _ hmem)

/-- The timerfd at the end of `reset`: armed for the first timer, unless its expiration is not valid. -/
def nextTimeFd (q : TimerQueue) (clock : Timestamp) : TimeFd :=
  match q.timers.first with
  | some e => if e.when.isValid then q.timefd.reset e.when clock else q.timefd
  | none => q.timefd

theorem endBatch_ok {es : List Entry} (h : Linked q (es.map Entry.timer ++ held)) (now clock : Timestamp) :
    ∃ q' ds, q.endBatch es now clock = .ok { q' with timefd := q'.nextTimeFd clock } ∧ Linked q' held ∧
      Deletes q ds q' ∧ Settles now es { q with callingExpiredTimers := false } q' := by
  have hcalled : Linked { q with callingExpiredTimers := false } (es.map Entry.timer ++ held) :=
    h.congr rfl rfl rfl
  obtain ⟨q', ds, hfold, hlinked, hdel, hsettles⟩ := reset_fold now hcalled
  have hnone : Deletes q [] { q with callingExpiredTimers := false } := .of_heap rfl rfl rfl
  refine ⟨q', ds, ?_, hlinked, hnone.trans hdel, hsettles⟩
  unfold TimerQueue.nextTimeFd
  cases hfirst : q'.timers.first with
  | none =>
      simp only [endBatch, reset, hfold, ok_bind, TimerQueue.nextExpire, hfirst]
      rfl
  | some e =>
      obtain ⟨t, ht, hwhen⟩ := hlinked.keyed e (OrderedSet.mem_of_first hfirst)
      have hnext : q'.nextExpire = .ok e.when := by
        simp only [TimerQueue.nextExpire, hfirst, deref_some ht, Except.map, hwhen]
      simp only [endBatch, reset, hfold, ok_bind, hnext]
      by_cases hvalid : e.when.isValid = true
      · rw [if_pos hvalid, if_pos hvalid]
        rfl
      · rw [if_neg hvalid, if_neg hvalid]
        rfl

end TimerQueue

end OulaServer
