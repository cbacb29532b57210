import OulaServer.ThreadPool.Shutdown

/-!
# Every task is run once

`Accounted` says where the tasks are: those taken, then the queue, are all that were added, in order; and those
taken are those that were run and those that are being run, each once. `Drained` is about the end: when
all workers have returned, the queue is empty and every task was run. A worker returns when it sees the stop with
an empty queue, and what is added later is added by a task that another worker runs, which comes back to the queue.
-/

namespace OulaServer

namespace ThreadPool

open Run

variable {n : Nat}

namespace State

/-- The tasks that are being run. -/
def running (s : State n) : List Nat := (List.finRange n).filterMap fun w => (s.pc w).task

end State

/-- The tasks are taken in the order in which they were added, and each that was taken is being run by one
worker or was run once. -/
structure Accounted (s : State n) : Prop where
  order : s.taken ++ s.taskQueue = List.range s.added
  once : s.taken.Perm (s.ran.map Prod.snd ++ s.running)

/-- When all workers have returned, the queue is empty and every task was run. -/
def Drained (s : State n) : Prop :=
  (∀ w, s.pc w = .returned) → s.taskQueue = [] ∧ (s.ran.map Prod.snd).Perm (List.range s.added)

/-- Other threads add tasks only before the destructor starts. -/
def AddsBefore (s : State n) : Event n → Prop
  | .addTask none _ => s.dtor = .before
  | _ => True

instance (s : State n) : (e : Event n) → Decidable (AddsBefore s e)
  | .addTask none _ => inferInstanceAs (Decidable (_ = _))
  | .addTask (some _) _ | .lock _ | .check _ | .block _ | .spuriousWakeup _ | .take _ | .finish _ | .store
  | .notifyAll | .join => .isTrue trivial

structure DrainInv (s : State n) : Prop where
  locked : Locked s
  accounted : Accounted s
  stopped : s.bStop = true → s.dtor ≠ .before
  returned : ∀ w, s.pc w = .returned → s.bStop = true
  drained : (∀ w, s.pc w = .returned) → s.taskQueue = []

variable {s : State n} {w : Fin n} {pc : Pc}

/-! ### The tasks that are being run -/

theorem running_setPc (h : pc.task = (s.pc w).task) : (s.setPc w pc).running = s.running := by
  unfold State.running
  congr 1
  funext v
  rw [setPc_pc]
  split_ifs with hvw
  · rw [h, hvw]
  · rfl

theorem filterMap_setPc {ws : List (Fin n)} (h : w ∉ ws) :
    (ws.filterMap fun v => ((s.setPc w pc).pc v).task) = ws.filterMap fun v => (s.pc v).task := by
  refine List.filterMap_congr fun v hv => ?_
  rw [setPc_pc, if_neg]
  rintro rfl
  exact h hv

theorem running_start (h : (s.pc w).task = none) (task : Nat) :
    (s.setPc w (.running task)).running.Perm (task :: s.running) := by
  obtain ⟨before, after, hsplit⟩ := List.append_of_mem (List.mem_finRange w)
  have hnodup := List.nodup_finRange n
  rw [hsplit] at hnodup
  obtain ⟨_, hafter, hdisjoint⟩ := List.nodup_append.mp hnodup
  have hbefore : w ∉ before := fun hw => hdisjoint w hw w List.mem_cons_self rfl
  have hnew : ((s.setPc w (.running task)).pc w).task = some task := by
    rw [setPc_pc, if_pos rfl]
    rfl
  unfold State.running
  rw [hsplit, List.filterMap_append, List.filterMap_append, filterMap_setPc hbefore,
    List.filterMap_cons_none (f := fun v => (s.pc v).task) h,
    List.filterMap_cons_some (f := fun v => ((s.setPc w (.running task)).pc v).task) hnew,
    filterMap_setPc (List.nodup_cons.mp hafter).1]
  exact List.perm_middle

theorem running_finish {task : Nat} (h : (s.pc w).task = some task) (pc : Pc) (hpc : pc.task = none) :
    s.running.Perm (task :: (s.setPc w pc).running) := by
  have hself : (s.setPc w pc).setPc w (s.pc w) = s := by
    unfold State.setPc
    simp
  have hnone : ((s.setPc w pc).pc w).task = none := by
    rw [setPc_pc, if_pos rfl, hpc]
  have hstart := running_start hnone task
  rwa [← Pc.task_eq_some.mp h, hself] at hstart

/-! ### The steps -/

theorem init_drain : DrainInv (init : State n) := by
  have hrunning : (init : State n).running = [] := List.filterMap_eq_nil_iff.mpr fun _ _ => rfl
  refine ⟨init_locked, ⟨rfl, ?_⟩, nofun, nofun, fun _ => rfl⟩
  rw [hrunning]
  exact List.Perm.refl _

theorem DrainInv.frame (h : DrainInv s) {s' : State n} (hlocked : Locked s') (hrunning : s'.running = s.running)
    (hqueue : s'.taskQueue = s.taskQueue) (htaken : s'.taken = s.taken) (hran : s'.ran = s.ran)
    (hadded : s'.added = s.added) (hstop : s'.bStop = true → s'.dtor ≠ .before)
    (hkept : s.bStop = true → s'.bStop = true) (hreturned : ∀ w, s'.pc w = .returned → s.pc w = .returned) :
    DrainInv s' := by
  refine ⟨hlocked, ⟨?_, ?_⟩, hstop, fun w hw => hkept (h.returned w (hreturned w hw)), fun hall => ?_⟩
  · rw [hqueue, htaken, hadded]
    exact h.accounted.order
  · rw [htaken, hran, hrunning]
    exact h.accounted.once
  · rw [hqueue]
    exact h.drained fun w => hreturned w (hall w)

theorem DrainInv.move (h : DrainInv s) (w : Fin n) (pc : Pc) {s' : State n} (hlocked : Locked s')
    (hpc : s'.pc = (s.setPc w pc).pc) (htask : pc.task = (s.pc w).task) (hreturned : pc ≠ .returned)
    (hqueue : s'.taskQueue = s.taskQueue)
    (htaken : s'.taken = s.taken) (hran : s'.ran = s.ran) (hadded : s'.added = s.added)
    (hstop : s'.bStop = s.bStop) (hdtor : s'.dtor = s.dtor) : DrainInv s' := by
  refine h.frame hlocked ?_ hqueue htaken hran hadded (by rw [hstop, hdtor]; exact h.stopped)
    (by rw [hstop]; exact fun hs => hs) fun v hv => ?_
  · rw [← running_setPc htask]
    unfold State.running
    rw [hpc]
  · rw [hpc, setPc_pc] at hv
    split_ifs at hv
    · exact absurd hv hreturned
    · exact hv

theorem step_drain (hn : 0 < n) (s : State n) (e : Event n) (h : DrainInv s) (hen : Enabled s e)
    (hadds : AddsBefore s e) : ∃ t, step s e = .ok t ∧ DrainInv t := by
  obtain ⟨t, hstep, hlocked⟩ := step_locked s e h.locked hen
  refine ⟨t, hstep, ?_⟩
  cases e with
  | lock w =>
      cases hstep
      refine h.move w .checking hlocked rfl ?_ nofun rfl rfl rfl rfl rfl rfl
      rcases hen.1 with hpc | hpc <;> rw [hpc] <;> rfl
  | check w =>
      cases hstep
      have hpc : s.pc w = .checking := hen
      refine h.move w _ hlocked rfl ?_ ?_ rfl rfl rfl rfl rfl rfl
      · rw [hpc]
        split_ifs <;> rfl
      · split_ifs <;> nofun
  | block w =>
      cases hstep
      have hpc : s.pc w = .blocking := hen
      exact h.move w .blocked hlocked rfl (by rw [hpc]; rfl) nofun rfl rfl rfl rfl rfl rfl
  | spuriousWakeup w =>
      cases hstep
      have hpc : s.pc w = .blocked := hen
      exact h.move w .notified hlocked rfl (by rw [hpc]; rfl) nofun rfl rfl rfl rfl rfl rfl
  | take w =>
      have hpc : s.pc w = .taking := hen
      have hnone : (s.pc w).task = none := by rw [hpc]; rfl
      simp only [step] at hstep
      split at hstep
      · rename_i hstop
        cases hstep
        have hrunning : (s.setPc w .returned).running = s.running := running_setPc hnone.symm
        refine ⟨hlocked, ⟨h.accounted.order, ?_⟩, h.stopped, fun v hv => hstop.1, fun _ => hstop.2⟩
        exact hrunning ▸ h.accounted.once
      · split at hstep
        · rename_i task taskQueue hqueue
          cases hstep
          have horder := h.accounted.order
          refine ⟨hlocked, ⟨?_, ?_⟩, h.stopped, fun v hv => h.returned v ?_, fun hall => ?_⟩
          · rw [hqueue] at horder
            exact (List.append_assoc _ _ _).trans horder
          · refine (h.accounted.once.append_right [task]).trans ?_
            rw [List.append_assoc]
            have hcomm : (s.running ++ [task]).Perm ([task] ++ s.running) := List.perm_append_comm
            exact (hcomm.trans (running_start hnone task).symm).append_left _
          · change (s.setPc w (.running task)).pc v = .returned at hv
            rw [setPc_pc] at hv
            split_ifs at hv
            exact hv
          · have hw : (s.setPc w (.running task)).pc w = .returned := hall w
            rw [setPc_pc, if_pos rfl] at hw
            cases hw
        · cases hstep
  | finish w =>
      obtain ⟨task, htask⟩ := Option.ne_none_iff_exists'.mp hen
      simp only [step, Pc.task_eq_some.mp htask] at hstep
      cases hstep
      have hfinish := running_finish htask .acquiring rfl
      refine ⟨hlocked, ⟨h.accounted.order, ?_⟩, h.stopped, fun v hv => h.returned v ?_, fun hall => ?_⟩
      · refine h.accounted.once.trans ?_
        change (s.ran.map Prod.snd ++ s.running).Perm ((s.ran ++ [(w, task)]).map Prod.snd ++
          (s.setPc w .acquiring).running)
        rw [List.map_append, List.append_assoc]
        exact hfinish.append_left _
      · change (s.setPc w .acquiring).pc v = .returned at hv
        rw [setPc_pc] at hv
        split_ifs at hv
        exact hv
      · have hw : (s.setPc w .acquiring).pc w = .returned := hall w
        rw [setPc_pc, if_pos rfl] at hw
        cases hw
  | addTask caller wakes =>
      obtain ⟨_, hcaller, hblocked, _⟩ := hen
      have hrunning : t.running = s.running ∧ (∀ v, t.pc v = .returned → s.pc v = .returned) := by
        cases wakes with
        | none =>
            cases hstep
            exact ⟨rfl, fun _ hv => hv⟩
        | some u =>
            cases hstep
            refine ⟨running_setPc ?_, fun v hv => ?_⟩
            · rw [hblocked u rfl]
              rfl
            · change (s.setPc u .notified).pc v = .returned at hv
              rw [setPc_pc] at hv
              split_ifs at hv
              exact hv
      have hrest : t.taken = s.taken ∧ t.ran = s.ran ∧ t.bStop = s.bStop ∧ t.dtor = s.dtor ∧
          t.taskQueue = s.taskQueue ++ [s.added] ∧ t.added = s.added + 1 := by
        cases wakes <;> cases hstep <;> exact ⟨rfl, rfl, rfl, rfl, rfl, rfl⟩
      obtain ⟨htaken, hran, hstop, hdtor, hqueue, hadded⟩ := hrest
      refine ⟨hlocked, ⟨?_, ?_⟩, by rw [hstop, hdtor]; exact h.stopped, fun v hv => ?_, fun hall => ?_⟩
      · rw [htaken, hqueue, hadded, ← List.append_assoc, h.accounted.order, List.range_succ]
      · rw [htaken, hran, hrunning.1]
        exact h.accounted.once
      · rw [hstop]
        exact h.returned v (hrunning.2 v hv)
      · -- the caller has not returned, or the destructor has not started and no worker has
        exfalso
        cases caller with
        | some v => exact hcaller v rfl (by rw [hrunning.2 v (hall v)]; rfl)
        | none => exact h.stopped (h.returned ⟨0, hn⟩ (hrunning.2 _ (hall _))) hadds
  | store =>
      cases hstep
      exact h.frame hlocked rfl rfl rfl rfl rfl (by simp) (fun _ => rfl) fun _ hw => hw
  | notifyAll =>
      cases hstep
      refine h.frame hlocked ?_ rfl rfl rfl rfl (by simp) (fun hs => hs)
        fun v hv => ((wake_eq (p := .returned) (by decide)).mp hv).1
      refine List.filterMap_congr fun v _ => ?_
      change (State.wake (s.pc v)).task = (s.pc v).task
      unfold State.wake
      split_ifs with hblocked
      · rw [hblocked]
        rfl
      · rfl
  | join =>
      cases hstep
      exact h.frame hlocked rfl rfl rfl rfl rfl (by simp) (fun hs => hs) fun _ hw => hw

theorem DrainInv.ended (h : DrainInv s) : Drained s := by
  intro hall
  have hqueue := h.drained hall
  have hrunning : s.running = [] := List.filterMap_eq_nil_iff.mpr fun w _ => by rw [hall w]; rfl
  refine ⟨hqueue, ?_⟩
  have horder := h.accounted.order
  rw [hqueue, List.append_nil] at horder
  have honce := h.accounted.once
  rwa [hrunning, List.append_nil, horder, List.perm_comm] at honce

/-- **Every task is run exactly once.** In every interleaving of the workers of a pool, spurious wakeups
included, with the calls of `addTask` by running tasks, and by other threads before the destructor starts: the
tasks are taken in the order in which they were added, each that was taken is being run by one worker or was
run once, and when all workers have returned the queue is empty and every task was run. -/
theorem drained_of_along (hn : 0 < n) (es : List (Event n)) (hes : Along step Enabled init es)
    (hadds : Along step AddsBefore init es) :
    Holds step noError (fun _ _ t => Accounted t ∧ Drained t) (init : State n) es := by
  refine holds_of_along (fun s e h hboth => ?_) init_drain (along_and.mpr ⟨hes, hadds⟩)
  obtain ⟨t, hstep, hinv⟩ := step_drain hn s e h hboth.1 hboth.2
  exact StepHolds.of_ok hstep ⟨⟨hinv.accounted, hinv.ended⟩, hinv⟩

/-- A worker returns while the other runs a task that adds one more. -/
theorem drained_of_along_run : Holds step noError (fun _ _ t => Accounted t ∧ Drained t) (init : State 2)
    [.lock 0, .check 0, .block 0, .spuriousWakeup 0, .lock 0, .check 0, .block 0, .addTask none (some 0),
      .addTask none none, .lock 0, .check 0, .take 0, .lock 1, .check 1, .take 1, .finish 1, .store,
      .lock 1, .check 1, .take 1, .addTask (some 0) none, .notifyAll, .finish 0, .lock 0, .check 0, .take 0,
      .finish 0, .lock 0, .check 0, .take 0, .join] :=
  drained_of_along (by decide) _ (by decide) (by decide)

end ThreadPool

end OulaServer
