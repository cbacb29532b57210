import OulaServer.Lib.Potential
import OulaServer.ThreadPool.Drain

/-!
# The pool finishes its tasks

Two facts that together make the workers finish. `Attended`: as long as a worker is blocked, there are no more tasks in
the queue than workers on their way to it, because `addTask` wakes one for each task that it adds. So when no worker can
go on, the queue is empty and every task was run. And the workers cannot go on forever: a step of theirs lowers a
potential that only `addTask`, `notify_all` and spurious wakeups raise.
-/

namespace OulaServer

namespace ThreadPool

open Run

variable {n : Nat}

/-- The worker will evaluate the predicate, or take a task, before it blocks. -/
def Pc.awake : Pc → Nat
  | .acquiring | .checking | .notified | .taking => 1
  | .blocking | .blocked | .running _ | .returned => 0

/-- How far a worker is from being blocked. -/
def Pc.distance : Pc → Nat
  | .running _ => 4
  | .acquiring | .notified => 3
  | .checking => 2
  | .taking | .blocking => 1
  | .blocked | .returned => 0

namespace State

/-- The sum of a number for each worker. -/
def total (s : State n) (f : Pc → Nat) : Nat := ∑ w, f (s.pc w)

/-- What is left to do for the workers. -/
def work (s : State n) : Nat := s.total Pc.distance + 4 * s.taskQueue.length

end State

/-- While a worker is blocked, every task in the queue has a worker on its way to it. -/
def Attended (s : State n) : Prop := (∃ w, s.pc w = .blocked) → s.taskQueue.length ≤ s.total Pc.awake

instance (s : State n) : Decidable (Attended s) := inferInstanceAs (Decidable (_ → _))

/-- The steps of the workers; a spurious wakeup is none of their own. -/
def Event.isWorker : Event n → Bool
  | .lock _ | .check _ | .block _ | .take _ | .finish _ => true
  | .spuriousWakeup _ | .addTask _ _ | .store | .notifyAll | .join => false

/-- No worker can take a step. -/
def AtRest (s : State n) : Prop := ∀ e : Event n, e.isWorker = true → ¬ Enabled s e

/-- Every task that was added was run, once. -/
def AllRun (s : State n) : Prop := (s.ran.map Prod.snd).Perm (List.range s.added)

structure ProgressInv (s : State n) : Prop where
  drain : DrainInv s
  attended : Attended s
  empty : ∀ w, s.pc w = .blocking → s.taskQueue = []

variable {s : State n} {w : Fin n} {pc : Pc}

/-! ### Sums over the workers -/

theorem total_setPc (f : Pc → Nat) (s : State n) (w : Fin n) (pc : Pc) :
    (s.setPc w pc).total f + f (s.pc w) = s.total f + f pc := by
  have hupdate : ∀ v, f ((s.setPc w pc).pc v) = Function.update (fun v => f (s.pc v)) w (f pc) v := by
    intro v
    rw [setPc_pc, Function.update_apply]
    split_ifs <;> rfl
  have hsum : (s.setPc w pc).total f = f pc + ∑ v ∈ Finset.univ \ {w}, f (s.pc v) := by
    unfold State.total
    rw [Finset.sum_congr rfl fun v _ => hupdate v, Finset.sum_update_of_mem (Finset.mem_univ w)]
  have hold : s.total f = f (s.pc w) + ∑ v ∈ Finset.univ \ {w}, f (s.pc v) := by
    unfold State.total
    rw [← Finset.add_sum_erase _ _ (Finset.mem_univ w), Finset.sdiff_singleton_eq_erase]
  omega

theorem total_wake_le (f : Pc → Nat) (s : State n) : ∑ w, f (State.wake (s.pc w)) ≤ s.total f + n * f .notified := by
  have hterm : ∀ w ∈ Finset.univ, f (State.wake (s.pc w)) ≤ f (s.pc w) + f .notified := by
    intro w _
    unfold State.wake
    split_ifs
    · exact Nat.le_add_left _ _
    · exact Nat.le_add_right _ _
  calc ∑ w, f (State.wake (s.pc w)) ≤ ∑ w, (f (s.pc w) + f .notified) := Finset.sum_le_sum hterm
    _ = s.total f + n * f .notified := by
      rw [Finset.sum_add_distrib, Finset.sum_const, Finset.card_univ, Fintype.card_fin, smul_eq_mul]
      rfl

/-! ### No task waits for a worker that sleeps -/

theorem Attended.move (h : Attended s) {s' : State n} (hpc : s'.pc = (s.setPc w pc).pc) (hne : pc ≠ .blocked)
    (hqueue : s'.taskQueue.length + (s.pc w).awake ≤ s.taskQueue.length + pc.awake) : Attended s' := by
  rintro ⟨v, hv⟩
  rw [hpc, setPc_pc] at hv
  split_ifs at hv with hvw
  · exact absurd hv hne
  · have hle := h ⟨v, hv⟩
    have htotal : s'.total Pc.awake = (s.setPc w pc).total Pc.awake := by
      unfold State.total
      rw [hpc]
    have := total_setPc Pc.awake s w pc
    omega

theorem attended_of_nil (h : s.taskQueue = []) : Attended s := by
  intro _
  rw [h]
  exact Nat.zero_le _

theorem blocking_of_setPc {v : Fin n} (h : (s.setPc w pc).pc v = .blocking) (hne : pc ≠ .blocking) :
    s.pc v = .blocking := by
  rw [setPc_pc] at h
  split_ifs at h
  · exact absurd h hne
  · exact h

theorem step_attended (s : State n) (e : Event n) (h : ProgressInv s) (hen : Enabled s e) {t : State n}
    (ht : step s e = .ok t) : Attended t ∧ ∀ w, t.pc w = .blocking → t.taskQueue = [] := by
  obtain ⟨hdrain, hattended, hempty⟩ := h
  cases e with
  | lock w =>
      cases ht
      refine ⟨hattended.move rfl (by simp) ?_, fun v hv => hempty v (blocking_of_setPc hv (by simp))⟩
      rcases hen.1 with hpc | hpc <;> simp [hpc, Pc.awake, State.setPc]
  | check w =>
      cases ht
      have hpc : s.pc w = .checking := hen
      by_cases hready : s.bStop = true ∨ s.taskQueue ≠ []
      · simp only [if_pos hready]
        refine ⟨hattended.move rfl (by simp) ?_, fun v hv => hempty v (blocking_of_setPc hv (by simp))⟩
        simp [hpc, Pc.awake, State.setPc]
      · have hnil : s.taskQueue = [] := by
          by_contra hne
          exact hready (Or.inr hne)
        exact ⟨attended_of_nil hnil, fun _ _ => hnil⟩
  | block w =>
      cases ht
      have hnil : s.taskQueue = [] := hempty w hen
      exact ⟨attended_of_nil hnil, fun _ _ => hnil⟩
  | spuriousWakeup w =>
      cases ht
      have hpc : s.pc w = .blocked := hen
      refine ⟨hattended.move rfl (by simp) ?_, fun v hv => hempty v (blocking_of_setPc hv (by simp))⟩
      simp [hpc, Pc.awake, State.setPc]
  | take w =>
      have hpc : s.pc w = .taking := hen
      simp only [step] at ht
      split at ht
      next hstop =>
        cases ht
        exact ⟨attended_of_nil hstop.2, fun _ _ => hstop.2⟩
      next =>
        split at ht
        next task taskQueue hqueue =>
          cases ht
          refine ⟨hattended.move rfl (by simp) ?_, fun v hv => ?_⟩
          · simp [hpc, Pc.awake, hqueue]
          · have hnil := hempty v (blocking_of_setPc hv (by simp))
            rw [hqueue] at hnil
            cases hnil
        next => cases ht
  | finish w =>
      obtain ⟨task, htask⟩ := Option.ne_none_iff_exists'.mp hen
      have hpc := Pc.task_eq_some.mp htask
      simp only [step, hpc] at ht
      cases ht
      refine ⟨hattended.move rfl (by simp) ?_, fun v hv => hempty v (blocking_of_setPc hv (by simp))⟩
      simp [hpc, Pc.awake, State.setPc]
  | addTask caller wakes =>
      obtain ⟨hmutex, _, hblocked, hnone⟩ := hen
      have hfree : ∀ v, s.pc v ≠ .blocking := by
        intro v hv
        refine hdrain.locked.free hmutex v ?_
        rw [hv]
        decide
      cases wakes with
      | none =>
          cases ht
          refine ⟨?_, fun v hv => absurd hv (hfree v)⟩
          rintro ⟨v, hv⟩
          exact absurd hv (hnone rfl v)
      | some u =>
          cases ht
          refine ⟨hattended.move rfl (by simp) ?_, fun v hv => absurd (blocking_of_setPc hv (by simp)) (hfree v)⟩
          simp [hblocked u rfl, Pc.awake, State.setPc]
  | store => cases ht; exact ⟨hattended, hempty⟩
  | notifyAll =>
      cases ht
      constructor
      · rintro ⟨v, hv⟩
        exact absurd rfl ((wake_eq (by decide)).mp hv).2
      · intro v hv
        exact hempty v ((wake_eq (by decide)).mp hv).1
  | join => cases ht; exact ⟨hattended, hempty⟩

theorem init_progress : ProgressInv (init : State n) := ⟨init_drain, fun _ => Nat.zero_le _, nofun⟩

/-! ### At rest -/

/-- At rest nobody holds the mutex, runs a task or is about to lock: each worker is blocked or has returned. -/
theorem AtRest.place (hrest : AtRest s) (h : Locked s) (w : Fin n) : s.pc w = .blocked ∨ s.pc w = .returned := by
  have hfree : s.mutex = none := by
    by_contra hne
    obtain ⟨v, hv⟩ := Option.ne_none_iff_exists'.mp hne
    rcases (h.holds v).mpr hv with hpc | hpc | hpc
    · exact hrest (.check v) rfl hpc
    · exact hrest (.block v) rfl hpc
    · exact hrest (.take v) rfl hpc
  cases hpc : s.pc w with
  | blocked => exact Or.inl rfl
  | returned => exact Or.inr rfl
  | acquiring => exact absurd ⟨Or.inl hpc, hfree⟩ (hrest (.lock w) rfl)
  | notified => exact absurd ⟨Or.inr hpc, hfree⟩ (hrest (.lock w) rfl)
  | checking => exact absurd hpc (hrest (.check w) rfl)
  | blocking => exact absurd hpc (hrest (.block w) rfl)
  | taking => exact absurd hpc (hrest (.take w) rfl)
  | running task => exact absurd (by simp [Enabled, hpc, Pc.task]) (hrest (.finish w) rfl)

theorem ProgressInv.allRun (h : ProgressInv s) (hrest : AtRest s) : AllRun s := by
  have hplace := hrest.place h.drain.locked
  have hqueue : s.taskQueue = [] := by
    by_cases hblocked : ∃ w, s.pc w = .blocked
    · have hnone : s.total Pc.awake = 0 := by
        refine Finset.sum_eq_zero fun w _ => ?_
        rcases hplace w with hpc | hpc <;> rw [hpc] <;> rfl
      exact List.length_eq_zero_iff.mp (Nat.le_zero.mp (hnone ▸ h.attended hblocked))
    · exact h.drain.drained fun w => (hplace w).resolve_left fun hw => hblocked ⟨w, hw⟩
  have hrunning : s.running = [] := by
    refine List.filterMap_eq_nil_iff.mpr fun w _ => ?_
    rcases hplace w with hpc | hpc <;> rw [hpc] <;> rfl
  have horder := h.drain.accounted.order
  have honce := h.drain.accounted.once
  rw [hqueue, List.append_nil] at horder
  rwa [hrunning, List.append_nil, horder, List.perm_comm] at honce

/-! ### The work is bounded -/

/-- What a step may add to the work. -/
def Event.credit : Event n → Nat
  | .addTask _ _ => 7
  | .spuriousWakeup _ => 3
  | .notifyAll => 3 * n
  | .lock _ | .check _ | .block _ | .take _ | .finish _ | .store | .join => 0

theorem work_of_move (w : Fin n) (pc : Pc) {t : State n} {cost credit : Nat} (hpc : t.pc = (s.setPc w pc).pc)
    (h : pc.distance + 4 * t.taskQueue.length + cost ≤ (s.pc w).distance + 4 * s.taskQueue.length + credit) :
    t.work + cost ≤ s.work + credit := by
  have htotal : t.total Pc.distance = (s.setPc w pc).total Pc.distance := by
    unfold State.total
    rw [hpc]
  have := total_setPc Pc.distance s w pc
  unfold State.work
  omega

/-- A step of a worker lowers the work, and another raises it by its credit at most. -/
theorem step_work (s : State n) (e : Event n) (hen : Enabled s e) {t : State n} (ht : step s e = .ok t) :
    t.work + e.isWorker.toNat ≤ s.work + e.credit := by
  cases e with
  | lock w =>
      cases ht
      refine work_of_move w .checking rfl ?_
      rcases hen.1 with hpc | hpc
      all_goals
        simp only [hpc, Pc.distance, State.setPc, Event.isWorker, Event.credit, Bool.toNat_true]
        omega
  | check w =>
      cases ht
      have hpc : s.pc w = .checking := hen
      refine work_of_move w _ rfl ?_
      split_ifs
      all_goals
        simp only [hpc, Pc.distance, State.setPc, Event.isWorker, Event.credit, Bool.toNat_true]
        omega
  | block w =>
      cases ht
      have hpc : s.pc w = .blocking := hen
      refine work_of_move w .blocked rfl ?_
      simp only [hpc, Pc.distance, State.setPc, Event.isWorker, Event.credit, Bool.toNat_true]
      omega
  | spuriousWakeup w =>
      cases ht
      have hpc : s.pc w = .blocked := hen
      refine work_of_move w .notified rfl ?_
      simp only [hpc, Pc.distance, State.setPc, Event.isWorker, Event.credit, Bool.toNat_false]
      omega
  | take w =>
      have hpc : s.pc w = .taking := hen
      simp only [step] at ht
      split at ht
      · cases ht
        refine work_of_move w .returned rfl ?_
        simp only [hpc, Pc.distance, State.setPc, Event.isWorker, Event.credit, Bool.toNat_true]
        omega
      · split at ht
        next task taskQueue hqueue =>
          cases ht
          refine work_of_move w (.running task) rfl ?_
          simp only [hpc, hqueue, Pc.distance, List.length_cons, Event.isWorker, Event.credit, Bool.toNat_true]
          omega
        next => cases ht
  | finish w =>
      obtain ⟨task, htask⟩ := Option.ne_none_iff_exists'.mp hen
      have hpc := Pc.task_eq_some.mp htask
      simp only [step, hpc] at ht
      cases ht
      refine work_of_move w .acquiring rfl ?_
      simp only [hpc, Pc.distance, State.setPc, Event.isWorker, Event.credit, Bool.toNat_true]
      omega
  | addTask caller wakes =>
      obtain ⟨_, _, hblocked, _⟩ := hen
      cases wakes with
      | none =>
          cases ht
          simp only [State.work, State.total, List.length_append, List.length_singleton, Event.isWorker, Event.credit,
            Bool.toNat_false]
          omega
      | some u =>
          cases ht
          have hpc : s.pc u = .blocked := hblocked u rfl
          refine work_of_move (s := s) u .notified rfl ?_
          simp only [hpc, Pc.distance, State.setPc, List.length_append, List.length_singleton, Event.isWorker,
            Event.credit, Bool.toNat_false]
          omega
  | store => cases ht; exact Nat.le_refl _
  | notifyAll =>
      cases ht
      have hle := total_wake_le Pc.distance s
      simp only [State.work, State.total, Pc.distance, Event.isWorker, Event.credit, Bool.toNat_false] at hle ⊢
      omega
  | join => cases ht; exact Nat.le_refl _

/-- The workers alone can bring the pool to where every task was run. -/
def CanFinish (s : State n) : Prop :=
  ∃ es t, (∀ e ∈ es, Event.isWorker e = true) ∧ Along step Enabled s es ∧ es.foldlM step s = .ok t ∧ AllRun t

theorem ProgressInv.canFinish (hn : 0 < n) (h : ProgressInv s) : CanFinish s := by
  have hstep : ∀ (s : State n) (e : Event n), ProgressInv s → e.isWorker = true → Enabled s e →
      ∃ t, step s e = .ok t ∧ ProgressInv t ∧ t.work < s.work := by
    intro s e h hworker hen
    have hadds : AddsBefore s e := by cases e <;> trivial
    have hcredit : e.credit = 0 := by cases e <;> first | rfl | cases hworker
    obtain ⟨t, ht, hdrain⟩ := step_drain hn s e h.drain hen hadds
    obtain ⟨hattended, hempty⟩ := step_attended s e h hen ht
    have hwork := step_work s e hen ht
    rw [hworker, hcredit, Bool.toNat_true] at hwork
    exact ⟨t, ht, ⟨hdrain, hattended, hempty⟩, by omega⟩
  obtain ⟨es, t, hworkers, halong, ht, hinv, hrest⟩ := exists_rest hstep h
  exact ⟨es, t, hworkers, halong, ht, hinv.allRun hrest⟩

/-- **The pool finishes its tasks.** With at least one worker, and other threads that add tasks only before the
destructor starts, in every interleaving of the workers with the calls of `addTask` and the destructor, spurious
wakeups included: while a worker is blocked, there are no more tasks in the queue than workers on their way to it;
whenever no worker can go on, every task that was added was run, once; and the workers alone can always bring the pool
there. -/
theorem allRun_of_along (hn : 0 < n) (es : List (Event n)) (hes : Along step Enabled init es)
    (hadds : Along step AddsBefore init es) :
    Holds step noError (fun _ _ t => Attended t ∧ (AtRest t → AllRun t) ∧ CanFinish t) (init : State n) es := by
  refine holds_of_along (fun s e h hboth => ?_) init_progress (along_and.mpr ⟨hes, hadds⟩)
  obtain ⟨t, ht, hdrain⟩ := step_drain hn s e h.drain hboth.1 hboth.2
  obtain ⟨hattended, hempty⟩ := step_attended s e h hboth.1 ht
  have hinv : ProgressInv t := ⟨hdrain, hattended, hempty⟩
  exact StepHolds.of_ok ht ⟨⟨hattended, hinv.allRun, hinv.canFinish hn⟩, hinv⟩

/-- One worker is blocked and woken for a task while the other runs one that adds a third. -/
theorem allRun_of_along_run :
    Holds step noError (fun _ _ t => Attended t ∧ (AtRest t → AllRun t) ∧ CanFinish t) (init : State 2)
      [.lock 0, .check 0, .block 0, .addTask none (some 0), .lock 1, .check 1, .take 1, .addTask (some 1) none,
        .lock 0, .check 0, .take 0, .finish 0, .finish 1, .lock 0, .check 0, .block 0, .lock 1, .check 1, .block 1] :=
  allRun_of_along (by decide) _ (by decide) (by decide)

/-- **The workers come to rest.** In every interleaving, the workers take no more steps than three for each of them,
seven for each call of `addTask`, three for each spurious wakeup and three for each worker at `notify_all`. -/
theorem workerSteps_le (es : List (Event n)) (hes : Along step Enabled (init : State n) es) :
    es.countP Event.isWorker ≤ 3 * n + (es.map Event.credit).sum := by
  obtain ⟨t, ht, _⟩ := exists_foldlM (I := fun _ s => Locked s) (l := [])
    (fun _ s e h hen => step_locked s e h hen) init_locked hes
  have hstep : ∀ (s : State n) (e : Event n) (t : State n), True → Enabled s e → step s e = .ok t →
      True ∧ t.work + e.isWorker.toNat ≤ s.work + e.credit :=
    fun s e t _ hen ht => ⟨trivial, step_work s e hen ht⟩
  have hsum := (sum_cost_le hstep trivial hes ht).2
  have hinit : (init : State n).work = 3 * n := by
    simp [State.work, State.total, init, Pc.distance, Nat.mul_comm]
  rw [countP_eq_sum]
  omega

/-- A task for two workers, and the destructor. -/
def oneTask : List (Event 2) :=
  [.lock 0, .check 0, .block 0, .addTask none (some 0), .lock 1, .check 1, .take 1, .finish 1, .store, .lock 0,
    .check 0, .take 0, .notifyAll, .lock 1, .check 1, .take 1, .join]

theorem workerSteps_le_run :
    oneTask.countP Event.isWorker ≤ 3 * 2 + (oneTask.map Event.credit).sum :=
  workerSteps_le oneTask (by decide)

end ThreadPool

end OulaServer
