import OulaServer.Abort
import OulaServer.Lib.Run

/-!
# `ThreadPool`

`threadpool/threadpool.cpp` with `n` workers, as a step relation. A worker in `threadFunc` locks `m_mutex` and
waits on `m_cond`: it evaluates the predicate with the mutex held, and when that is false it releases the mutex
and blocks in one step; when it was notified, or for no reason, it locks the mutex and evaluates the predicate
again. A notification reaches only a worker that is blocked. `addTask` holds the mutex from its first to its
last statement and is one step, of a worker that runs a task or of another thread. The destructor does not
take the mutex; its store to `m_bStop` and its `notify_all` are two steps.

A task is named by the order in which it was added.
-/

namespace OulaServer

namespace ThreadPool

/-- Where a worker stands in `threadFunc`. -/
inductive Pc where
  -- at the `unique_lock`
  | acquiring
  -- in `m_cond.wait`: the predicate is next, it was false, blocked, about to lock again
  | checking
  | blocking
  | blocked
  | notified
  -- the predicate was true
  | taking
  | running (task : Nat)
  | returned
  deriving DecidableEq, Repr

/-- The worker holds `m_mutex`. -/
def Pc.Holds (pc : Pc) : Prop := pc = .checking ∨ pc = .blocking ∨ pc = .taking

instance (pc : Pc) : Decidable pc.Holds := inferInstanceAs (Decidable (_ ∨ _ ∨ _))

theorem Pc.not_holds_running (task : Nat) : ¬ (running task).Holds := by
  rintro (h | h | h) <;> cases h

/-- The task that the worker runs. -/
def Pc.task : Pc → Option Nat
  | running task => some task
  | _ => none

theorem Pc.task_eq_some {pc : Pc} {task : Nat} : pc.task = some task ↔ pc = .running task := by
  cases pc <;> simp [Pc.task]

/-- Where the destructor stands. -/
inductive Dtor where
  | before
  | stored
  | notified
  | joined
  deriving DecidableEq, Repr

structure State (n : Nat) where
  pc : Fin n → Pc
  /-- The worker that holds `m_mutex`. -/
  mutex : Option (Fin n)
  taskQueue : List Nat
  bStop : Bool
  dtor : Dtor
  /-- How many tasks were added. -/
  added : Nat
  /-- The tasks that were taken, and those that were run, with the worker. -/
  taken : List Nat
  ran : List (Fin n × Nat)

inductive Event (n : Nat) where
  | lock (w : Fin n)
  -- the predicate of `wait`
  | check (w : Fin n)
  | block (w : Fin n)
  | spuriousWakeup (w : Fin n)
  -- the rest of the locked block
  | take (w : Fin n)
  -- `curTask()` returns
  | finish (w : Fin n)
  -- by the task that a worker runs or by another thread, with the worker that `notify_one` wakes
  | addTask (caller : Option (Fin n)) (wakes : Option (Fin n))
  -- the destructor
  | store
  | notifyAll
  | join

variable {n : Nat}

def init : State n := ⟨fun _ => .acquiring, none, [], false, .before, 0, [], []⟩

namespace State

def setPc (s : State n) (w : Fin n) (pc : Pc) : State n := { s with pc := Function.update s.pc w pc }

/-- What `notify_all` makes of a worker. -/
def wake (pc : Pc) : Pc := if pc = .blocked then .notified else pc

end State

def step (s : State n) : Event n → Except Abort (State n)
  | .lock w => .ok { s.setPc w .checking with mutex := some w }
  | .check w => .ok (s.setPc w (if s.bStop ∨ s.taskQueue ≠ [] then .taking else .blocking))
  | .block w => .ok { s.setPc w .blocked with mutex := none }
  | .spuriousWakeup w => .ok (s.setPc w .notified)
  | .take w =>
      if s.bStop ∧ s.taskQueue = [] then
        .ok { s.setPc w .returned with mutex := none }
      else
        match s.taskQueue with
        | task :: taskQueue =>
            .ok { s.setPc w (.running task) with mutex := none, taskQueue, taken := s.taken ++ [task] }
        | [] => .error .taskQueueFront
  | .finish w =>
      match s.pc w with
      | .running task => .ok { s.setPc w .acquiring with ran := s.ran ++ [(w, task)] }
      | _ => .ok s
  | .addTask _ wakes =>
      let s := { s with taskQueue := s.taskQueue ++ [s.added], added := s.added + 1 }
      match wakes with
      | some w => .ok (s.setPc w .notified)
      | none => .ok s
  | .store => .ok { s with bStop := true, dtor := .stored }
  | .notifyAll => .ok { s with pc := fun w => State.wake (s.pc w), dtor := .notified }
  | .join => .ok { s with dtor := .joined }

/-- When each step can be taken. `notify_one` wakes a worker that is blocked, if there is one. -/
def Enabled (s : State n) : Event n → Prop
  | .lock w => (s.pc w = .acquiring ∨ s.pc w = .notified) ∧ s.mutex = none
  | .check w => s.pc w = .checking
  | .block w => s.pc w = .blocking
  | .spuriousWakeup w => s.pc w = .blocked
  | .take w => s.pc w = .taking
  | .finish w => (s.pc w).task ≠ none
  | .addTask caller wakes => s.mutex = none ∧ (∀ w ∈ caller, (s.pc w).task ≠ none) ∧
      (∀ w ∈ wakes, s.pc w = .blocked) ∧ (wakes = none → ∀ w, s.pc w ≠ .blocked)
  | .store => s.dtor = .before
  | .notifyAll => s.dtor = .stored
  | .join => s.dtor = .notified ∧ ∀ w, s.pc w = .returned

instance (s : State n) : (e : Event n) → Decidable (Enabled s e)
  | .lock _ => inferInstanceAs (Decidable ((_ ∨ _) ∧ _))
  | .check _ | .block _ | .spuriousWakeup _ | .take _ | .store | .notifyAll => inferInstanceAs (Decidable (_ = _))
  | .finish w => inferInstanceAs (Decidable ((s.pc w).task ≠ none))
  | .addTask caller wakes => inferInstanceAs (Decidable (s.mutex = none ∧
      (∀ w ∈ caller, (s.pc w).task ≠ none) ∧
      (∀ w ∈ wakes, s.pc w = .blocked) ∧ (wakes = none → ∀ w, s.pc w ≠ .blocked)))
  | .join => inferInstanceAs (Decidable (_ ∧ ∀ w, s.pc w = .returned))

/-! ### Mutual exclusion -/

/-- The mutex is held by the worker that is in a locked block, and a worker that takes finds the predicate
true. -/
structure Locked (s : State n) : Prop where
  holds : ∀ w, (s.pc w).Holds ↔ s.mutex = some w
  ready : ∀ w, s.pc w = .taking → s.bStop = true ∨ s.taskQueue ≠ []

variable {s : State n} {w : Fin n} {pc : Pc}

theorem setPc_pc (v : Fin n) : (s.setPc w pc).pc v = if v = w then pc else s.pc v := Function.update_apply _ _ _ _

theorem init_locked : Locked (init : State n) := by
  refine ⟨fun w => iff_of_false ?_ nofun, nofun⟩
  change ¬ Pc.Holds .acquiring
  decide

theorem Locked.move (h : Locked s) (hholds : pc.Holds ↔ (s.pc w).Holds)
    (hready : pc = .taking → s.bStop = true ∨ s.taskQueue ≠ []) : Locked (s.setPc w pc) := by
  refine ⟨fun v => ?_, fun v hv => ?_⟩
  · rw [setPc_pc]
    split_ifs with hvw
    · subst hvw
      exact hholds.trans (h.holds v)
    · exact h.holds v
  · rw [setPc_pc] at hv
    split_ifs at hv with hvw
    · exact hready hv
    · exact h.ready v hv

theorem Locked.release (h : Locked s) (w : Fin n) (pc : Pc) (hw : (s.pc w).Holds) (hnot : ¬ pc.Holds) {s' : State n}
    (hpc : s'.pc = (s.setPc w pc).pc) (hmutex : s'.mutex = none) : Locked s' := by
  have howner := (h.holds w).mp hw
  have hnone : ∀ v, ¬ (s'.pc v).Holds := by
    intro v
    rw [hpc, setPc_pc]
    split_ifs with hvw
    · exact hnot
    · intro hv
      exact hvw (Option.some.inj (((h.holds v).mp hv).symm.trans howner))
  refine ⟨fun v => iff_of_false (hnone v) (by rw [hmutex]; nofun), fun v hv => ?_⟩
  exact absurd (Or.inr (Or.inr hv)) (hnone v)

theorem Locked.free (h : Locked s) (hmutex : s.mutex = none) (v : Fin n) : ¬ (s.pc v).Holds := by
  intro hv
  rw [(h.holds v).mp hv] at hmutex
  cases hmutex

theorem Locked.of_free (h : Locked s) (hmutex : s.mutex = none) {s' : State n} (hpc : s'.pc = s.pc)
    (hmutex' : s'.mutex = none) : Locked s' := by
  refine ⟨fun v => iff_of_false (hpc ▸ h.free hmutex v) (by rw [hmutex']; nofun), fun v hv => ?_⟩
  exact absurd (Or.inr (Or.inr (hpc ▸ hv))) (h.free hmutex v)

theorem wake_holds : (State.wake pc).Holds ↔ pc.Holds := by
  unfold State.wake
  split_ifs with hblocked
  · subst hblocked
    decide
  · exact Iff.rfl

theorem wake_eq {p : Pc} (hp : p ≠ .notified) : State.wake pc = p ↔ pc = p ∧ p ≠ .blocked := by
  unfold State.wake
  split_ifs with hblocked
  · subst hblocked
    exact iff_of_false hp.symm fun hand => hand.2 hand.1.symm
  · refine ⟨fun heq => ⟨heq, ?_⟩, And.left⟩
    rintro rfl
    exact hblocked heq

/-- No step takes from an empty queue, and each keeps the mutual exclusion. -/
theorem step_locked (s : State n) (e : Event n) (h : Locked s) (hen : Enabled s e) :
    ∃ t, step s e = .ok t ∧ Locked t := by
  cases e with
  | lock w =>
      obtain ⟨hpc, hmutex⟩ := hen
      refine ⟨_, rfl, fun v => ?_, fun v hv => ?_⟩
      · change ((s.setPc w .checking).pc v).Holds ↔ some w = some v
        rw [setPc_pc]
        split_ifs with hvw
        · exact iff_of_true (Or.inl rfl) (congrArg some hvw.symm)
        · exact iff_of_false (h.free hmutex v) fun heq => hvw (Option.some.inj heq).symm
      · change (s.setPc w .checking).pc v = .taking at hv
        rw [setPc_pc] at hv
        split_ifs at hv
        exact absurd (Or.inr (Or.inr hv)) (h.free hmutex v)
  | check w =>
      have hpc : s.pc w = .checking := hen
      refine ⟨_, rfl, h.move ?_ fun htaking => ?_⟩
      · rw [hpc]
        split_ifs <;> decide
      · split_ifs at htaking with hready
        exact hready
  | block w =>
      have hpc : s.pc w = .blocking := hen
      refine ⟨_, rfl, h.release w .blocked ?_ (by decide) rfl rfl⟩
      rw [hpc]
      decide
  | spuriousWakeup w =>
      have hpc : s.pc w = .blocked := hen
      refine ⟨_, rfl, h.move ?_ nofun⟩
      rw [hpc]
      decide
  | take w =>
      have hpc : s.pc w = .taking := hen
      have hholds : (s.pc w).Holds := Or.inr (Or.inr hpc)
      by_cases hstop : s.bStop = true ∧ s.taskQueue = []
      · exact ⟨_, if_pos hstop, h.release w .returned hholds (by decide) rfl rfl⟩
      · cases hqueue : s.taskQueue with
        | nil =>
            rcases h.ready w hpc with hbstop | hne
            · exact absurd ⟨hbstop, hqueue⟩ hstop
            · exact absurd hqueue hne
        | cons task taskQueue =>
            refine ⟨{ s.setPc w (.running task) with mutex := none, taskQueue, taken := s.taken ++ [task] }, ?_,
              h.release w (.running task) hholds (Pc.not_holds_running task) rfl rfl⟩
            simp only [step, hqueue]
            simp
  | finish w =>
      obtain ⟨task, htask⟩ := Option.ne_none_iff_exists'.mp hen
      have hpc := Pc.task_eq_some.mp htask
      refine ⟨{ s.setPc w .acquiring with ran := s.ran ++ [(w, task)] }, by simp only [step, hpc], ?_⟩
      have hmove : Locked (s.setPc w .acquiring) := by
        refine h.move ?_ nofun
        rw [hpc]
        exact iff_of_false (by decide) (Pc.not_holds_running task)
      exact ⟨hmove.holds, hmove.ready⟩
  | addTask caller wakes =>
      obtain ⟨hmutex, _, hblocked, _⟩ := hen
      have hadd : Locked { s with taskQueue := s.taskQueue ++ [s.added], added := s.added + 1 } :=
        h.of_free hmutex rfl hmutex
      cases wakes with
      | none => exact ⟨_, rfl, hadd⟩
      | some v =>
          refine ⟨_, rfl, hadd.move ?_ nofun⟩
          change _ ↔ (s.pc v).Holds
          rw [hblocked v rfl]
          decide
  | store => exact ⟨_, rfl, h.holds, fun _ _ => Or.inl rfl⟩
  | notifyAll =>
      refine ⟨_, rfl, fun v => wake_holds.trans (h.holds v), fun v hv => h.ready v ?_⟩
      exact ((wake_eq (p := .taking) (by decide)).mp hv).1
  | join => exact ⟨_, rfl, h.holds, h.ready⟩

end ThreadPool

end OulaServer
