import OulaServer.ThreadPool.Basic

/-!
# The wakeup of the shutdown

`Woken` says that after the destructor's `notify_all` no worker is blocked. A worker that evaluates the
predicate after the store to `m_bStop` finds it true, and one that is blocked when `notify_all` is called is
woken. Between the two there is a window: a worker that found the predicate false before the store, and blocks
after `notify_all`, which does not take the mutex that the worker still holds. `NoneInWindow` is the condition
that no worker is there when `notify_all` is called.
-/

namespace OulaServer

namespace ThreadPool

open Run

variable {n : Nat}

/-- The destructor has notified the workers. -/
def Dtor.HasNotified (d : Dtor) : Prop := d = .notified ∨ d = .joined

instance (d : Dtor) : Decidable d.HasNotified := inferInstanceAs (Decidable (_ ∨ _))

theorem Dtor.HasNotified.ne_before {d : Dtor} (h : d.HasNotified) : d ≠ .before := by
  rintro rfl
  rcases h with h | h <;> cases h

/-- When the destructor has stored and notified, no worker is blocked. -/
def Woken (s : State n) : Prop := s.dtor.HasNotified → ∀ w, s.pc w ≠ .blocked

instance (s : State n) : Decidable (Woken s) := inferInstanceAs (Decidable (_ → ∀ w, s.pc w ≠ .blocked))

/-- When `notify_all` is called, no worker is between its evaluation of the predicate and its blocking. -/
def NoneInWindow (s : State n) : Event n → Prop
  | .notifyAll => ∀ w, s.pc w ≠ .blocking
  | _ => True

instance (s : State n) : (e : Event n) → Decidable (NoneInWindow s e)
  | .notifyAll => inferInstanceAs (Decidable (∀ w, s.pc w ≠ .blocking))
  | .lock _ | .check _ | .block _ | .spuriousWakeup _ | .take _ | .finish _ | .addTask _ _ | .store | .join =>
      .isTrue trivial

structure ShutdownInv (s : State n) : Prop where
  stopped : s.dtor ≠ .before → s.bStop = true
  woken : s.dtor.HasNotified → ∀ w, s.pc w ≠ .blocked ∧ s.pc w ≠ .blocking

variable {s : State n} {w : Fin n} {pc : Pc}

theorem init_shutdown : ShutdownInv (init : State n) := by
  exact ⟨fun h => absurd rfl h, fun h => absurd rfl h.ne_before⟩

/-- A worker moves on, and not towards blocking once the destructor notifies. -/
theorem ShutdownInv.move (h : ShutdownInv s) (w : Fin n) (pc : Pc)
    (hpc : s.dtor.HasNotified → pc ≠ .blocked ∧ pc ≠ .blocking) {s' : State n} (hpcs : s'.pc = (s.setPc w pc).pc)
    (hstop : s'.bStop = s.bStop) (hdtor : s'.dtor = s.dtor) : ShutdownInv s' := by
  refine ⟨fun hne => hstop ▸ h.stopped (hdtor ▸ hne), fun hnotified v => ?_⟩
  rw [hpcs, setPc_pc]
  split_ifs
  · exact hpc (hdtor ▸ hnotified)
  · exact h.woken (hdtor ▸ hnotified) v

theorem step_shutdown (s : State n) (e : Event n) (h : ShutdownInv s) (hen : Enabled s e) (hgood : NoneInWindow s e)
    {t : State n} (hstep : step s e = .ok t) : ShutdownInv t := by
  cases e with
  | lock w =>
      cases hstep
      exact h.move w .checking (fun _ => by simp) rfl rfl rfl
  | check w =>
      cases hstep
      refine h.move w _ (fun hnotified => ?_) rfl rfl rfl
      rw [if_pos (Or.inl (h.stopped hnotified.ne_before))]
      simp
  | block w =>
      cases hstep
      refine h.move w .blocked (fun hnotified => ?_) rfl rfl rfl
      exact absurd hen (h.woken hnotified w).2
  | spuriousWakeup w =>
      cases hstep
      exact h.move w .notified (fun _ => by simp) rfl rfl rfl
  | take w =>
      simp only [step] at hstep
      split at hstep
      · cases hstep
        exact h.move w .returned (fun _ => by simp) rfl rfl rfl
      · split at hstep
        · rename_i task taskQueue _
          cases hstep
          exact h.move w (.running task) (fun _ => by simp) rfl rfl rfl
        · cases hstep
  | finish w =>
      simp only [step] at hstep
      split at hstep
      · cases hstep
        exact h.move w .acquiring (fun _ => by simp) rfl rfl rfl
      · cases hstep
        exact h
  | addTask caller wakes =>
      cases wakes with
      | none =>
          cases hstep
          exact ⟨h.stopped, h.woken⟩
      | some v =>
          cases hstep
          exact h.move v .notified (fun _ => by simp) rfl rfl rfl
  | store =>
      cases hstep
      have hnot : ¬ Dtor.stored.HasNotified := by decide
      exact ⟨fun _ => rfl, fun hnotified => absurd hnotified hnot⟩
  | notifyAll =>
      cases hstep
      have hstored : s.dtor = .stored := hen
      refine ⟨fun _ => h.stopped (by rw [hstored]; simp), fun _ v => ⟨fun hblocked => ?_, fun hblocking => ?_⟩⟩
      · exact ((wake_eq (p := .blocked) (by decide)).mp hblocked).2 rfl
      · exact hgood v ((wake_eq (p := .blocking) (by decide)).mp hblocking).1
  | join =>
      cases hstep
      obtain ⟨hnotified, _⟩ := hen
      exact ⟨fun _ => h.stopped (by rw [hnotified]; simp), fun _ => h.woken (Or.inl hnotified)⟩

/-- **When the shutdown loses no wakeup.** In every interleaving of the workers, the calls of `addTask` and the
destructor in which no worker is between its evaluation of the predicate and its blocking when `notify_all` is
called: no worker is blocked after it. -/
theorem woken_of_along (es : List (Event n)) (hes : Along step Enabled init es)
    (hgood : Along step NoneInWindow init es) : Holds step noError (fun _ _ t => Woken t) (init : State n) es := by
  refine holds_of_along (I := fun s => Locked s ∧ ShutdownInv s) (fun s e hinv hboth => ?_)
    ⟨init_locked, init_shutdown⟩ (along_and.mpr ⟨hes, hgood⟩)
  obtain ⟨t, hstep, hlocked⟩ := step_locked s e hinv.1 hboth.1
  have hshutdown := step_shutdown s e hinv.2 hboth.1 hboth.2 hstep
  exact StepHolds.of_ok hstep ⟨fun hnotified w => (hshutdown.woken hnotified w).1, hlocked, hshutdown⟩

/-- One worker is blocked when the destructor starts, and one runs a task that adds another. -/
theorem woken_of_along_run : Holds step noError (fun _ _ t => Woken t) (init : State 2)
    [.lock 0, .check 0, .block 0, .lock 1, .check 1, .block 1, .addTask none (some 1), .lock 1, .check 1, .take 1,
      .store, .addTask (some 1) (some 0), .notifyAll, .finish 1, .lock 1, .check 1, .take 1, .finish 1, .lock 0,
      .check 0, .take 0, .lock 1, .check 1, .take 1, .join] :=
  woken_of_along _ (by decide) (by decide)

/-- A worker finds the predicate false; the destructor stores and notifies before it blocks. -/
theorem notified_before_blocking :
    Along step Enabled (init : State 1) [.lock 0, .check 0, .store, .notifyAll, .block 0] ∧
    ¬ Holds step noError (fun _ _ t => Woken t) (init : State 1) [.lock 0, .check 0, .store, .notifyAll, .block 0] :=
  ⟨by decide, by decide⟩

end ThreadPool

end OulaServer
