import OulaServer.TcpServer.Startup

/-!
# The server comes to listen

A potential of the main thread and of the thread that it waits for. Every step lowers it but the spurious wakeup of the
main thread, so the start takes a bounded number of steps; and as long as the main thread does not listen, a step can
be taken that is no spurious wakeup.
-/

namespace OulaServer

namespace Startup

open Run

variable {base : Nat} {s : State}

namespace Main

/-- The steps of the main thread that are left, if it need not wait. -/
def rank (n : Nat) : Main → Nat
  | idle => 14 * n + 3
  | spawning i => 14 * (n - i) + 2
  | locking i | notified i => 14 * (n - (i + 1)) + 5
  | checking i => 14 * (n - (i + 1)) + 4
  | blocking i | taking i => 14 * (n - (i + 1)) + 3
  | blocked i => 14 * (n - (i + 1)) + 2
  | starting => 1
  | listening => 0

end Main

/-- The steps of the thread that are left; the step that wakes the main thread pays for its way back to `wait`. -/
def Pc.distance : Pc → Nat
  | absent | looping => 0
  | unlocking => 1
  | publishing => 5
  | locking => 6
  | callback => 7
  | storing _ => 8
  | loading => 9
  | constructing => 10

def State.potential (s : State) : Nat :=
  s.main.rank s.numThreads + (s.threads (s.main.index s.numThreads)).pc.distance

/-- A spurious wakeup sends the main thread round once more. -/
def Event.credit (e : Event) : Nat := if e = .mainWakeup then 4 else 0

theorem sum_credit (es : List Event) : (es.map Event.credit).sum = 4 * es.count .mainWakeup := by
  induction es with
  | nil => rfl
  | cons e es ih =>
      rw [List.map_cons, List.sum_cons, ih, Event.credit]
      by_cases he : e = .mainWakeup
      · rw [if_pos he, he, List.count_cons_self]
        omega
      · rw [if_neg he, List.count_cons_of_ne he, Nat.zero_add]

theorem potential_at {i : Nat} (hat : s.main.At i) :
    s.potential = s.main.rank s.numThreads + (s.threads i).pc.distance := by
  rw [State.potential, hat.index]

theorem potential_setThread {i : Nat} (hat : s.main.At i) (t : Thread) {u : State} (hmain : u.main = s.main)
    (hthreads : u.threads = (s.setThread i t).threads) (hn : u.numThreads = s.numThreads)
    (hlt : t.pc.distance < (s.threads i).pc.distance) : u.potential + 1 ≤ s.potential := by
  have hat' : u.main.At i := by rw [hmain]; exact hat
  rw [potential_at hat, potential_at hat', hmain, hthreads, hn, setThread_self]
  omega

theorem potential_setMain {i : Nat} (hat : s.main.At i) {u : State} (hat' : u.main.At i)
    (hpc : (u.threads i).pc = (s.threads i).pc) (hn : u.numThreads = s.numThreads)
    {c : Nat} (hle : u.main.rank s.numThreads + 1 ≤ s.main.rank s.numThreads + c) :
    u.potential + 1 ≤ s.potential + c := by
  rw [potential_at hat, potential_at hat', hpc, hn]
  omega

theorem rank_notify_le (m : Main) (i n : Nat) : (m.notify i).rank n ≤ m.rank n + 3 := by
  unfold Main.notify
  split_ifs with hblocked
  · rw [hblocked]
    simp only [Main.rank]
    omega
  · omega

theorem potential_settled (h : Inv base s) (hat : ¬ ∃ i, s.main.At i) : s.potential = s.main.rank s.numThreads := by
  rw [State.potential, (h.settled hat).1]
  rfl

theorem step_potential (h : Inv base s) {e : Event} (hen : Enabled s e) {t : State} (hs : step s e = .ok t) :
    t.potential + 1 ≤ s.potential + e.credit := by
  cases e with
  | start =>
      have hmain : s.main = .idle := hen
      obtain ⟨u, hu, hinv⟩ := step_start h hen
      cases hu.symm.trans hs
      simp only [step, State.startPool, h.bStartd.mpr hmain, Bool.false_eq_true, if_false, if_true,
        Except.ok.injEq] at hs
      have hmain' : t.main = .spawning 0 := by rw [← hs]
      have hn : t.numThreads = s.numThreads := by rw [← hs]
      rw [potential_settled h (by rw [hmain]; rintro ⟨i, ⟨⟩⟩),
        potential_settled hinv (by rw [hmain']; rintro ⟨j, ⟨⟩⟩), hmain, hmain', hn]
      simp only [Main.rank, Event.credit, reduceCtorEq, if_false]
      omega
  | spawn =>
      obtain ⟨i, hlt, hmain⟩ := hen
      have hpotential := potential_settled h (by rw [hmain]; rintro ⟨i, ⟨⟩⟩)
      have hpc := (h.settled (by rw [hmain]; rintro ⟨i, ⟨⟩⟩)).1
      rw [hmain] at hpc hpotential
      simp only [Main.index] at hpc
      simp only [step, hmain, hpc, if_true, Except.ok.injEq] at hs
      subst hs
      have hself : ((s.setPc i .constructing).threads i).pc = .constructing := congrArg Thread.pc (setThread_self ..)
      rw [hpotential, potential_at (s := { s.setPc i .constructing with main := .locking i }) (i := i) rfl]
      show Main.rank s.numThreads (.locking i) + ((s.setPc i .constructing).threads i).pc.distance + 1 ≤ _
      rw [hself]
      simp only [Main.rank, Pc.distance, Event.credit, reduceCtorEq, if_false]
      omega
  | endLoop =>
      obtain ⟨i, hmain, hge⟩ := hen
      have hat : ¬ ∃ i, s.main.At i := by rw [hmain]; rintro ⟨i, ⟨⟩⟩
      obtain ⟨u, hu, hinv⟩ := step_endLoop h ⟨i, hmain, hge⟩
      cases hu.symm.trans hs
      have hmain' : t.main = .starting := by
        cases hs
        split_ifs <;> rfl
      rw [potential_settled h hat, potential_settled hinv (by rw [hmain']; rintro ⟨j, ⟨⟩⟩), hmain, hmain']
      simp only [Main.rank, Event.credit, reduceCtorEq, if_false]
      omega
  | mainLock =>
      obtain ⟨i, hmain, _⟩ := hen
      have hat : s.main.At i := by rcases hmain with hmain | hmain <;> rw [hmain] <;> rfl
      have ht : t = { s.setMutex i (some .main) with main := .checking i } := by
        rcases hmain with hmain | hmain <;> simp only [step, hmain, Except.ok.injEq] at hs <;> exact hs.symm
      subst ht
      refine potential_setMain hat (u := { s.setMutex i (some .main) with main := .checking i }) rfl
        (setMutex_pc s i _ i) rfl ?_
      rcases hmain with hmain | hmain <;> rw [hmain] <;>
        simp only [Main.rank, Event.credit, reduceCtorEq, if_false] <;> omega
  | mainCheck =>
      obtain ⟨i, hmain⟩ := hen
      have hat : s.main.At i := by rw [hmain]; rfl
      simp only [step, hmain, Except.ok.injEq] at hs
      subst hs
      refine potential_setMain hat (u := { s with main := if (s.threads i).loop then .taking i else .blocking i })
        ?_ rfl rfl ?_
      · show Main.At i (if (s.threads i).loop then .taking i else .blocking i)
        split_ifs <;> rfl
      · show Main.rank s.numThreads (if (s.threads i).loop then .taking i else .blocking i) + 1 ≤ _
        rw [hmain]
        split_ifs <;> simp only [Main.rank, Event.credit, reduceCtorEq, if_false] <;> omega
  | mainBlock =>
      obtain ⟨i, hmain⟩ := hen
      have hat : s.main.At i := by rw [hmain]; rfl
      simp only [step, hmain, Except.ok.injEq] at hs
      subst hs
      refine potential_setMain hat (u := { s.setMutex i none with main := .blocked i }) rfl (setMutex_pc s i _ i) rfl ?_
      rw [hmain]
      simp only [Main.rank, Event.credit, reduceCtorEq, if_false]
      omega
  | mainWakeup =>
      obtain ⟨i, hmain⟩ := hen
      have hat : s.main.At i := by rw [hmain]; rfl
      simp only [step, hmain, Except.ok.injEq] at hs
      subst hs
      refine potential_setMain hat (u := { s with main := .notified i }) rfl rfl rfl ?_
      rw [hmain]
      simp only [Main.rank, Event.credit, if_true]
      omega
  | mainTake =>
      obtain ⟨i, hmain⟩ := hen
      obtain ⟨u, hu, hinv⟩ := step_mainTake h ⟨i, hmain⟩
      cases hu.symm.trans hs
      simp only [step, hmain, Except.ok.injEq] at hs
      have hmain' : t.main = .spawning (i + 1) := by rw [← hs]
      have hn : t.numThreads = s.numThreads := by rw [← hs]; rfl
      have hat : s.main.At i := by rw [hmain]; rfl
      rw [potential_settled hinv (by rw [hmain']; rintro ⟨j, ⟨⟩⟩), potential_at hat, hmain, hmain', hn]
      simp only [Main.rank, Event.credit, reduceCtorEq, if_false]
      omega
  | listen =>
      have hmain : s.main = .starting := hen
      obtain ⟨u, hu, hinv⟩ := step_listen h hen
      cases hu.symm.trans hs
      have hmain' : t.main = .listening := by
        simp only [step] at hs
        split_ifs at hs
        cases hs
        rfl
      rw [potential_settled h (by rw [hmain]; rintro ⟨j, ⟨⟩⟩),
        potential_settled hinv (by rw [hmain']; rintro ⟨j, ⟨⟩⟩), hmain, hmain']
      simp [Main.rank, Event.credit]
  | construct i =>
      have hpc : (s.threads i).pc = .constructing := hen
      cases hs
      exact potential_setThread (h.at_of_pc (i := i) (by rw [hpc]; simp) (by rw [hpc]; simp)) _ rfl rfl rfl
        (by rw [hpc]; simp [Pc.distance])
  | load i =>
      have hpc : (s.threads i).pc = .loading := hen
      cases hs
      exact potential_setThread (h.at_of_pc (i := i) (by rw [hpc]; simp) (by rw [hpc]; simp)) _ rfl rfl rfl
        (by rw [hpc]; simp [Pc.distance])
  | store i =>
      obtain ⟨loaded, hpc⟩ := hen
      simp only [step, hpc, Except.ok.injEq] at hs
      subst hs
      exact potential_setThread (h.at_of_pc (i := i) (by rw [hpc]; simp) (by rw [hpc]; simp)) _ rfl rfl rfl
        (by rw [hpc]; simp [Pc.distance])
  | callback i =>
      have hpc : (s.threads i).pc = .callback := hen
      cases hs
      exact potential_setThread (h.at_of_pc (i := i) (by rw [hpc]; simp) (by rw [hpc]; simp)) _ rfl rfl rfl
        (by rw [hpc]; simp [Pc.distance])
  | lock i =>
      have hpc : (s.threads i).pc = .locking := hen.1
      cases hs
      exact potential_setThread (h.at_of_pc (i := i) (by rw [hpc]; simp) (by rw [hpc]; simp)) _ rfl rfl rfl
        (by rw [hpc]; simp [Pc.distance])
  | publish i =>
      have hpc : (s.threads i).pc = .publishing := hen
      have hat := h.at_of_pc (i := i) (by rw [hpc]; simp) (by rw [hpc]; simp)
      cases hs
      have hle := rank_notify_le s.main i s.numThreads
      rw [potential_at hat, potential_at (i := i) (notify_at hat), hpc]
      show (s.main.notify i).rank s.numThreads + ((s.setThread i _).threads i).pc.distance + 1 ≤ _
      rw [setThread_self]
      simp only [Pc.distance, Event.credit, reduceCtorEq, if_false]
      omega
  | unlock i =>
      have hpc : (s.threads i).pc = .unlocking := hen
      cases hs
      exact potential_setThread (h.at_of_pc (i := i) (by rw [hpc]; simp) (by rw [hpc]; simp)) _ rfl rfl rfl
        (by rw [hpc]; simp [Pc.distance])

/-- As long as the main thread does not listen, it can take a step, or the thread that it waits for can. -/
theorem Inv.exists_enabled (h : Inv base s) (hmain : s.main ≠ .listening) :
    ∃ e, e ≠ .mainWakeup ∧ Enabled s e := by
  have hlocked : ∀ i, s.main = .locking i ∨ s.main = .notified i → ∃ e, e ≠ .mainWakeup ∧ Enabled s e := by
    intro i hi
    have hmutex := (h.consistent i).mutex
    rw [show s.main.holds i = false by rcases hi with hi | hi <;> rw [hi] <;> rfl] at hmutex
    cases hpc : (s.threads i).pc with
    | publishing => exact ⟨.publish i, by simp, hpc⟩
    | unlocking => exact ⟨.unlock i, by simp, hpc⟩
    | _ =>
        rw [hpc] at hmutex
        exact ⟨.mainLock, by simp, i, hi, hmutex⟩
  cases hs : s.main with
  | idle => exact ⟨.start, by simp, hs⟩
  | spawning i =>
      by_cases hlt : i < s.numThreads
      · exact ⟨.spawn, by simp, i, hlt, hs⟩
      · exact ⟨.endLoop, by simp, i, hs, hlt⟩
  | locking i => exact hlocked i (Or.inl hs)
  | notified i => exact hlocked i (Or.inr hs)
  | checking i => exact ⟨.mainCheck, by simp, i, hs⟩
  | blocking i => exact ⟨.mainBlock, by simp, i, hs⟩
  | taking i => exact ⟨.mainTake, by simp, i, hs⟩
  | starting => exact ⟨.listen, by simp, hs⟩
  | listening => exact absurd hs hmain
  | blocked i =>
      -- the loop is not published yet, so the thread is on its way there
      have hat : s.main.At i := by rw [hs]; rfl
      have habsent : (s.threads i).pc ≠ .absent := by
        rw [← hat.index s.numThreads, Ne, h.current, not_not]
        exact ⟨i, hat⟩
      have hpublished := h.waits i (Or.inr hs)
      have hmutex := (h.consistent i).mutex
      rw [hs] at hmutex
      cases hpc : (s.threads i).pc with
      | absent => exact absurd hpc habsent
      | constructing => exact ⟨.construct i, by simp, hpc⟩
      | loading => exact ⟨.load i, by simp, hpc⟩
      | storing loaded => exact ⟨.store i, by simp, loaded, hpc⟩
      | callback => exact ⟨.callback i, by simp, hpc⟩
      | locking =>
          rw [hpc] at hmutex
          exact ⟨.lock i, by simp, hpc, hmutex⟩
      | publishing => exact ⟨.publish i, by simp, hpc⟩
      | unlocking =>
          rw [hpc] at hpublished
          cases hpublished
      | looping =>
          rw [hpc] at hpublished
          cases hpublished

/-- **The server comes to listen.** In every interleaving, a step can be taken that is no spurious wakeup until the main
thread listens, and the start takes at most fourteen steps for each thread, three more, and four for each spurious
wakeup. -/
theorem listens_of_along (n : Nat) (hasCallback : Bool) (base : Nat) (es : List Event)
    (hes : Along step Enabled (init n hasCallback base) es) :
    Holds step noError (fun _ _ t => t.main = .listening ∨ ∃ e, e ≠ .mainWakeup ∧ Enabled t e)
        (init n hasCallback base) es ∧
      es.length ≤ 14 * n + 3 + 4 * es.count .mainWakeup := by
  have hinv : Inv base (init n hasCallback base) := init_inv n hasCallback base
  constructor
  · refine holds_of_along (fun s e h hen => ?_) hinv hes
    obtain ⟨t, ht, hinv⟩ := step_inv h hen
    exact StepHolds.of_ok ht ⟨or_iff_not_imp_left.mpr hinv.exists_enabled, hinv⟩
  · obtain ⟨t, ht, _⟩ := exists_foldlM (I := fun _ s => Inv base s) (l := [])
      (fun _ s e h hen => step_inv h hen) hinv hes
    have hstep : ∀ s e t, Inv base s → Enabled s e → step s e = .ok t →
        Inv base t ∧ t.potential + 1 ≤ s.potential + e.credit := by
      intro s e t h hen ht
      obtain ⟨u, hu, hinv⟩ := step_inv h hen
      cases hu.symm.trans ht
      exact ⟨hinv, step_potential h hen ht⟩
    have hsum := (sum_cost_le hstep hinv hes ht).2
    have hinit : (init n hasCallback base).potential = 14 * n + 3 := rfl
    have hcost : (es.map fun _ => 1).sum = es.length := by simp
    have hcredit := sum_credit es
    omega

theorem listens_of_along_run :
    Holds step noError (fun _ _ t => t.main = .listening ∨ ∃ e, e ≠ .mainWakeup ∧ Enabled t e)
        (init 2 true 1) twoThreads ∧
      twoThreads.length ≤ 14 * 2 + 3 + 4 * twoThreads.count .mainWakeup :=
  listens_of_along 2 true 1 twoThreads (by decide +kernel)

end Startup

end OulaServer
